import FryFirmware.Wireguard.Provision
import Mathlib.Data.List.Basic
import Mathlib.Tactic.Common

/-!
# What an interrupted commit leaves

Each of the eight writes sets one key, so the store after any pattern of failures
and any power loss is the earlier one with the written keys replaced. From this,
exactly when the board can still recover.
-/

set_option autoImplicit false

namespace FryFirmware.Wireguard

open Lib Config

/-- The write with this index takes effect. -/
def Took (fates : List Fate) (index : Nat) : Prop := fates[index]? = some .done

instance (fates : List Fate) (index : Nat) : Decidable (Took fates index) :=
  inferInstanceAs (Decidable (_ = _))

/-- The store that a commit with these fates leaves. -/
def commit (r : Response) (epochS : UInt32) (fates : List Fate) (prior : Vpn) : Vpn :=
  ((setWgProvisioned r epochS).run WgWrite.apply prior fates).state

def writesOf (r : Response) (epochS : UInt32) : List WgWrite :=
  [.psk r.psk, .endpoint r.endpointHost, .port r.endpointPort.toUInt32, .addr r.addrCidr,
    .allowed r.allowedCsv, .keepalive r.keepaliveS, .peerPub r.peerPub, .provAt epochS]

theorem setWgProvisioned_eq (r : Response) (epochS : UInt32) :
    setWgProvisioned r epochS = Program.puts (writesOf r epochS) := rfl

theorem commit_field {γ : Type} (r : Response) (epochS : UInt32) (fates : List Fate) (prior : Vpn)
    (field : Vpn → γ) (front : List WgWrite) {back : List WgWrite} {write : WgWrite} {value : γ}
    (split : writesOf r epochS = front ++ write :: back)
    (sets : ∀ v, field (write.apply v) = value)
    (frame : ∀ other ∈ front ++ back, ∀ v, field (other.apply v) = field v) :
    field (commit r epochS fates prior) =
      if Took fates front.length then value else field prior := by
  rw [commit, setWgProvisioned_eq, split]
  exact puts_run_field field front sets frame prior fates

theorem commit_frame {γ : Type} (r : Response) (epochS : UInt32) (fates : List Fate) (prior : Vpn)
    (field : Vpn → γ) (frame : ∀ write ∈ writesOf r epochS, ∀ v, field (write.apply v) = field v) :
    field (commit r epochS fates prior) = field prior := by
  rw [commit, setWgProvisioned_eq]
  exact puts_run_frame field frame prior fates

/-- The earlier store with the written keys replaced. -/
theorem commit_eq (r : Response) (epochS : UInt32) (fates : List Fate) (prior : Vpn) :
    commit r epochS fates prior =
      { prior with
        wgPsk := if Took fates 0 then some r.psk else prior.wgPsk
        wgEndpoint := if Took fates 1 then some r.endpointHost else prior.wgEndpoint
        wgPort := if Took fates 2 then some r.endpointPort.toUInt32 else prior.wgPort
        wgAddr := if Took fates 3 then some r.addrCidr else prior.wgAddr
        wgAllowed := if Took fates 4 then some r.allowedCsv else prior.wgAllowed
        wgKeepalive := if Took fates 5 then some r.keepaliveS else prior.wgKeepalive
        wgPeerPub := if Took fates 6 then some r.peerPub else prior.wgPeerPub
        wgProvAt := if Took fates 7 then some epochS else prior.wgProvAt } := by
  have psk := commit_field r epochS fates prior Vpn.wgPsk [] rfl (fun _ => rfl)
    (by simp [WgWrite.apply])
  have endpoint := commit_field r epochS fates prior Vpn.wgEndpoint [_] rfl (fun _ => rfl)
    (by simp [WgWrite.apply])
  have port := commit_field r epochS fates prior Vpn.wgPort [_, _] rfl (fun _ => rfl)
    (by simp [WgWrite.apply])
  have addr := commit_field r epochS fates prior Vpn.wgAddr [_, _, _] rfl (fun _ => rfl)
    (by simp [WgWrite.apply])
  have allowed := commit_field r epochS fates prior Vpn.wgAllowed [_, _, _, _] rfl (fun _ => rfl)
    (by simp [WgWrite.apply])
  have keepalive := commit_field r epochS fates prior Vpn.wgKeepalive [_, _, _, _, _] rfl
    (fun _ => rfl) (by simp [WgWrite.apply])
  have peerPub := commit_field r epochS fates prior Vpn.wgPeerPub [_, _, _, _, _, _] rfl
    (fun _ => rfl) (by simp [WgWrite.apply])
  have provAt := commit_field r epochS fates prior Vpn.wgProvAt [_, _, _, _, _, _, _] rfl
    (fun _ => rfl) (by simp [WgWrite.apply])
  have priv : (commit r epochS fates prior).wgPriv = prior.wgPriv :=
    commit_frame r epochS fates prior Vpn.wgPriv (by simp [writesOf, WgWrite.apply])
  have pub : (commit r epochS fates prior).wgPub = prior.wgPub :=
    commit_frame r epochS fates prior Vpn.wgPub (by simp [writesOf, WgWrite.apply])
  generalize commit r epochS fates prior = left at *
  cases left
  simp only [List.length_cons, List.length_nil, Nat.zero_add, Nat.reduceAdd] at *
  rw [psk, endpoint, port, addr, allowed, keepalive, peerPub, provAt, priv, pub]

/-! ## When the board recovers -/

/-- One of the two keys that `hasVpnConfig` asks for was absent and is not written. -/
def StaysUnconfigured (prior : Vpn) (fates : List Fate) : Prop :=
  (¬ Took fates 6 ∧ prior.wgPeerPub = none) ∨ (¬ Took fates 1 ∧ prior.wgEndpoint = none)

/-- The trust stamp is written and not zero, or was there before; a field that is not
written already read as the response has it. -/
structure Completes (r : Response) (epochS : UInt32) (prior : Vpn) (fates : List Fate) : Prop where
  stamp : if Took fates 7 then epochS ≠ 0 else prior.getWgProvAt ≠ 0
  psk : ¬ Took fates 0 → prior.getWgPsk = r.psk
  endpoint : ¬ Took fates 1 → prior.getWgEndpoint = r.endpointHost
  port : ¬ Took fates 2 → prior.getWgPort = r.endpointPort.toUInt32
  addr : ¬ Took fates 3 → prior.getWgAddr = r.addrCidr
  allowed : ¬ Took fates 4 → prior.getWgAllowed = r.allowedCsv
  keepalive : ¬ Took fates 5 → prior.getWgKeepalive = r.keepaliveS
  peerPub : ¬ Took fates 6 → prior.getWgPeerPub = r.peerPub

theorem retries_commit_iff (r : Response) (epochS : UInt32) (fates : List Fate) (prior : Vpn) :
    retriesProvisioning (commit r epochS fates prior) = true ↔ StaysUnconfigured prior fates := by
  rw [commit_eq]
  simp only [retriesProvisioning, Vpn.hasVpnConfig, StaysUnconfigured]
  by_cases peerPub : Took fates 6 <;> by_cases endpoint : Took fates 1 <;> simp [peerPub, endpoint]

theorem getD_ite_iff {γ : Type} {took : Prop} [Decidable took] (value default : γ)
    (old : Option γ) :
    (if took then some value else old).getD default = value ↔ (¬ took → old.getD default = value) := by
  by_cases written : took <;> simp [written]

theorem stored_commit_iff (r : Response) (epochS : UInt32) (fates : List Fate) (prior : Vpn) :
    (provisioningGateOpen (commit r epochS fates prior) = true ∧
        Stored r (commit r epochS fates prior)) ↔
      Completes r epochS prior fates := by
  have gate : provisioningGateOpen (commit r epochS fates prior) = true ↔
      if Took fates 7 then epochS ≠ 0 else prior.getWgProvAt ≠ 0 := by
    rw [commit_eq]
    by_cases stamped : Took fates 7 <;> simp [provisioningGateOpen, Vpn.getWgProvAt, stamped]
  rw [gate, commit_eq]
  constructor
  · intro ⟨stamp, stored⟩
    exact ⟨stamp, (getD_ite_iff _ _ _).mp stored.psk, (getD_ite_iff _ _ _).mp stored.endpoint,
      (getD_ite_iff _ _ _).mp stored.port, (getD_ite_iff _ _ _).mp stored.addr,
      (getD_ite_iff _ _ _).mp stored.allowed, (getD_ite_iff _ _ _).mp stored.keepalive,
      (getD_ite_iff _ _ _).mp stored.peerPub⟩
  · intro completes
    refine ⟨completes.stamp, ?_⟩
    exact ⟨(getD_ite_iff _ _ _).mpr completes.peerPub, (getD_ite_iff _ _ _).mpr completes.psk,
      (getD_ite_iff _ _ _).mpr completes.endpoint, (getD_ite_iff _ _ _).mpr completes.port,
      (getD_ite_iff _ _ _).mpr completes.addr, (getD_ite_iff _ _ _).mpr completes.allowed,
      (getD_ite_iff _ _ _).mpr completes.keepalive⟩

/-- After a commit with any failed writes and any power loss, the board recovers
exactly where it stays unconfigured or nothing is missing. -/
theorem commit_recoverable_iff (r : Response) (epochS : UInt32) (fates : List Fate) (prior : Vpn) :
    Recoverable r (commit r epochS fates prior) ↔
      StaysUnconfigured prior fates ∨ Completes r epochS prior fates :=
  or_congr (retries_commit_iff r epochS fates prior) (stored_commit_iff r epochS fates prior)

/-- Power lost between the last two writes of a first commit: a configuration that
is neither trusted nor asked for again. -/
theorem commit_stranded :
    let prior : Vpn :=
      { wgPriv := some (text "YAnoQAfzH7T5nNzBeRPrUYCu2qL7pqXr9kX6iNfwEUM=")
        wgPub := some (text "hSDwCYkwp1R0i33ctD73Wg2/Og0mOBr066SpjqqbTmo=") }
    let response : Response :=
      { peerPub := text "3p7bfXt9wbTTW2HC7OQ1Nz+DQ8hbeGdNrfx+FG+IK08="
        psk := []
        endpointHost := text "vpn.example.net"
        endpointPort := 51820
        addrCidr := text "10.13.13.2/24"
        allowedCsv := text "10.13.13.0/24"
        keepaliveS := 25 }
    prior.hasVpnConfig = false ∧
      ¬ Recoverable response (commit response 1790000000 (List.replicate 7 .done) prior) := by
  intro prior response
  refine ⟨by decide +kernel, ?_⟩
  rw [Recoverable]
  intro recoverable
  obtain retries | ⟨gate, -⟩ := recoverable
  · revert retries
    decide +kernel
  · revert gate
    decide +kernel

end FryFirmware.Wireguard
