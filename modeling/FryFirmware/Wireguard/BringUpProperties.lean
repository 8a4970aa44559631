import FryFirmware.Lib.Joined
import FryFirmware.Wireguard.BringUp
import FryFirmware.Wireguard.ResponseProperties
import Mathlib.Data.List.Basic
import Mathlib.Tactic.Common

/-!
# From the response to the tunnel

Which configuration the library gets after an accepted response was stored.
-/

set_option autoImplicit false

namespace FryFirmware.Wireguard

open Lib Config
open Relay (prefixToMask)

/-! ## The address -/

/-- A network text has one slash, behind the address. -/
theorem readCidr_split {s : Text} {ip : UInt32} {bits : Nat} (read : readCidr s = some (ip, bits)) :
    ∃ host digits, s = host ++ 47 :: digits ∧ 47 ∉ host := by
  obtain ⟨octets, digits, -, decimal, -, rfl, -⟩ := readCidr_iff.mp read
  refine ⟨_, digits, rfl, fun slash => ?_⟩
  rcases mem_intercalate slash with same | ⟨octet, known, inside⟩
  · cases same
  · exact absurd ((decimal octet known).all _ inside) (by decide)

theorem hostOf_eq {host digits : Text} (plain : 47 ∉ host) : hostOf (host ++ 47 :: digits) = host := by
  have absent : host.findIdx? (fun c => c = 47) = none := by
    rw [List.findIdx?_eq_none_iff]
    intro c member
    exact decide_eq_false fun same => plain (same ▸ member)
  have found : (host ++ 47 :: digits).findIdx? (fun c => c = 47) = some host.length := by
    rw [List.findIdx?_append, absent]
    simp [List.findIdx?_cons]
  rw [hostOf, found]
  simp only [substring, List.take_left, List.drop_zero]

theorem netmaskOf_eq {s : Text} {ip : UInt32} {bits : Nat} (read : readCidr s = some (ip, bits)) :
    netmaskOf s = dotted (prefixToMask bits) := by
  rw [netmaskOf, parseIpv4Cidr, Option.bind_some, read]
  simp only [formatIpv4_eq (prefixToMask bits) [] (Nat.le_refl 16)]
  rw [if_pos]
  rw [dotted]
  simp only [List.length_append, List.length_cons]
  omega

/-! ## The two narrow fields -/

theorem toNat_toUInt32_of_pos {x : Int32} (positive : 0 < x) : (x.toUInt32.toNat : Int) = x.toInt := by
  have bound := Int32.lt_iff_toInt_lt.mp positive
  rw [Int32.toNat_toUInt32_of_le (Int32.le_of_lt positive)]
  have zero : (0 : Int32).toInt = 0 := rfl
  have clamped : x.toNatClampNeg = x.toInt.toNat := rfl
  omega

theorem toNat_toUInt16_iff {x : Int32} (positive : 0 < x) :
    (x.toUInt32.toUInt16.toNat : Int) = x.toInt ↔ x ≤ 65535 := by
  have value := toNat_toUInt32_of_pos positive
  have limit : (65535 : Int32).toInt = 65535 := rfl
  rw [UInt32.toNat_toUInt16, Int32.le_iff_toInt_le, limit, ← value]
  omega

/-! ## The configuration -/

/-- The tunnel gets what the response says. -/
structure Reaches (raw : WgProvisionRaw) (config : WireguardConfig) : Prop where
  publicKey : raw.serverPub = some config.publicKey
  presharedKey : config.presharedKey = raw.psk
  endpoint : raw.endpointHost = some config.endpoint
  port : (config.port.toNat : Int) = raw.endpointPort.toInt
  address : ∃ digits ip bits, raw.tunnelAddress = some (config.address ++ 47 :: digits) ∧
    readCidr (config.address ++ 47 :: digits) = some (ip, bits) ∧
    config.netmask = dotted (prefixToMask bits)
  keepalive : (config.persistentKeepalive.toNat : Int) =
    if raw.keepaliveProvided then raw.keepaliveValue.toInt else 25

def Hands (calls : List EspWireguard) (config : WireguardConfig) : Prop :=
  .init config ∈ calls ∨ .connect config ∈ calls

/-- Every call of a bring-up has the configuration of the store. -/
theorem bringUp_calls {t : Tunnel} (fresh : t.calls = []) (v : Vpn) (s : TunnelStrings)
    (answers : BringUpAnswers) : ∀ call ∈ (bringUp t v s answers).1.calls,
      call = .init (wireguardConfigOf v s) ∨ call = .connect (wireguardConfigOf v s) ∨
        ∃ entry, call = .addAllowedIp entry := by
  intro call member
  unfold bringUp at member
  cases synced : answers.ntpSynced with
  | false => simp [synced, fresh] at member
  | true =>
      simp only [synced, Bool.not_true, Bool.false_eq_true, if_false] at member
      generalize connectFrom answers.connect WG_CONNECT_ATTEMPTS 1 = connecting at member
      cases attempted : t.initAttempted with
      | false =>
          simp only [attempted, Bool.not_false, if_true] at member
          split at member
          · simp only [fresh, List.nil_append, List.mem_singleton] at member
            exact .inl member
          · split at member
            · simp only [fresh, List.nil_append, List.mem_append, List.mem_singleton,
                List.mem_replicate] at member
              exact member.imp_right fun connects => .inl connects.2
            · simp only [fresh, List.nil_append, List.mem_append, List.mem_singleton,
                List.mem_replicate, List.mem_map] at member
              rcases member with (inits | connects) | ⟨entry, -, adds⟩
              · exact .inl inits
              · exact .inr (.inl connects.2)
              · exact .inr (.inr ⟨entry, adds.symm⟩)
      | true =>
          simp only [attempted, Bool.not_true, Bool.false_eq_true, if_false] at member
          split at member
          · simp only [fresh, List.not_mem_nil] at member
          · split at member
            · simp only [fresh, List.nil_append, List.mem_replicate] at member
              exact .inr (.inl member.2)
            · simp only [fresh, List.nil_append, List.mem_append, List.mem_replicate,
                List.mem_map] at member
              rcases member with connects | ⟨entry, -, adds⟩
              · exact .inr (.inl connects.2)
              · exact .inr (.inr ⟨entry, adds.symm⟩)

/-- The first bring-up with a clock hands the configuration over. -/
theorem bringUp_inits {t : Tunnel} (first : t.initAttempted = false) (v : Vpn) (s : TunnelStrings)
    {answers : BringUpAnswers} (synced : answers.ntpSynced = true) :
    .init (wireguardConfigOf v s) ∈ (bringUp t v s answers).1.calls := by
  unfold bringUp
  simp only [synced, first, Bool.not_true, Bool.not_false, Bool.false_eq_true, if_false, if_true]
  split
  · simp
  · split <;> simp

theorem hands_eq {t : Tunnel} {v : Vpn} {answers : BringUpAnswers} {config : WireguardConfig}
    (hands : Hands (bringUpCalls t v answers) config) :
    ∃ s, loadConfig v = some s ∧ config = wireguardConfigOf v s := by
  unfold bringUpCalls at hands
  cases loaded : loadConfig v with
  | none => simp [loaded, Hands] at hands
  | some s =>
      refine ⟨s, rfl, ?_⟩
      have calls := bringUp_calls (t := { t with calls := [] }) rfl v s answers
      simp only [loaded] at hands
      rcases hands with first | later
      · simpa using calls _ first
      · simpa using calls _ later

/-! ## The whole way -/

theorem stored_commit_done (r : Response) (epochS : UInt32) (prior : Vpn) :
    Stored r (commit r epochS (List.replicate 8 .done) prior) ∧
      (commit r epochS (List.replicate 8 .done) prior).getWgPriv = prior.getWgPriv := by
  rw [commit_eq]
  exact ⟨⟨rfl, rfl, rfl, rfl, rfl, rfl, rfl⟩, rfl⟩

theorem loadConfig_eq_some {v : Vpn} {s : TunnelStrings} : loadConfig v = some s ↔
    (v.getWgPriv ≠ [] ∧ v.getWgPeerPub ≠ [] ∧ v.getWgEndpoint ≠ []) ∧
      s = { priv := v.getWgPriv, pub := v.getWgPeerPub, psk := v.getWgPsk
            addr := hostOf v.getWgAddr, endpoint := v.getWgEndpoint
            netmask := netmaskOf v.getWgAddr } := by
  unfold loadConfig
  simp only [List.length_eq_zero_iff]
  by_cases missing : v.getWgPriv = [] ∨ v.getWgPeerPub = [] ∨ v.getWgEndpoint = []
  · rw [if_pos missing]
    refine iff_of_false (fun none => by cases none) fun all => ?_
    exact missing.elim all.1.1 (Or.rec all.1.2.1 all.1.2.2)
  · rw [if_neg missing]
    simp only [not_or] at missing
    rw [Option.some.injEq, and_iff_right missing, eq_comm]

/-- The configuration of a store that holds a response. -/
theorem wireguardConfigOf_stored {r : Response} {v : Vpn} {s : TunnelStrings} (stored : Stored r v)
    (loaded : loadConfig v = some s) :
    wireguardConfigOf v s =
      { privateKey := v.getWgPriv
        publicKey := r.peerPub
        presharedKey := if r.psk.length ≠ 0 then some r.psk else none
        address := hostOf r.addrCidr
        netmask := netmaskOf r.addrCidr
        endpoint := r.endpointHost
        port := r.endpointPort
        persistentKeepalive := r.keepaliveS.toUInt16 } := by
  obtain ⟨-, rfl⟩ := loadConfig_eq_some.mp loaded
  simp only [wireguardConfigOf, stored.peerPub, stored.psk, stored.addr, stored.endpoint,
    stored.port, stored.keepalive, UInt16.toUInt16_toUInt32]

theorem Accepted.serverPub_some {raw : WgProvisionRaw} (accepted : Accepted raw) :
    ∃ key, raw.serverPub = some key ∧ key ≠ [] := by
  have valid := accepted.serverPub
  cases server : raw.serverPub with
  | none => exact absurd (server ▸ valid) (by decide)
  | some key =>
      refine ⟨key, rfl, ?_⟩
      rintro rfl
      exact absurd (server ▸ valid) (by decide)

/-- A psk of a response is not empty, so that a null pointer stands for none. -/
theorem psk_handed {psk : CString} (valid : psk ≠ none → isWgKeyB64 psk = true) :
    (if (if psk ≠ none then psk.getD [] else []).length ≠ 0
      then some (if psk ≠ none then psk.getD [] else []) else none) = psk := by
  cases psk with
  | none => rfl
  | some key =>
      have length := isWgKeyB64_length (valid (Option.some_ne_none key))
      simp [length]

/-- From a store that holds an accepted response, the tunnel gets what the response says
exactly when its keepalive fits 16 bits. -/
theorem Accepted.reaches_iff {raw : WgProvisionRaw} (accepted : Accepted raw) {plan : WgRoutePlan}
    {v : Vpn} {s : TunnelStrings} (stored : Stored (responseOf (validateWgProvision raw) plan) v)
    (loaded : loadConfig v = some s) :
    Reaches raw (wireguardConfigOf v s) ↔
      (raw.keepaliveProvided = true → raw.keepaliveValue ≤ 65535) := by
  obtain ⟨text, ip, bits, address, -, read⟩ := accepted.tunnelAddress
  obtain ⟨host, digits, rfl, plain⟩ := readCidr_split read
  obtain ⟨name, endpoint, -⟩ := accepted.endpointHost
  obtain ⟨key, server, -⟩ := accepted.serverPub_some
  rw [wireguardConfigOf_stored stored loaded, responseOf, validateWgProvision_eq accepted]
  constructor
  · intro reaches provided
    refine (toNat_toUInt16_iff (accepted.keepalive provided)).mp ?_
    have keepalive := reaches.keepalive
    simp only [provided, if_true] at keepalive
    exact keepalive
  · intro small
    exact {
      publicKey := by simp only [server, Option.getD_some]
      presharedKey := by simpa using psk_handed accepted.psk
      endpoint := by simp only [endpoint, Option.getD_some]
      port := (toNat_toUInt16_iff accepted.endpointPort.1).mpr accepted.endpointPort.2
      address := by
        refine ⟨digits, ip, bits, ?_⟩
        simp only [address, Option.getD_some, hostOf_eq plain, netmaskOf_eq read, read, and_self]
      keepalive := by
        by_cases provided : raw.keepaliveProvided = true
        · simp only [provided, if_true]
          exact (toNat_toUInt16_iff (accepted.keepalive provided)).mpr (small provided)
        · simp only [provided, Bool.false_eq_true, if_false]
          rfl }

/-- A store with an accepted response lacks nothing but perhaps the private key. -/
theorem Accepted.loads {raw : WgProvisionRaw} (accepted : Accepted raw) {plan : WgRoutePlan}
    {v : Vpn} (stored : Stored (responseOf (validateWgProvision raw) plan) v)
    (known : v.getWgPriv ≠ []) : ∃ s, loadConfig v = some s := by
  obtain ⟨name, host, named, -⟩ := accepted.endpointHost
  obtain ⟨key, server, long⟩ := accepted.serverPub_some
  have peerPub : v.getWgPeerPub ≠ [] := by
    rwa [stored.peerPub, responseOf, validateWgProvision_eq accepted, server, Option.getD_some]
  have endpoint : v.getWgEndpoint ≠ [] := by
    rwa [stored.endpoint, responseOf, validateWgProvision_eq accepted, host, Option.getD_some]
  exact ⟨_, loadConfig_eq_some.mpr ⟨⟨known, peerPub, endpoint⟩, rfl⟩⟩

/-- After any accepted response was stored, the tunnel gets what it says exactly when its
keepalive is at most 65535; and it gets a configuration at the first bring-up with a
clock and a private key. -/
theorem bringUp_reaches_iff (raw : WgProvisionRaw) (sta : Station)
    (accepted : (validateWgProvision raw).ok = true) (epochS : UInt32) (prior : Vpn) :
    ∃ plan, planResponse (validateWgProvision raw) sta = some plan ∧
      let store := commit (responseOf (validateWgProvision raw) plan) epochS
        (List.replicate 8 .done) prior
      (∀ t answers config, Hands (bringUpCalls t store answers) config →
        (Reaches raw config ↔ (raw.keepaliveProvided = true → raw.keepaliveValue ≤ 65535))) ∧
      ∀ t answers, t.initAttempted = false → answers.ntpSynced = true → prior.getWgPriv ≠ [] →
        ∃ config, .init config ∈ bringUpCalls t store answers := by
  have valid := validateWgProvision_ok_iff.mp accepted
  obtain ⟨_, _, _, _, _, planned⟩ := valid.planned sta
  refine ⟨_, planned, ?_⟩
  generalize (WgRoutePlan.mk true [] _) = plan
  have made := stored_commit_done (responseOf (validateWgProvision raw) plan) epochS prior
  generalize commit (responseOf (validateWgProvision raw) plan) epochS (List.replicate 8 .done)
    prior = store at made
  obtain ⟨stored, priv⟩ := made
  refine ⟨fun t answers config hands => ?_, fun t answers first synced known => ?_⟩
  · obtain ⟨strings, loaded, rfl⟩ := hands_eq hands
    exact valid.reaches_iff stored loaded
  · obtain ⟨strings, loaded⟩ := valid.loads stored (priv ▸ known)
    refine ⟨wireguardConfigOf store strings, ?_⟩
    have fresh : ({ t with calls := [] } : Tunnel).initAttempted = false := first
    rw [bringUpCalls, loaded]
    exact bringUp_inits fresh store _ synced

/-- A response with a keepalive of one more than 16 bits hold. -/
def longKeepalive : WgProvisionRaw :=
  { sampleResponse with keepaliveProvided := true, keepaliveValue := 65536 }

theorem longKeepalive_ok : (validateWgProvision longKeepalive).ok = true := by decide +kernel

theorem bringUp_reaches_iff_long :
    ∃ plan, planResponse (validateWgProvision longKeepalive) ⟨0xC0A80105, 24, 0⟩ = some plan ∧
      let store := commit (responseOf (validateWgProvision longKeepalive) plan) 1790000000
        (List.replicate 8 .done) {}
      (∀ t answers config, Hands (bringUpCalls t store answers) config →
        (Reaches longKeepalive config ↔
          (longKeepalive.keepaliveProvided = true → longKeepalive.keepaliveValue ≤ 65535))) ∧
      ∀ t answers, t.initAttempted = false → answers.ntpSynced = true → ({} : Vpn).getWgPriv ≠ [] →
        ∃ config, .init config ∈ bringUpCalls t store answers :=
  bringUp_reaches_iff longKeepalive ⟨0xC0A80105, 24, 0⟩ longKeepalive_ok 1790000000 {}

theorem bringUp_loses_keepalive :
    let prior : Vpn := { wgPriv := some (text "YAnoQAfzH7T5nNzBeRPrUYCu2qL7pqXr9kX6iNfwEUM=") }
    (validateWgProvision longKeepalive).ok = true ∧ ∃ plan config,
      planResponse (validateWgProvision longKeepalive) ⟨0xC0A80105, 24, 0⟩ = some plan ∧
      Hands (bringUpCalls {} (commit (responseOf (validateWgProvision longKeepalive) plan) 1790000000
        (List.replicate 8 .done) prior) ⟨true, 0, fun _ => 0⟩) config ∧
      config.persistentKeepalive = 0 ∧ ¬ Reaches longKeepalive config := by
  intro prior
  let config : WireguardConfig :=
    { privateKey := text "YAnoQAfzH7T5nNzBeRPrUYCu2qL7pqXr9kX6iNfwEUM="
      publicKey := text "3p7bfXt9wbTTW2HC7OQ1Nz+DQ8hbeGdNrfx+FG+IK08="
      presharedKey := none, address := text "10.0.0.2", netmask := text "0.0.0.0"
      endpoint := text "vpn.example.net", port := 51820, persistentKeepalive := 0 }
  refine ⟨longKeepalive_ok, { ok := true, allowedCidr := [text "0.0.0.0/0"] }, config,
    by decide +kernel, .inl ?_, rfl, fun reaches => ?_⟩
  · decide +kernel
  · exact absurd reaches.keepalive (by decide)

end FryFirmware.Wireguard
