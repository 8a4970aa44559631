import FryFirmware.Wireguard.ResponseProperties
import Mathlib.Data.List.Basic
import Mathlib.Tactic.Common

/-!
# The address the relay takes for the server

The guard of `relayTaskFn` in `src/esp32/vpn_wireguard.cpp`, and whether the server
address that it finds in a plan is one of the response.
-/

set_option autoImplicit false

namespace FryFirmware.Wireguard

open Lib Config
open Relay (GuardConfig peerAdmitted ipInSubnet)

/-- The guard of `relayTaskFn`; `none` where the address does not parse. -/
def relayGuard (wgAddr wgAllowed : Text) : Option GuardConfig :=
  match parseIpv4Cidr (some wgAddr) (0, 32) with
  | (false, _) => none
  | (true, deviceIp, bits) =>
      some { deviceIp, prefixBits := bits
             serverIp := pickServerTunnelAddress (some wgAllowed) deviceIp }

variable {excluded : List Nat} {cands : List Network} {c left : Network}

/-! ## The first route with a property -/

/-- The first route with a property is what is left of a candidate with a free place,
where none of the earlier candidates left a block with it. -/
theorem find_takeRoutes_iff (p : Network → Bool) :
    (takeRoutes excluded cands).find? p = some left ↔ p left = true ∧
      ∃ front c back, cands = front ++ c :: back ∧ places excluded front < 3 ∧
        c.avoid excluded = some left ∧ ∀ b ∈ remainders excluded front, p b = false := by
  constructor
  · intro found
    refine ⟨List.find?_some found, ?_⟩
    induction cands using List.reverseRecOn with
    | nil => cases found
    | append_singleton cands c ih =>
        have later (here : (takeRoutes excluded cands).find? p = some left) :
            ∃ front d back, cands ++ [c] = front ++ d :: back ∧ places excluded front < 3 ∧
              d.avoid excluded = some left ∧ ∀ b ∈ remainders excluded front, p b = false := by
          obtain ⟨front, d, back, rfl, rest⟩ := ih here
          exact ⟨front, d, back ++ [c], by simp, rest⟩
        rw [takeRoutes_append_singleton] at found
        rcases takeRoute_cases excluded (takeRoutes excluded cands) c with
          ⟨same, -⟩ | ⟨kept, avoided, room, -, more⟩
        · exact later (same ▸ found)
        · rw [more, List.find?_append] at found
          cases here : (takeRoutes excluded cands).find? p with
          | some first =>
              rw [here, Option.some_or] at found
              exact later (here.trans found)
          | none =>
              rw [here, Option.none_or] at found
              obtain rfl := List.mem_singleton.mp (List.mem_of_find?_eq_some found)
              have length := takeRoutes_length excluded cands
              refine ⟨cands, c, [], rfl, by omega, avoided, fun b member => ?_⟩
              have kept := (routes_remainders excluded cands).2 room member
              simpa using List.find?_eq_none.mp here b kept
  · rintro ⟨good, front, c, back, rfl, room, avoided, earlier⟩
    have length := takeRoutes_length excluded front
    have inside := (routes_remainders excluded front).1
    have fresh : c ∉ takeRoutes excluded front := by
      intro present
      have clear := routes_clear excluded front c present
      rw [Block.avoid_outside fun x member inside => clear x inside member] at avoided
      rw [← Option.some.inj avoided] at good
      exact Bool.false_ne_true ((earlier c (inside present)).symm.trans good)
    have taken : takeRoutes excluded (front ++ [c]) = takeRoutes excluded front ++ [left] := by
      rw [takeRoutes_append_singleton, takeRoute, kWgMaxPlannedRoutes, if_pos (by omega),
        if_neg fresh, avoided]
    obtain ⟨rest, grown⟩ := takeRoutes_grows excluded (front ++ [c]) back
    have none : (takeRoutes excluded front).find? p = none :=
      List.find?_eq_none.mpr fun b member => by simp [earlier b (inside member)]
    rw [List.append_assoc, List.singleton_append] at grown
    rw [← grown, taken, List.find?_append, List.find?_append, none, List.find?_singleton, if_pos good]
    rfl

/-! ## The server address -/

/-- The response lists the address as a /32. -/
def Listed (raw : WgProvisionRaw) (a : UInt32) : Prop :=
  ∃ entry ∈ raw.allowedIps, entry.bind readCidr = some (a, 32)

/-- The first single address that is left of a wider candidate, other than the device's
own, is listed: unless it is 0, or another one was left before, or no place is free. -/
def NamesServer (raw : WgProvisionRaw) (sta : Station) (deviceIp : UInt32) : Prop :=
  ∀ front c back, candidates raw.allowedIps = front ++ c :: back → c.length < 32 →
    ∀ left, c.avoid sta.excluded = some left → left.length = 32 → left.net ≠ 0 →
      left.net ≠ deviceIp.toNat → places sta.excluded front < 3 →
      (∀ b ∈ remainders sta.excluded front, b.length = 32 → b.net = deviceIp.toNat) →
        Listed raw (UInt32.ofNat left.net)

/-- A single address that is not the device's own. -/
def isServer (deviceIp : UInt32) (b : Network) : Bool := b.length = 32 ∧ b.net ≠ deviceIp.toNat

/-- A planned route as the readers of the list see it. -/
def routeOf (b : Network) : Route := ⟨(UInt32.ofNat b.net, b.length), b.length_le⟩

theorem ofNat_net (b : Network) (ip : UInt32) : UInt32.ofNat b.net = ip ↔ b.net = ip.toNat := by
  rw [← UInt32.toNat_inj, UInt32.toNat_ofNat_of_lt' b.net_lt]

theorem pickServerTunnelAddress_eq (routes : List Network) (deviceIp : UInt32) :
    pickServerTunnelAddress (some (allowedCsv (routes.map networkText))) deviceIp =
      ((routes.find? (isServer deviceIp)).map fun b => UInt32.ofNat b.net).getD 0 := by
  have texts : routes.map networkText = (routes.map routeOf).map Route.text := by
    rw [List.map_map]
    exact List.map_congr_left fun b _ => (Route.text_eq (routeOf b)).symm
  have entries : pickEntries (allowedCsv (routes.map networkText)) =
      routes.map fun b => (routeOf b).1 := by
    rw [texts, (readers_agree (routes.map routeOf)).2, List.map_map]
    rfl
  have test : (fun route : UInt32 × Nat => decide (route.2 = 32 ∧ route.1 ≠ deviceIp)) ∘
      (fun b => (routeOf b).1) = isServer deviceIp := by
    funext b
    simp only [Function.comp_apply, routeOf, isServer, ne_eq, ofNat_net]
  rw [pickServerTunnelAddress]
  simp only [entries, List.find?_map, test]
  cases routes.find? (isServer deviceIp) <;> rfl

/-- A single address that comes from a candidate as it stands is listed. -/
theorem listed_of_full {raw : WgProvisionRaw} (member : c ∈ candidates raw.allowedIps)
    (full : c.length = 32) : Listed raw (UInt32.ofNat c.net) := by
  obtain ⟨entry, listed, found⟩ := List.mem_filterMap.mp member
  refine ⟨entry, listed, ?_⟩
  unfold candidateOf at found
  cases read : entry.bind readCidr with
  | none => simp [read] at found
  | some route =>
      obtain ⟨ip, bits⟩ := route
      have small := readCidr_bits_le read
      simp only [read] at found
      split at found
      · obtain rfl := Option.some.inj found
        have length : (networkAt ip bits).length = bits := Nat.min_eq_left small
        have inside : ip.toNat ∈ networkAt ip bits := Block.mem_around _ ip.toNat_lt
        rw [(ofNat_net _ ip).mpr ((Block.mem_full full).mp inside).symm, ← full, length]
      · cases found

theorem net_of_avoid_full (full : c.length = 32) (avoided : c.avoid excluded = some left) :
    left = c := by
  obtain ⟨members, longer⟩ := Block.avoid_eq_some avoided
  have bound := left.length_le
  have same : left.net = c.net := (Block.mem_full full).mp (members _ left.net_mem).1
  exact Block.eq_of_net (by omega) same

/-- The first single address among the routes is listed exactly when this holds. -/
theorem find_server_listed_iff (raw : WgProvisionRaw) (sta : Station) (deviceIp : UInt32) :
    (∀ left, (takeRoutes sta.excluded (candidates raw.allowedIps)).find? (isServer deviceIp) =
        some left → left.net ≠ 0 → Listed raw (UInt32.ofNat left.net)) ↔
      NamesServer raw sta deviceIp := by
  have not_server (b : Network) :
      isServer deviceIp b = false ↔ (b.length = 32 → b.net = deviceIp.toNat) := by
    simp only [isServer, decide_eq_false_iff_not, not_and, not_not]
  simp only [find_takeRoutes_iff, not_server]
  constructor
  · intro listed front c back split _ left avoided single some other room earlier
    exact listed left ⟨decide_eq_true ⟨single, other⟩, front, c, back, split, room, avoided, earlier⟩
      some
  · rintro names left ⟨good, front, c, back, split, room, avoided, earlier⟩ some
    obtain ⟨single, other⟩ := of_decide_eq_true good
    by_cases wide : c.length < 32
    · exact names front c back split wide left avoided single some other room earlier
    · have full : c.length = 32 := Nat.le_antisymm c.length_le (by omega)
      rw [net_of_avoid_full full avoided]
      exact listed_of_full (by rw [split]; simp) full

/-- The fallback has no server address. -/
theorem isServer_networkAt (ip : UInt32) (bits : Nat) : isServer ip (networkAt ip bits) = false := by
  rw [isServer, decide_eq_false_iff_not]
  rintro ⟨full, other⟩
  exact other ((Block.mem_full full).mp (Block.mem_around _ ip.toNat_lt)).symm

theorem find_plan_server (routes : List Network) (ip : UInt32) (bits : Nat) :
    (if routes = [] then [networkAt ip bits] else routes).find? (isServer ip) =
      routes.find? (isServer ip) := by
  by_cases empty : routes = []
  · rw [if_pos empty, empty, List.find?_singleton, isServer_networkAt]
    rfl
  · rw [if_neg empty]

theorem relayGuard_eq {s : Text} {ip : UInt32} {bits : Nat} (read : readCidr s = some (ip, bits))
    (csv : Text) : relayGuard s csv = some { deviceIp := ip, prefixBits := bits
                                             serverIp := pickServerTunnelAddress (some csv) ip } := by
  rw [relayGuard, parseIpv4Cidr, Option.bind_some, read]

/-- From outside its own subnet a guard admits the server address only. -/
theorem peerAdmitted_outside {src deviceIp serverIp : UInt32} {prefixBits : Int}
    (outside : ipInSubnet src deviceIp prefixBits = false) :
    peerAdmitted src { deviceIp, prefixBits, serverIp } = true ↔ serverIp ≠ 0 ∧ src = serverIp := by
  simp [peerAdmitted, outside]

/-- The relay admits from outside its own subnet only what the response lists as a /32,
exactly when no other single address comes out of the narrowing first. -/
theorem relayGuard_listed_iff (raw : WgProvisionRaw) (sta : Station)
    (accepted : (validateWgProvision raw).ok = true) :
    ∃ plan guard, planResponse (validateWgProvision raw) sta = some plan ∧
      relayGuard (validateWgProvision raw).addressCidr (allowedCsv plan.allowedCidr) = some guard ∧
      guard.serverIp =
        pickServerTunnelAddress (some (allowedCsv plan.allowedCidr)) guard.deviceIp ∧
      (((guard.serverIp ≠ 0 → Listed raw guard.serverIp) ∧
        ∀ src, peerAdmitted src guard = true →
          ipInSubnet src guard.deviceIp guard.prefixBits = false → Listed raw src) ↔
        NamesServer raw sta guard.deviceIp) := by
  have valid := validateWgProvision_ok_iff.mp accepted
  obtain ⟨s, ip, bits, address, read, planned⟩ := valid.planned sta
  have stored : (validateWgProvision raw).addressCidr = s := by
    rw [validateWgProvision_eq valid, address, Option.getD_some]
  rw [stored]
  refine ⟨_, _, planned, relayGuard_eq read _, rfl, ?_⟩
  rw [← find_server_listed_iff]
  simp only [pickServerTunnelAddress_eq, find_plan_server]
  cases server : (takeRoutes sta.excluded (candidates raw.allowedIps)).find? (isServer ip) with
  | none =>
      refine iff_of_true ⟨fun some => absurd rfl some, fun src admitted outside => ?_⟩
        fun left found => by cases found
      exact absurd rfl ((peerAdmitted_outside outside).mp admitted).1
  | some left =>
      have zero : UInt32.ofNat left.net = 0 ↔ left.net = 0 := ofNat_net left 0
      simp only [Option.map_some, Option.getD_some, ne_eq, zero]
      constructor
      · rintro ⟨listed, -⟩ left' same
        cases same
        exact listed
      · intro listed
        have known := listed left rfl
        refine ⟨known, fun src admitted outside => ?_⟩
        obtain ⟨some, same⟩ := (peerAdmitted_outside outside).mp admitted
        rw [same]
        exact known (mt zero.mpr some)

/-- A candidate of two addresses of which one is the board's. -/
def narrowedResponse : WgProvisionRaw :=
  { sampleResponse with
    tunnelAddress := some (text "10.0.0.2/32"), allowedIps := [some (text "192.168.1.4/31")] }

theorem narrowedResponse_ok : (validateWgProvision narrowedResponse).ok = true := by decide +kernel

theorem relayGuard_listed_iff_narrowed :
    ∃ plan guard, planResponse (validateWgProvision narrowedResponse) ⟨0xC0A80105, 24, 0⟩ =
        some plan ∧
      relayGuard (validateWgProvision narrowedResponse).addressCidr (allowedCsv plan.allowedCidr) =
        some guard ∧
      guard.serverIp =
        pickServerTunnelAddress (some (allowedCsv plan.allowedCidr)) guard.deviceIp ∧
      (((guard.serverIp ≠ 0 → Listed narrowedResponse guard.serverIp) ∧
        ∀ src, peerAdmitted src guard = true →
          ipInSubnet src guard.deviceIp guard.prefixBits = false → Listed narrowedResponse src) ↔
        NamesServer narrowedResponse ⟨0xC0A80105, 24, 0⟩ guard.deviceIp) :=
  relayGuard_listed_iff narrowedResponse ⟨0xC0A80105, 24, 0⟩ narrowedResponse_ok

/-- The other address is taken for the server, and admitted. -/
theorem relayGuard_admits_neighbour :
    (validateWgProvision narrowedResponse).ok = true ∧
      ∃ plan guard, planResponse (validateWgProvision narrowedResponse) ⟨0xC0A80105, 24, 0⟩ =
          some plan ∧
        relayGuard (validateWgProvision narrowedResponse).addressCidr (allowedCsv plan.allowedCidr) =
          some guard ∧
        guard.serverIp = 0xC0A80104 ∧ ¬ Listed narrowedResponse guard.serverIp ∧
        peerAdmitted 0xC0A80104 guard = true ∧
        ipInSubnet 0xC0A80104 guard.deviceIp guard.prefixBits = false := by
  have planned : (planResponse (validateWgProvision narrowedResponse) ⟨0xC0A80105, 24, 0⟩).map
      (·.allowedCidr) = some [text "192.168.1.4/32"] := by decide +kernel
  obtain ⟨plan, found, routes⟩ := Option.map_eq_some_iff.mp planned
  have guarded : relayGuard (validateWgProvision narrowedResponse).addressCidr
      (text "192.168.1.4/32") =
        some { deviceIp := 0x0A000002, prefixBits := 32, serverIp := 0xC0A80104 } := by
    decide +kernel
  refine ⟨narrowedResponse_ok, plan, _, found, by rw [routes]; exact guarded, rfl, ?_,
    by decide, by decide⟩
  rintro ⟨entry, member, read⟩
  rw [List.mem_singleton.mp member,
    show (some (text "192.168.1.4/31")).bind readCidr = some (0xC0A80104, 31) by decide +kernel] at read
  cases read

end FryFirmware.Wireguard
