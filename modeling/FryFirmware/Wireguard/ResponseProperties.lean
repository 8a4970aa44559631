import FryFirmware.Wireguard.Client
import FryFirmware.Wireguard.RouteLaws
import Mathlib.Data.List.Basic
import Mathlib.Tactic.Common

/-!
# Accepted responses

What `validateWgProvision` accepts and what it makes of it, and which responses get a
route wider than /8.
-/

set_option autoImplicit false

namespace FryFirmware.Wireguard

open Lib Config
open Relay (prefixToMask)

/-! ## Validation -/

/-- A text that reads as a network and fits a buffer of 20 bytes. -/
def IsCidrField (field : CString) : Prop :=
  ∃ s ip bits, field = some s ∧ s.length < 20 ∧ readCidr s = some (ip, bits)

theorem isCidrField_iff {field : CString} : isCidrField field = true ↔ IsCidrField field := by
  rw [isCidrField, IsCidrField, parseIpv4Cidr]
  cases field with
  | none => simp
  | some s =>
      rw [Option.bind_some]
      cases read : readCidr s with
      | none => simp [read]
      | some route =>
          obtain ⟨ip, bits⟩ := route
          simp [read, fitsBuffer]

/-- What a response has to be like. -/
structure Accepted (raw : WgProvisionRaw) : Prop where
  serverPub : isWgKeyB64 raw.serverPub = true
  endpointHost : ∃ host, raw.endpointHost = some host ∧ host ≠ [] ∧ host.length < 64
  endpointPort : 0 < raw.endpointPort ∧ raw.endpointPort ≤ 65535
  tunnelAddress : IsCidrField raw.tunnelAddress
  allowedIps_some : raw.allowedIps ≠ []
  allowedIps_few : raw.allowedIps.length ≤ kWgMaxAllowedIps
  allowedIps : ∀ entry ∈ raw.allowedIps, IsCidrField entry
  psk : raw.psk ≠ none → isWgKeyB64 raw.psk = true
  keepalive : raw.keepaliveProvided = true → 0 < raw.keepaliveValue

theorem ite_setReject_ok {p : Prop} [Decidable p] {reason : String} {cfg : WgProvisionConfig} :
    (if p then setReject reason else cfg).ok = true ↔ ¬ p ∧ cfg.ok = true := by
  by_cases rejected : p
  · rw [if_pos rejected]
    exact iff_of_false Bool.false_ne_true fun accepted => accepted.1 rejected
  · rw [if_neg rejected]
    exact (and_iff_right rejected).symm

theorem endpointHost_iff {host : CString} :
    ¬ ((isEmpty host || !fitsBuffer host 64) = true) ↔
      ∃ name, host = some name ∧ name ≠ [] ∧ name.length < 64 := by
  cases host with
  | none => simp [isEmpty, fitsBuffer]
  | some name => simp [isEmpty, fitsBuffer]

theorem isWgKeyB64_nonempty : isWgKeyB64 (some []) = false := by decide

theorem psk_iff {psk : CString} :
    ¬ ((psk ≠ none && (isEmpty psk || !isWgKeyB64 psk)) = true) ↔
      (psk ≠ none → isWgKeyB64 psk = true) := by
  cases psk with
  | none => simp
  | some key =>
      by_cases empty : key = []
      · simp [empty, isEmpty, isWgKeyB64_nonempty]
      · simp [empty, isEmpty]

theorem validateWgProvision_ok_iff {raw : WgProvisionRaw} :
    (validateWgProvision raw).ok = true ↔ Accepted raw := by
  rw [validateWgProvision]
  simp only [ite_setReject_ok, and_true, endpointHost_iff, psk_iff]
  constructor
  · rintro ⟨key, host, port, address, some, few, entries, psk, keepalive⟩
    exact {
      serverPub := by simpa using key
      endpointHost := host
      endpointPort := by simpa using port
      tunnelAddress := isCidrField_iff.mp (by simpa using address)
      allowedIps_some := fun empty => some (by rw [empty]; rfl)
      allowedIps_few := Nat.not_lt.mp few
      allowedIps := by simpa [isCidrField_iff] using entries
      psk := psk
      keepalive := by simpa using keepalive }
  · intro accepted
    exact ⟨by simp [accepted.serverPub], accepted.endpointHost, by simpa using accepted.endpointPort,
      by simp [isCidrField_iff.mpr accepted.tunnelAddress],
      by simpa using accepted.allowedIps_some, Nat.not_lt.mpr accepted.allowedIps_few,
      by simpa [isCidrField_iff] using accepted.allowedIps, accepted.psk,
      by simpa using accepted.keepalive⟩

/-! ## The configuration -/

theorem strncpy_fits {size : Nat} {s : Text} (fits : s.length < size) : strncpy size s = s :=
  List.take_of_length_le (by omega)

theorem isWgKeyB64_length {s : Text} (key : isWgKeyB64 (some s) = true) : s.length = 44 := by
  obtain ⟨front, p, q, r, v, rfl, count, -⟩ := isWgKeyB64_iff_shape.mp key
  rw [List.length_append, count]
  rfl

theorem strncpy_key {key : CString} (valid : isWgKeyB64 key = true) :
    strncpy 45 (key.getD []) = key.getD [] := by
  cases key with
  | none => rfl
  | some s => exact strncpy_fits (by rw [Option.getD_some, isWgKeyB64_length valid]; decide)

theorem IsCidrField.copied {field : CString} (valid : IsCidrField field) :
    field = some (strncpy 20 (field.getD [])) := by
  obtain ⟨s, ip, bits, rfl, short, -⟩ := valid
  rw [Option.getD_some, strncpy_fits short]

/-- No field of an accepted response is cut. -/
theorem validateWgProvision_eq {raw : WgProvisionRaw} (accepted : Accepted raw) :
    validateWgProvision raw =
      { ok := true
        serverPub := raw.serverPub.getD []
        hasPsk := raw.psk ≠ none
        psk := raw.psk.getD []
        endpointHost := raw.endpointHost.getD []
        endpointPort := raw.endpointPort.toUInt32.toUInt16
        addressCidr := raw.tunnelAddress.getD []
        allowedIps := raw.allowedIps.map (·.getD [])
        keepaliveS := if raw.keepaliveProvided then raw.keepaliveValue.toUInt32 else 25 } := by
  have ok := validateWgProvision_ok_iff.mpr accepted
  have host : strncpy 64 (raw.endpointHost.getD []) = raw.endpointHost.getD [] := by
    obtain ⟨name, known, -, short⟩ := accepted.endpointHost
    rw [known]
    exact strncpy_fits short
  have psk : (if raw.psk ≠ none then strncpy 45 (raw.psk.getD []) else []) = raw.psk.getD [] := by
    by_cases given : raw.psk = none
    · rw [given, if_neg (not_not_intro rfl)]
      rfl
    · rw [if_pos given, strncpy_key (accepted.psk given)]
  have address : strncpy 20 (raw.tunnelAddress.getD []) = raw.tunnelAddress.getD [] := by
    have copied := congrArg (·.getD []) accepted.tunnelAddress.copied
    exact copied.symm
  have entries : (raw.allowedIps.map fun entry => strncpy 20 (entry.getD [])) =
      raw.allowedIps.map (·.getD []) := by
    refine List.map_congr_left fun entry member => ?_
    have copied := congrArg (·.getD []) (accepted.allowedIps entry member).copied
    exact copied.symm
  rw [validateWgProvision] at ok
  simp only [ite_setReject_ok, and_true] at ok
  obtain ⟨r1, r2, r3, r4, r5, r6, r7, r8, r9⟩ := ok
  rw [validateWgProvision, if_neg r1, if_neg r2, if_neg r3, if_neg r4, if_neg r5, if_neg r6,
    if_neg r7, if_neg r8, if_neg r9, strncpy_key accepted.serverPub, host, psk, address, entries]

/-- The texts that are planned with are those of the response. -/
theorem planResponse_eq {raw : WgProvisionRaw} (accepted : Accepted raw) (sta : Station) :
    planResponse (validateWgProvision raw) sta =
      planWgRoutes raw.tunnelAddress raw.allowedIps sta := by
  have address : some (raw.tunnelAddress.getD []) = raw.tunnelAddress := by
    obtain ⟨s, _, _, known, -⟩ := accepted.tunnelAddress
    rw [known, Option.getD_some]
  have entries : (raw.allowedIps.map (·.getD [])).map some = raw.allowedIps := by
    rw [List.map_map]
    refine (List.map_congr_left fun entry member => ?_).trans (List.map_id _)
    obtain ⟨s, _, _, rfl, -⟩ := accepted.allowedIps entry member
    rfl
  rw [planResponse, validateWgProvision_eq accepted]
  simp only [address, entries]

theorem Accepted.planned {raw : WgProvisionRaw} (accepted : Accepted raw) (sta : Station) :
    ∃ s ip bits, raw.tunnelAddress = some s ∧ readCidr s = some (ip, bits) ∧
      planResponse (validateWgProvision raw) sta =
        some { ok := true
               allowedCidr := (if takeRoutes sta.excluded (candidates raw.allowedIps) = []
                 then [networkAt ip bits]
                 else takeRoutes sta.excluded (candidates raw.allowedIps)).map networkText } := by
  obtain ⟨s, ip, bits, address, -, read⟩ := accepted.tunnelAddress
  have own : raw.tunnelAddress.bind readCidr = some (ip, bits) := by
    rw [address, Option.bind_some, read]
  exact ⟨s, ip, bits, address, read,
    (planResponse_eq accepted sta).trans (planWgRoutes_eq own raw.allowedIps sta)⟩

/-! ## The station -/

/-- A mask of so many leading ones, as the Wi-Fi library hands it out, is read as their
number. -/
theorem stationOf_bits (localIP gatewayIP : UInt32) {bits : Nat} (small : bits ≤ 32) :
    (stationOf localIP gatewayIP (arduinoIpToHostOrder (prefixToMask bits))).bits = bits := by
  have order : arduinoIpToHostOrder (arduinoIpToHostOrder (prefixToMask bits)) =
      prefixToMask bits := by
    interval_cases bits <;> rfl
  rw [stationOf, order, maskToPrefix_prefixToMask small]

/-! ## Routes wider than /8 -/

/-- The response has a candidate with an address that the board may send to the tunnel. -/
def HasRoute (raw : WgProvisionRaw) (sta : Station) : Prop :=
  ∃ c ∈ candidates raw.allowedIps, ∃ a ∈ c, ¬ sta.Holds a

theorem takeRoutes_eq_nil_iff (sta : Station) (cands : List Network) :
    takeRoutes sta.excluded cands = [] ↔ ∀ c ∈ cands, ∀ a ∈ c, sta.Holds a := by
  obtain ⟨inside, whole⟩ := routes_remainders sta.excluded cands
  constructor
  · intro empty c member
    cases left : c.avoid sta.excluded with
    | none => exact avoid_excluded_none_iff.mp left
    | some b =>
        have kept : b ∈ takeRoutes sta.excluded cands :=
          whole (by rw [empty]; decide) (List.mem_filterMap.mpr ⟨c, member, left⟩)
        rw [empty] at kept
        cases kept
  · intro all
    have none : remainders sta.excluded cands = [] :=
      List.filterMap_eq_nil_iff.mpr fun c member => avoid_excluded_none_iff.mpr (all c member)
    rw [none] at inside
    exact List.subset_nil.mp inside

theorem takeRoutes_wide (sta : Station) (allowedIps : List CString) :
    ∀ b ∈ takeRoutes sta.excluded (candidates allowedIps), 8 ≤ b.length := by
  obtain ⟨planned, routes, plan⟩ := takeRoutes_planned sta (candidates_wide allowedIps)
  rw [← routes]
  intro b member
  obtain ⟨p, source, rfl⟩ := List.mem_map.mp member
  obtain ⟨c, -, wide, longer, -⟩ := plan.source p source
  exact Nat.le_trans wide longer

/-- Every route of the plan for an accepted response has a prefix of at least 8 exactly
when the tunnel's own network has, or some candidate is left. -/
theorem planResponse_wide_iff (raw : WgProvisionRaw) (sta : Station)
    (accepted : (validateWgProvision raw).ok = true) :
    ∃ plan, planResponse (validateWgProvision raw) sta = some plan ∧ plan.ok = true ∧
      ((∀ route ∈ plan.allowedCidr, ∃ ip bits, readCidr route = some (ip, bits) ∧ 8 ≤ bits) ↔
        (∃ ip bits, raw.tunnelAddress.bind readCidr = some (ip, bits) ∧ 8 ≤ bits) ∨
          HasRoute raw sta) := by
  have valid := validateWgProvision_ok_iff.mp accepted
  obtain ⟨s, ip, bits, address, read, planned⟩ := valid.planned sta
  have own : raw.tunnelAddress.bind readCidr = some (ip, bits) := by
    rw [address, Option.bind_some, read]
  have length : (networkAt ip bits).length = bits := Nat.min_eq_left (readCidr_bits_le own)
  refine ⟨_, planned, rfl, ?_⟩
  have some_left : HasRoute raw sta ↔ takeRoutes sta.excluded (candidates raw.allowedIps) ≠ [] := by
    rw [Ne, takeRoutes_eq_nil_iff, HasRoute]
    simp only [not_forall, exists_prop]
  have fallback : (∃ ip bits, raw.tunnelAddress.bind readCidr = some (ip, bits) ∧ 8 ≤ bits) ↔
      8 ≤ bits := by
    rw [own]
    constructor
    · rintro ⟨_, _, same, wide⟩
      cases same
      exact wide
    · exact fun wide => ⟨ip, bits, rfl, wide⟩
  have wide_iff (routes : List Network) :
      (∀ route ∈ routes.map networkText, ∃ ip bits, readCidr route = some (ip, bits) ∧ 8 ≤ bits) ↔
        ∀ b ∈ routes, 8 ≤ b.length := by
    rw [List.forall_mem_map]
    refine forall₂_congr fun b _ => ?_
    rw [readCidr_networkText]
    constructor
    · rintro ⟨_, _, same, wide⟩
      cases same
      exact wide
    · exact fun wide => ⟨_, _, rfl, wide⟩
  rw [wide_iff, some_left, fallback]
  by_cases empty : takeRoutes sta.excluded (candidates raw.allowedIps) = []
  · rw [if_pos empty, List.forall_mem_singleton, length]
    exact ⟨.inl, fun either => either.resolve_right (not_not_intro empty)⟩
  · rw [if_neg empty]
    exact ⟨fun _ => .inr empty, fun _ => takeRoutes_wide sta raw.allowedIps⟩

def sampleResponse : WgProvisionRaw where
  serverPub := some (text "3p7bfXt9wbTTW2HC7OQ1Nz+DQ8hbeGdNrfx+FG+IK08=")
  endpointHost := some (text "vpn.example.net")
  endpointPort := 51820
  tunnelAddress := some (text "10.0.0.2/0")
  allowedIps := [some (text "0.0.0.0/0")]

theorem sampleResponse_ok : (validateWgProvision sampleResponse).ok = true := by decide +kernel

theorem planResponse_wide_iff_sample :
    ∃ plan, planResponse (validateWgProvision sampleResponse) ⟨0xC0A80105, 24, 0xC0A80101⟩ = some plan ∧
      plan.ok = true ∧
      ((∀ route ∈ plan.allowedCidr, ∃ ip bits, readCidr route = some (ip, bits) ∧ 8 ≤ bits) ↔
        (∃ ip bits, sampleResponse.tunnelAddress.bind readCidr = some (ip, bits) ∧ 8 ≤ bits) ∨
          HasRoute sampleResponse ⟨0xC0A80105, 24, 0xC0A80101⟩) :=
  planResponse_wide_iff sampleResponse ⟨0xC0A80105, 24, 0xC0A80101⟩ sampleResponse_ok

/-- A tunnel address with prefix 0 and no candidate but the default route. -/
theorem planResponse_captures_uplink :
    (validateWgProvision sampleResponse).ok = true ∧
      ∃ plan, planResponse (validateWgProvision sampleResponse) ⟨0xC0A80105, 24, 0xC0A80101⟩ =
          some plan ∧
        plan.allowedCidr = [text "0.0.0.0/0"] ∧
        ¬ ∀ route ∈ plan.allowedCidr, ∃ ip bits, readCidr route = some (ip, bits) ∧ 8 ≤ bits := by
  have planned : ((planResponse (validateWgProvision sampleResponse)
      ⟨0xC0A80105, 24, 0xC0A80101⟩).map (·.allowedCidr)) = some [text "0.0.0.0/0"] := by
    decide +kernel
  obtain ⟨plan, found, routes⟩ := Option.map_eq_some_iff.mp planned
  refine ⟨sampleResponse_ok, plan, found, routes, fun wide => ?_⟩
  rw [routes] at wide
  obtain ⟨ip, bits, read, large⟩ := wide _ (List.mem_singleton_self _)
  rw [show readCidr (text "0.0.0.0/0") = some (0, 0) by decide +kernel] at read
  cases read
  omega

end FryFirmware.Wireguard
