import FryFirmware.Lib.JsonTextProperties
import FryFirmware.Reports.Bodies
import Mathlib.Data.List.GetD
import Mathlib.Tactic.Common

/-!
# JSON bodies are all or nothing

A body is refused with an empty string, or it is a whole JSON object in front of its
NUL. No write goes past a buffer's end.
-/

set_option autoImplicit false

namespace FryFirmware.Reports

open FryFirmware.Config (Text text)
open FryFirmware.Improv (CString stateCode statusLegacyErr statusDetailErr)
open FryFirmware.Lib FryFirmware.Lib.JsonText
open Lib.Json (numberText)

/-! ## Strings -/

/-- Neither null, nor with a byte that JSON escapes. -/
def Safe (s : CString) : Prop := ∃ content, s = some content ∧ Plain content

theorem isJsonSafeToken_iff {s : CString} : isJsonSafeToken s = true ↔ Safe s := by
  cases s with
  | none => simp [isJsonSafeToken, Safe]
  | some s =>
      have each : ∀ c : UInt8, (!(c = 34 || c = 92) && !(c < 0x20)) = true ↔
          c ≠ 34 ∧ c ≠ 92 ∧ 32 ≤ c := by
        intro c
        simp [and_assoc]
      simp only [isJsonSafeToken, List.all_eq_true, each, Safe, Option.some.injEq, exists_eq_left', Plain]

theorem Safe.shown {s : CString} (safe : Safe s) : Plain (shown s) := by
  obtain ⟨content, rfl, plain⟩ := safe
  exact plain

/-! ## Buffers -/

/-- A buffer of `size` bytes holds the text and its NUL. A text of 2^31 bytes is too long for any. -/
def Holds (size : Nat) (body : Text) : Prop := body.length < size ∧ body.length < 2 ^ 31

section Buffers

variable {capacity : Nat} {out : Memory UInt8 capacity} {size : Nat} {whole : Text}

theorem head_store (out : Memory UInt8 capacity) :
    ∀ c ∈ ((out.store 0 [0]).window 0 size).head?, c = 0 := by
  intro c front
  cases capacity with
  | zero => simp [Memory.window, List.length_eq_zero_iff.mp (out.store 0 [0]).size] at front
  | succ capacity =>
      cases size with
      | zero => cases front
      | succ size =>
          simp only [Memory.window, Memory.store, List.take_zero, List.nil_append, Nat.sub_zero,
            List.drop_zero, List.take_succ_cons, List.cons_append, List.head?_cons,
            Option.mem_some_iff] at front
          exact front.symm

/-- Into a large enough buffer the whole text goes, with its NUL. -/
theorem snprintf_whole (out : Memory UInt8 capacity) (inside : size ≤ capacity) (fits : Holds size whole) :
    ∃ after, snprintf out size whole = some (after, (whole.length : Int)) ∧
      after.window 0 (whole.length + 1) = whole ++ [0] := by
  obtain ⟨shorter, int⟩ := fits
  have long : (whole ++ [(0 : UInt8)]).length ≤ capacity := by
    rw [List.length_append, List.length_singleton]
    omega
  have front := out.window_store_front long
  rw [List.length_append, List.length_singleton] at front
  refine ⟨out.store 0 (whole ++ [0]), ?_, front⟩
  rw [snprintf, if_neg (by omega), List.take_of_length_le (by omega),
    out.store?_inside (by omega), if_pos int]
  rfl

/-- Otherwise the result says that the text was cut, or that it has no length. -/
theorem snprintf_cut (out : Memory UInt8 capacity) (inside : size ≤ capacity) (room : 0 < size)
    (long : ¬ Holds size whole) :
    ∃ after n, snprintf out size whole = some (after, n) ∧ (n < 0 ∨ n.toNat ≥ size) := by
  have fits : 0 + (whole.take (size - 1) ++ [(0 : UInt8)]).length ≤ capacity := by
    rw [List.length_append, List.length_take, List.length_singleton]
    omega
  refine ⟨_, _, by rw [snprintf, if_neg (by omega), out.store?_inside fits]; rfl, ?_⟩
  split
  · right
    rw [Int.toNat_natCast]
    exact Nat.le_of_not_lt fun shorter => long ⟨shorter, ‹_›⟩
  · left
    decide

end Buffers

/-- What a builder leaves in a buffer of `size` bytes: an empty string where the body does
not fit, and otherwise the body, which is that value's JSON, in front of its NUL. -/
structure AllOrNothing {capacity : Nat} (out : Option (Memory UInt8 capacity)) (size : Nat) (fits : Prop)
    (body : Text) (tree : Tree) (n : Nat) (after : Option (Memory UInt8 capacity)) : Prop where
  given : after.isSome = out.isSome
  refused : ¬ fits → n = 0 ∧ ∀ memory ∈ after, ∀ c ∈ (memory.window 0 size).head?, c = 0
  written : fits → n = body.length ∧ 0 < n ∧ read body = some tree ∧
    ∃ memory, after = some memory ∧ memory.window 0 (n + 1) = body ++ [0]

section Outcomes

variable {capacity size : Nat} {before out : Memory UInt8 capacity} {fits : Prop} {body : Text} {tree : Tree}

theorem AllOrNothing.null (unfit : ¬ fits) :
    AllOrNothing (none : Option (Memory UInt8 capacity)) size fits body tree 0 none where
  given := rfl
  refused _ := ⟨rfl, nofun⟩
  written holds := absurd holds unfit

theorem AllOrNothing.no_room (unfit : ¬ fits) :
    AllOrNothing (some before) 0 fits body tree 0 (some out) where
  given := rfl
  refused _ := ⟨rfl, fun memory _ c absent => absurd absent (by simp)⟩
  written holds := absurd holds unfit

theorem AllOrNothing.cleared (unfit : ¬ fits) :
    AllOrNothing (some before) size fits body tree 0 (some (out.store 0 [0])) where
  given := rfl
  refused _ := by
    refine ⟨rfl, fun memory same => ?_⟩
    cases same
    exact head_store out
  written holds := absurd holds unfit

theorem AllOrNothing.whole (holds : fits) (filled : 0 < body.length) (json : read body = some tree)
    (front : out.window 0 (body.length + 1) = body ++ [0]) :
    AllOrNothing (some before) size fits body tree body.length (some out) where
  given := rfl
  refused unfit := absurd holds unfit
  written _ := ⟨rfl, filled, json, out, rfl, front⟩

end Outcomes

/-! ## Members -/

/-- A member's name, the text of its value, and the value. -/
abbrev Member := Text × Text × Tree

def stringMember (name content : Text) : Member :=
  (name, 34 :: content ++ [34], .string (symbols content))

def numberMember (name : Text) (number : Int) : Member :=
  (name, numberText number, .number number 0)

def objectText (members : List Member) : Text :=
  123 :: [44].intercalate (members.map fun member => 34 :: member.1 ++ 34 :: 58 :: member.2.1) ++ [125]

def objectTree (members : List Member) : Tree :=
  .object (members.map fun member => (symbols member.1, member.2.2))

def Writable (depth : Nat) (member : Member) : Prop :=
  Plain member.1 ∧ Writes depth member.2.1 member.2.2

section Members

variable {depth : Nat} {name content : Text} {members : List Member}

theorem writable_string (plain : Plain name) (safe : Plain content) :
    Writable (depth + 1) (stringMember name content) := ⟨plain, .string safe⟩

theorem writable_number (plain : Plain name) (number : Int) :
    Writable (depth + 1) (numberMember name number) := ⟨plain, .integer number⟩

theorem writable_object (plain : Plain name) (each : ∀ member ∈ members, Writable depth member) :
    Writable (depth + 1) (name, objectText members, objectTree members) :=
  ⟨plain, .object (fun member inside => (each member inside).1) fun member inside => (each member inside).2⟩

theorem members_lt (members : List Member) : members.length < (objectText members).length := by
  rw [objectText, List.cons_append, List.length_cons, List.length_append, List.length_singleton]
  have each : members.length ≤ ([44].intercalate (members.map fun member =>
      34 :: member.1 ++ 34 :: 58 :: member.2.1)).length := by
    have filled : ∀ written ∈ members.map fun member => 34 :: member.1 ++ 34 :: 58 :: member.2.1, written ≠ [] := by
      intro written inside
      obtain ⟨member, -, rfl⟩ := List.mem_map.mp inside
      exact List.cons_ne_nil _ _
    have counted := length_le_intercalate filled
    rwa [List.length_map] at counted
  omega

/-- An object of members is read back from its text. -/
theorem read_object (each : ∀ member ∈ members, Writable depth member) (deep : depth ≤ members.length) :
    read (objectText members) = some (objectTree members) :=
  read_of_writes (.object (fun member inside => (each member inside).1) fun member inside =>
    (each member inside).2) (Nat.lt_of_le_of_lt deep (members_lt members))

end Members

/-! ## Telemetry -/

def valueMembers (sample : TelemetrySample) : List Member :=
  [numberMember (text "uptime_s") sample.uptimeS.toNat,
    numberMember (text "heap_free") sample.heapFree.toNat,
    numberMember (text "heap_max_block") sample.heapMaxBlock.toNat,
    numberMember (text "stack_high_water") sample.stackHighWater.toNat,
    numberMember (text "rssi") sample.rssi.toInt, stringMember (text "chip") (shown sample.chip),
    stringMember (text "firmware") (shown sample.firmware)]

def telemetryMembers (sample : TelemetrySample) (minerCode installId isoTimestamp : CString) : List Member :=
  [stringMember (text "miner_code") (shown minerCode), stringMember (text "install_id") (shown installId),
    stringMember (text "measurement_type") (text "telemetry"),
    stringMember (text "timestamp") (shown isoTimestamp),
    (text "value", objectText (valueMembers sample), objectTree (valueMembers sample))]

theorem telemetryText_members (sample : TelemetrySample) (minerCode installId isoTimestamp : CString) :
    telemetryText sample minerCode installId isoTimestamp =
      objectText (telemetryMembers sample minerCode installId isoTimestamp) := by
  -- Each literal of the format, cut at the names.
  have start : text "\x7b\"miner_code\":\"" =
      [123, 34] ++ text "miner_code" ++ [34, 58, 34] := by decide
  have install : text "\",\"install_id\":\"" =
      [34, 44, 34] ++ text "install_id" ++ [34, 58, 34] := by decide
  have time : text "\",\"measurement_type\":\"telemetry\",\"timestamp\":\"" =
      [34, 44, 34] ++ text "measurement_type" ++ [34, 58, 34] ++ text "telemetry" ++ [34, 44, 34] ++ text "timestamp" ++ [34, 58, 34] := by decide
  have value : text "\",\"value\":\x7b\"uptime_s\":" =
      [34, 44, 34] ++ text "value" ++ [34, 58, 123, 34] ++ text "uptime_s" ++ [34, 58] := by decide
  have free : text ",\"heap_free\":" =
      [44, 34] ++ text "heap_free" ++ [34, 58] := by decide
  have block : text ",\"heap_max_block\":" =
      [44, 34] ++ text "heap_max_block" ++ [34, 58] := by decide
  have water : text ",\"stack_high_water\":" =
      [44, 34] ++ text "stack_high_water" ++ [34, 58] := by decide
  have rssi : text ",\"rssi\":" =
      [44, 34] ++ text "rssi" ++ [34, 58] := by decide
  have chip : text ",\"chip\":\"" =
      [44, 34] ++ text "chip" ++ [34, 58, 34] := by decide
  have firmware : text "\",\"firmware\":\"" =
      [34, 44, 34] ++ text "firmware" ++ [34, 58, 34] := by decide
  have close : text "\"\x7d\x7d" =
      [34, 125, 125] := by decide
  unfold telemetryText
  simp only [start, install, time, value, free, block, water, rssi, chip, firmware, close, telemetryMembers, objectText, valueMembers, stringMember,
    numberMember, decimal, List.map_cons, List.map_nil, List.intercalate_cons_cons,
    List.intercalate_singleton, List.append_assoc, List.cons_append, List.nil_append]

/-- The five strings that a body needs. -/
def TelemetrySafe (sample : TelemetrySample) (minerCode installId isoTimestamp : CString) : Prop :=
  Safe minerCode ∧ Safe installId ∧ Safe isoTimestamp ∧ Safe sample.chip ∧ Safe sample.firmware

section Telemetry

variable {sample : TelemetrySample} {minerCode installId isoTimestamp : CString}

theorem telemetry_gate : (!isJsonSafeToken minerCode || !isJsonSafeToken installId ||
    !isJsonSafeToken isoTimestamp || !isJsonSafeToken sample.chip ||
    !isJsonSafeToken sample.firmware) = true ↔ ¬ TelemetrySafe sample minerCode installId isoTimestamp := by
  simp only [TelemetrySafe, ← isJsonSafeToken_iff, Bool.or_eq_true, Bool.not_eq_true', ← Bool.not_eq_true]
  tauto

theorem writable_telemetry (safe : TelemetrySafe sample minerCode installId isoTimestamp) :
    ∀ member ∈ telemetryMembers sample minerCode installId isoTimestamp, Writable 2 member := by
  obtain ⟨miner, install, time, chip, firmware⟩ := safe
  have value : ∀ member ∈ valueMembers sample, Writable 1 member := by
    simp only [valueMembers, List.forall_mem_cons]
    exact ⟨writable_number (by decide) _, writable_number (by decide) _, writable_number (by decide) _,
      writable_number (by decide) _, writable_number (by decide) _,
      writable_string (by decide) chip.shown, writable_string (by decide) firmware.shown, nofun⟩
  simp only [telemetryMembers, List.forall_mem_cons]
  refine ⟨writable_string (by decide) miner.shown, writable_string (by decide) install.shown,
    writable_string (by decide) (by decide), writable_string (by decide) time.shown,
    ?_, nofun⟩
  exact writable_object (by decide) value

theorem read_telemetry (safe : TelemetrySafe sample minerCode installId isoTimestamp) :
    read (telemetryText sample minerCode installId isoTimestamp) =
      some (objectTree (telemetryMembers sample minerCode installId isoTimestamp)) := by
  rw [telemetryText_members]
  exact read_object (writable_telemetry safe) (Nat.le_of_ble_eq_true rfl)

theorem buildTelemetryBody_spec {capacity outLen : Nat} (out : Option (Memory UInt8 capacity))
    (inside : outLen ≤ capacity) :
    ∃ n after, buildTelemetryBody sample minerCode installId isoTimestamp out outLen = some (n, after) ∧
      AllOrNothing out outLen (out.isSome ∧ TelemetrySafe sample minerCode installId isoTimestamp ∧
          Holds outLen (telemetryText sample minerCode installId isoTimestamp))
        (telemetryText sample minerCode installId isoTimestamp)
        (objectTree (telemetryMembers sample minerCode installId isoTimestamp)) n after := by
  cases out with
  | none => exact ⟨0, none, rfl, .null fun fits => nomatch fits.1⟩
  | some out =>
      rcases Nat.eq_zero_or_pos outLen with rfl | room
      · exact ⟨0, some out, rfl, .no_room fun fits => absurd fits.2.2.1 (Nat.not_lt_zero _)⟩
      · have clears (out : Memory UInt8 capacity) : out.store? 0 [0] = some (out.store 0 [0]) :=
          out.store?_inside (Nat.le_trans room inside)
        have opened : ¬ outLen = 0 := Nat.ne_of_gt room
        by_cases safe : TelemetrySafe sample minerCode installId isoTimestamp
        · have gate := mt telemetry_gate.mp (not_not.mpr safe)
          by_cases fits : Holds outLen (telemetryText sample minerCode installId isoTimestamp)
          · obtain ⟨after, printed, front⟩ := snprintf_whole (out.store 0 [0]) inside fits
            have short := Nat.not_le.mpr fits.1
            have whole : ¬ ((telemetryText sample minerCode installId isoTimestamp).length : Int) < 0 := by omega
            refine ⟨_, some after, ?_, .whole ⟨rfl, safe, fits⟩ ?_ (read_telemetry safe) front⟩
            · rw [buildTelemetryBody, if_neg opened, clears, Option.bind_some, if_neg gate, printed,
                Option.bind_some]
              simp only [Int.toNat_natCast, whole, false_or, short, if_false]
            · rw [telemetryText_members]
              exact Nat.zero_lt_of_lt (members_lt _)
          · obtain ⟨after, n, printed, cut⟩ := snprintf_cut (out.store 0 [0]) inside room fits
            refine ⟨0, some (after.store 0 [0]), ?_, .cleared fun holds => fits holds.2.2⟩
            rw [buildTelemetryBody, if_neg opened, clears, Option.bind_some, if_neg gate, printed,
              Option.bind_some]
            simp only [if_pos cut, clears, Option.map_some]
        · refine ⟨0, some (out.store 0 [0]), ?_, .cleared fun holds => safe holds.2.1⟩
          rw [buildTelemetryBody, if_neg opened, clears, Option.bind_some, if_pos (telemetry_gate.mpr safe)]

end Telemetry

/-! ## Status -/

def capsMember : Member :=
  (text "caps", 91 :: [44].intercalate ([text "key_write", text "error_reset", text "errs_v2"].map fun cap =>
    34 :: cap ++ [34]) ++ [93], .array [.string (symbols (text "key_write")),
      .string (symbols (text "error_reset")), .string (symbols (text "errs_v2"))])

def statusMembers (s : StatusSnapshot) : List Member :=
  [numberMember (text "v") 1, numberMember (text "proto") 2, capsMember,
    numberMember (text "s") (stateCode s.state), numberMember (text "e") (statusLegacyErr s.toDeviceStatus),
    numberMember (text "d") (statusDetailErr s.toDeviceStatus), numberMember (text "k") (flag s.keySet),
    numberMember (text "kc") (flag s.keyConfirmed), numberMember (text "reg") s.regHttp.toInt,
    numberMember (text "hb") s.hbAgeS.toInt, stringMember (text "fw") (shown s.fw),
    stringMember (text "ota") (shown s.ota)]

theorem statusText_members (s : StatusSnapshot) : statusText s = objectText (statusMembers s) := by
  have start : text "\x7b\"v\":1,\"proto\":2,\"caps\":[\"key_write\",\"error_reset\",\"errs_v2\"],\"s\":" =
      [123, 34] ++ text "v" ++ [34, 58, 49, 44, 34] ++ text "proto" ++ [34, 58, 50, 44, 34] ++
        text "caps" ++ [34, 58, 91, 34] ++ text "key_write" ++ [34, 44, 34] ++ text "error_reset" ++ [34, 44, 34] ++ text "errs_v2" ++ [34, 93, 44, 34] ++ text "s" ++ [34, 58] := by decide
  have legacy : text ",\"e\":" =
      [44, 34] ++ text "e" ++ [34, 58] := by decide
  have detail : text ",\"d\":" =
      [44, 34] ++ text "d" ++ [34, 58] := by decide
  have key : text ",\"k\":" =
      [44, 34] ++ text "k" ++ [34, 58] := by decide
  have confirmed : text ",\"kc\":" =
      [44, 34] ++ text "kc" ++ [34, 58] := by decide
  have reg : text ",\"reg\":" =
      [44, 34] ++ text "reg" ++ [34, 58] := by decide
  have beat : text ",\"hb\":" =
      [44, 34] ++ text "hb" ++ [34, 58] := by decide
  have fw : text ",\"fw\":\"" =
      [44, 34] ++ text "fw" ++ [34, 58, 34] := by decide
  have ota : text "\",\"ota\":\"" =
      [34, 44, 34] ++ text "ota" ++ [34, 58, 34] := by decide
  have close : text "\"\x7d" =
      [34, 125] := by decide
  have one : numberText 1 = [49] := by decide
  have two : numberText 2 = [50] := by decide
  unfold statusText
  simp only [start, legacy, detail, key, confirmed, reg, beat, fw, ota, close, one, two, statusMembers, capsMember,
    objectText, stringMember, numberMember, List.map_cons, List.map_nil, List.intercalate_cons_cons,
    List.intercalate_singleton, List.append_assoc, List.cons_append, List.nil_append]

theorem writable_caps : Writable 2 capsMember := by
  refine ⟨by decide, @Writes.array 1 ([text "key_write", text "error_reset", text "errs_v2"].map fun cap =>
    (34 :: cap ++ [34], .string (symbols cap))) ?_⟩
  simp only [List.map_cons, List.map_nil, List.forall_mem_cons]
  exact ⟨.string (by decide), .string (by decide), .string (by decide), nofun⟩

theorem writable_status {s : StatusSnapshot} (fw : Safe s.fw) (ota : Safe s.ota) :
    ∀ member ∈ statusMembers s, Writable 2 member := by
  simp only [statusMembers, List.forall_mem_cons]
  exact ⟨writable_number (by decide) _, writable_number (by decide) _, writable_caps,
    writable_number (by decide) _, writable_number (by decide) _, writable_number (by decide) _,
    writable_number (by decide) _, writable_number (by decide) _, writable_number (by decide) _,
    writable_number (by decide) _, writable_string (by decide) fw.shown,
    writable_string (by decide) ota.shown, nofun⟩

theorem read_status {s : StatusSnapshot} (safe : Safe s.fw ∧ Safe s.ota) :
    read (statusText s) = some (objectTree (statusMembers s)) := by
  rw [statusText_members]
  exact read_object (writable_status safe.1 safe.2) (Nat.le_of_ble_eq_true rfl)

theorem status_gate {s : StatusSnapshot} :
    (!isJsonSafeToken s.fw || !isJsonSafeToken s.ota) = true ↔ ¬ (Safe s.fw ∧ Safe s.ota) := by
  simp only [← isJsonSafeToken_iff, Bool.or_eq_true, Bool.not_eq_true', ← Bool.not_eq_true]
  tauto

theorem buildStatusJson_spec {capacity outCap : Nat} (s : StatusSnapshot)
    (out : Option (Memory UInt8 capacity)) (inside : outCap ≤ capacity) :
    ∃ n after, buildStatusJson s out outCap = some (n, after) ∧
      AllOrNothing out outCap (out.isSome ∧ (Safe s.fw ∧ Safe s.ota) ∧ (statusText s).length ≤ kStatusJsonMax ∧
          (statusText s).length < outCap)
        (statusText s) (objectTree (statusMembers s)) n after := by
  cases out with
  | none => exact ⟨0, none, rfl, .null fun fits => nomatch fits.1⟩
  | some out =>
      rcases Nat.eq_zero_or_pos outCap with rfl | room
      · exact ⟨0, some out, rfl, .no_room fun fits => absurd fits.2.2.2 (Nat.not_lt_zero _)⟩
      · have cleared : out.store? 0 [0] = some (out.store 0 [0]) :=
          out.store?_inside (Nat.le_trans room inside)
        have opened : ¬ outCap = 0 := Nat.ne_of_gt room
        by_cases safe : Safe s.fw ∧ Safe s.ota
        · have gate := mt status_gate.mp (not_not.mpr safe)
          by_cases held : Holds (kStatusJsonMax + 1) (statusText s)
          · obtain ⟨buf, printed, front⟩ := snprintf_whole (Memory.filled (kStatusJsonMax + 1) 0) (Nat.le_refl _) held
            have short := Nat.not_lt.mpr (Nat.le_of_lt_succ held.1)
            have filled : 0 < (statusText s).length := by
              rw [statusText_members]
              exact Nat.zero_lt_of_lt (members_lt _)
            have positive : ¬ ((statusText s).length : Int) ≤ 0 := by omega
            by_cases fits : (statusText s).length < outCap
            · have long : (statusText s ++ [(0 : UInt8)]).length ≤ capacity := by
                rw [List.length_append, List.length_singleton]
                omega
              have copied : (out.store 0 [0]).store? 0 (statusText s ++ [0]) = some _ :=
                (out.store 0 [0]).store?_inside ((Nat.zero_add _).symm ▸ long)
              have shown := (out.store 0 [0]).window_store_front long
              rw [List.length_append, List.length_singleton] at shown
              refine ⟨_, some ((out.store 0 [0]).store 0 (statusText s ++ [0])), ?_,
                .whole ⟨rfl, safe, Nat.le_of_lt_succ held.1, fits⟩ filled (read_status safe) shown⟩
              rw [buildStatusJson, if_neg opened, cleared, Option.bind_some, if_neg gate, printed,
                Option.bind_some]
              simp only [Int.toNat_natCast, positive, short, Nat.not_le.mpr fits, false_or, if_false,
                front, copied, Option.map_some]
            · refine ⟨0, some (out.store 0 [0]), ?_, .cleared fun holds => fits holds.2.2.2⟩
              rw [buildStatusJson, if_neg opened, cleared, Option.bind_some, if_neg gate, printed,
                Option.bind_some]
              simp only [Int.toNat_natCast, positive, short, false_or, Nat.le_of_not_lt fits, if_true]
          · obtain ⟨buf, n, printed, cut⟩ := snprintf_cut (Memory.filled (kStatusJsonMax + 1) 0) (Nat.le_refl _)
              (Nat.succ_pos _) held
            have long : n ≤ 0 ∨ n.toNat > kStatusJsonMax ∨ n.toNat ≥ outCap := by
              rcases cut with negative | long
              · exact .inl (Int.le_of_lt negative)
              · exact .inr (.inl long)
            refine ⟨0, some (out.store 0 [0]), ?_, .cleared fun holds => ?_⟩
            · rw [buildStatusJson, if_neg opened, cleared, Option.bind_some, if_neg gate, printed,
                Option.bind_some]
              simp only [if_pos long]
            · exact held ⟨Nat.lt_succ_of_le holds.2.2.1, Nat.lt_of_le_of_lt holds.2.2.1 (by decide)⟩
        · refine ⟨0, some (out.store 0 [0]), ?_, .cleared fun holds => safe holds.2.1⟩
          rw [buildStatusJson, if_neg opened, cleared, Option.bind_some, if_pos (status_gate.mpr safe)]

/-! ## The published value -/

theorem intercalate_concat {items : List Text} (filled : items ≠ []) (last : Text) :
    [44].intercalate (items ++ [last]) = [44].intercalate items ++ 44 :: last := by
  induction items with
  | nil => exact absurd rfl filled
  | cons first items ih =>
      cases items with
      | nil => simp
      | cons second items =>
          have later := ih (List.cons_ne_nil _ _)
          simp only [List.cons_append] at later
          simp only [List.cons_append, List.intercalate_cons_cons, later, List.append_assoc]

/-- The object's text without its closing brace. -/
def opened (members : List Member) : Text :=
  123 :: [44].intercalate (members.map fun member => 34 :: member.1 ++ 34 :: 58 :: member.2.1)

theorem opened_concat {members : List Member} (filled : members ≠ []) (member : Member) :
    opened (members ++ [member]) = opened members ++ 44 :: 34 :: member.1 ++ 34 :: 58 :: member.2.1 := by
  rw [opened, List.map_append, List.map_singleton, intercalate_concat (mt List.map_eq_nil_iff.mp filled)]
  simp only [opened, List.cons_append, List.append_assoc]

/-- `enc`, the link state. -/
def encMember (enc : Int) : Member := numberMember (text "enc") (flag (enc ≠ 0))

/-- What is handed to the characteristic: nothing, or the status object with one more member. -/
structure Published (status : StatusSnapshot) (enc : Int) (value : Text) : Prop where
  refused : ¬ ((Safe status.fw ∧ Safe status.ota) ∧ (statusText status).length ≤ kStatusJsonMax) → value = []
  written : (Safe status.fw ∧ Safe status.ota) ∧ (statusText status).length ≤ kStatusJsonMax →
    read value = some (objectTree (statusMembers status ++ [encMember enc]))

theorem kEnc_bytes : kEnc = [44, 34, 101, 110, 99, 34, 58, 48, 125, 0] := by decide

/-- The splice over the closing brace. -/
theorem window_splice {json : Memory UInt8 (kStatusJsonMax + 16)} {front : Text}
    (short : front.length < kStatusJsonMax)
    (body : json.window 0 (front.length + 1) = front ++ [125]) (digit : UInt8) :
    ((json.store front.length kEnc).store (front.length + 7) [digit]).window 0 (front.length + 9) =
      front ++ [44, 34, 101, 110, 99, 34, 58, digit, 125] := by
  have before : json.window 0 front.length = front := by
    rw [json.window_front (Nat.le_succ _), body, List.take_left' rfl]
  have room : front.length + kEnc.length ≤ kStatusJsonMax + 16 := by
    rw [kEnc_bytes]
    exact Nat.add_le_add (Nat.le_of_lt short) (by decide)
  have extended := json.window_store_append kEnc (Nat.zero_le _) room
  rw [before] at extended
  have cut : (json.store front.length kEnc).window 0 (front.length + 9) =
      front ++ [44, 34, 101, 110, 99, 34, 58, 48, 125] := by
    rw [(json.store front.length kEnc).window_front (Nat.add_le_add_left (by decide : 9 ≤ kEnc.length) _),
      extended, List.take_length_add_append, kEnc_bytes]
    rfl
  have replaced := @Memory.window_store_within _ _ (json.store front.length kEnc) (front.length + 7)
    (front.length + 9) [digit] (Nat.add_le_add_left (by decide : 8 ≤ 9) _)
    (Nat.le_trans (Nat.add_le_add_left (by decide : 9 ≤ kEnc.length) _) room)
  rw [cut, List.take_length_add_append, List.length_singleton, Nat.add_assoc,
    List.drop_length_add_append] at replaced
  rw [replaced]
  simp

theorem encMember_text {members : List Member} (filled : members ≠ []) (enc : Int) :
    objectText (members ++ [encMember enc]) =
      opened members ++ [44, 34, 101, 110, 99, 34, 58, if enc ≠ 0 then 49 else 48, 125] := by
  have whole : objectText (members ++ [encMember enc]) = opened (members ++ [encMember enc]) ++ [125] := rfl
  have digit : numberText (flag (enc ≠ 0)) = [if enc ≠ 0 then 49 else 48] := by
    by_cases zero : enc = 0
    · simp [flag, zero]
      decide
    · simp [flag, zero]
      decide
  rw [whole, opened_concat filled]
  simp only [encMember, numberMember, digit, text]
  simp

section Published

variable {status : StatusSnapshot} {json memory : Memory UInt8 (kStatusJsonMax + 16)} {enc : Int}
  {linkEncrypted : Bool} {front : Text}

theorem setDevStatusValue_refused
    (built : buildStatusJson status (some json) (kStatusJsonMax + 1) = some (0, some memory)) :
    setDevStatusValue status json enc linkEncrypted = some [] := by
  have small (rest : Prop) : ¬ (0 ≥ 2 ∧ rest) := fun both => absurd both.1 (by decide)
  simp only [setDevStatusValue, built, Option.bind_some, if_neg (small _), Memory.window_self]

theorem setDevStatusValue_written
    (built : buildStatusJson status (some json) (kStatusJsonMax + 1) = some (front.length + 1, some memory))
    (filled : 0 < front.length) (short : front.length < kStatusJsonMax)
    (body : memory.window 0 (front.length + 1) = front ++ [125]) :
    setDevStatusValue status json enc linkEncrypted =
      some (front ++ [44, 34, 101, 110, 99, 34, 58, if encShown enc linkEncrypted ≠ 0 then 49 else 48, 125]) := by
  have brace : memory.cells.getD front.length 0 = 125 := by
    have cell : (memory.window 0 (front.length + 1))[front.length]? = some 125 := by
      rw [body, List.getElem?_concat_length]
    rw [Memory.window, List.getElem?_take_of_lt (by omega), List.drop_zero] at cell
    rw [List.getD_eq_getElem?_getD, cell, Option.getD_some]
  have size : kEnc.length = 10 := by decide
  have cap : kStatusJsonMax = 160 := rfl
  have splices : front.length + 1 ≥ 2 ∧ memory.cells.getD (front.length + 1 - 1) 0 = 125 ∧
      front.length + 1 - 1 + kEnc.length ≤ kStatusJsonMax + 16 := ⟨by omega, brace, by omega⟩
  have first := memory.store?_inside (by omega : front.length + kEnc.length ≤ kStatusJsonMax + 16)
  have second (digit : UInt8) := (memory.store front.length kEnc).store?_inside
    (by simp; omega : front.length + 7 + [digit].length ≤ kStatusJsonMax + 16)
  simp only [setDevStatusValue, built, Option.bind_some, if_pos splices]
  rw [Nat.add_sub_cancel, first, Option.bind_some, second, Option.map_some, size]
  exact congrArg some (window_splice short body _)

theorem setDevStatusValue_spec (status : StatusSnapshot) (json : Memory UInt8 (kStatusJsonMax + 16))
    (enc : Int) (linkEncrypted : Bool) :
    ∃ value, setDevStatusValue status json enc linkEncrypted = some value ∧
      Published status (encShown enc linkEncrypted) value := by
  obtain ⟨n, after, built, outcome⟩ := buildStatusJson_spec status (some json)
    (by decide : kStatusJsonMax + 1 ≤ kStatusJsonMax + 16)
  obtain ⟨memory, rfl⟩ := Option.isSome_iff_exists.mp outcome.given
  by_cases fits : (Safe status.fw ∧ Safe status.ota) ∧ (statusText status).length ≤ kStatusJsonMax
  · have bound := fits.2
    obtain ⟨whole, -, -, _, same, body⟩ := outcome.written ⟨rfl, fits.1, bound, by omega⟩
    cases same
    have text : statusText status = opened (statusMembers status) ++ [125] := statusText_members status
    have length : (statusText status).length = (opened (statusMembers status)).length + 1 := by
      rw [text, List.length_append, List.length_singleton]
    have start : 0 < (opened (statusMembers status)).length := Nat.succ_pos _
    have short : (opened (statusMembers status)).length < kStatusJsonMax := by
      omega
    have front : memory.window 0 ((opened (statusMembers status)).length + 1) =
        opened (statusMembers status) ++ [125] := by
      rw [memory.window_front (Nat.le_succ _), ← length, ← whole, body, text, whole, length,
        ← List.length_singleton, ← List.length_append, List.take_left' rfl]
    rw [whole, length] at built
    refine ⟨_, setDevStatusValue_written built start short front, fun unfit => absurd fits unfit, fun _ => ?_⟩
    have some_member : statusMembers status ≠ [] := List.cons_ne_nil _ _
    rw [← encMember_text some_member]
    refine read_object (List.forall_mem_append.mpr ⟨writable_status fits.1.1 fits.1.2, ?_⟩) (by simp [statusMembers])
    exact List.forall_mem_singleton.mpr (writable_number (by decide) _)
  · obtain ⟨none, -⟩ := outcome.refused fun holds => fits ⟨holds.2.1, holds.2.2.1⟩
    refine ⟨[], setDevStatusValue_refused (none ▸ built), ?_⟩
    exact ⟨fun _ => rfl, fun holds => absurd holds fits⟩

end Published

/-- Every body is whole or absent, whatever the strings and the size of the buffer, which is a
front part of any region. -/
theorem bodies_all_or_nothing :
    (∀ (size spare : Nat) (out : Option (Memory UInt8 (size + spare))) (sample : TelemetrySample)
        (minerCode installId isoTimestamp : CString),
      ∃ n after, buildTelemetryBody sample minerCode installId isoTimestamp out size = some (n, after) ∧
        AllOrNothing out size (out.isSome ∧ TelemetrySafe sample minerCode installId isoTimestamp ∧
            Holds size (telemetryText sample minerCode installId isoTimestamp))
          (telemetryText sample minerCode installId isoTimestamp)
          (objectTree (telemetryMembers sample minerCode installId isoTimestamp)) n after) ∧
      (∀ (size spare : Nat) (out : Option (Memory UInt8 (size + spare))) (s : StatusSnapshot),
        ∃ n after, buildStatusJson s out size = some (n, after) ∧
          AllOrNothing out size (out.isSome ∧ (Safe s.fw ∧ Safe s.ota) ∧
              (statusText s).length ≤ kStatusJsonMax ∧ (statusText s).length < size)
            (statusText s) (objectTree (statusMembers s)) n after) ∧
      ∀ (status : StatusSnapshot) (json : Memory UInt8 (kStatusJsonMax + 16)) (enc : Int)
        (linkEncrypted : Bool),
        ∃ value, setDevStatusValue status json enc linkEncrypted = some value ∧
          Published status (encShown enc linkEncrypted) value :=
  ⟨fun _ _ out _ _ _ _ => buildTelemetryBody_spec out (Nat.le_add_right _ _),
    fun _ _ out s => buildStatusJson_spec s out (Nat.le_add_right _ _), setDevStatusValue_spec⟩

end FryFirmware.Reports
