import FryFirmware.Reports.BodiesProperties
import FryFirmware.Wireguard.KeyText

/-!
# The request for a configuration

`buildWgProvisionBody` of `lib/fry_core/wg_provision.cpp`, which `tick` of
`src/esp32/wg_provision_client.cpp` posts without a look at its result. A body that is
written is a whole JSON object, and the key in it is the board's.
-/

set_option autoImplicit false

namespace FryFirmware.Wireguard

open Lib Lib.JsonText
open Config (Text text)
open Reports (Safe Holds Member shown stringMember objectText objectTree)

/-! ## The source -/

def jsonSafe : CString → Bool
  | none => false
  | some s => s.all fun c => !(c = 34 || c = 92 || c < 0x20)

def provisionText (pubKeyB64 firmwareVersion chip : CString) : Text :=
  text "\x7b\"public_key\":\"" ++ shown pubKeyB64 ++ text "\",\"firmware_version\":\"" ++
    shown firmwareVersion ++ text "\",\"chip\":\"" ++ shown chip ++ text "\"\x7d"

/-- `none` is a write past the end of `out`. -/
def buildWgProvisionBody {capacity : Nat} (pubKeyB64 firmwareVersion chip : CString)
    (out : Option (Memory UInt8 capacity)) (outLen : Nat) :
    Option (Nat × Option (Memory UInt8 capacity)) :=
  match out with
  | none => some (0, none)
  | some out =>
      match pubKeyB64 with
      | none => some (0, some out)
      | some key =>
          if key.length ≠ 44 then some (0, some out)
          else if !jsonSafe pubKeyB64 || !jsonSafe firmwareVersion || !jsonSafe chip then some (0, some out)
          else
            (Reports.snprintf out outLen (provisionText pubKeyB64 firmwareVersion chip)).map fun (out, n) =>
              if n < 0 ∨ n.toNat ≥ outLen then (0, some out) else (n.toNat, some out)

/-! ## The body -/

theorem jsonSafe_iff {s : CString} : jsonSafe s = true ↔ Safe s := by
  rw [← Reports.isJsonSafeToken_iff]
  cases s with
  | none => rfl
  | some s => simp only [jsonSafe, Reports.isJsonSafeToken, Bool.not_or]

def provisionMembers (pubKeyB64 firmwareVersion chip : CString) : List Member :=
  [stringMember (text "public_key") (shown pubKeyB64),
    stringMember (text "firmware_version") (shown firmwareVersion), stringMember (text "chip") (shown chip)]

theorem provisionText_members (pubKeyB64 firmwareVersion chip : CString) :
    provisionText pubKeyB64 firmwareVersion chip =
      objectText (provisionMembers pubKeyB64 firmwareVersion chip) := by
  -- Each literal of the format, cut at the names.
  have start : text "\x7b\"public_key\":\"" = [123, 34] ++ text "public_key" ++ [34, 58, 34] := by decide
  have version : text "\",\"firmware_version\":\"" =
      [34, 44, 34] ++ text "firmware_version" ++ [34, 58, 34] := by decide
  have chips : text "\",\"chip\":\"" = [34, 44, 34] ++ text "chip" ++ [34, 58, 34] := by decide
  have close : text "\"\x7d" = [34, 125] := by decide
  unfold provisionText
  simp only [start, version, chips, close, provisionMembers, objectText, stringMember, List.map_cons,
    List.map_nil, List.intercalate_cons_cons, List.intercalate_singleton, List.append_assoc,
    List.cons_append, List.nil_append]

section

variable {capacity outLen : Nat} {pubKeyB64 firmwareVersion chip : CString}

/-- What the body needs of its three strings. -/
def Sendable (pubKeyB64 firmwareVersion chip : CString) : Prop :=
  (shown pubKeyB64).length = 44 ∧ Safe pubKeyB64 ∧ Safe firmwareVersion ∧ Safe chip

theorem read_provision (sendable : Sendable pubKeyB64 firmwareVersion chip) :
    read (provisionText pubKeyB64 firmwareVersion chip) =
      some (objectTree (provisionMembers pubKeyB64 firmwareVersion chip)) := by
  obtain ⟨-, key, version, chip⟩ := sendable
  rw [provisionText_members]
  refine @Reports.read_object 1 _ ?_ (Nat.le_of_ble_eq_true rfl)
  simp only [provisionMembers, List.forall_mem_cons]
  exact ⟨Reports.writable_string (by decide) key.shown, Reports.writable_string (by decide) version.shown,
    Reports.writable_string (by decide) chip.shown, nofun⟩

theorem sendable_iff {key : Text} :
    Sendable (some key) firmwareVersion chip ↔ key.length = 44 ∧
      ¬ (!jsonSafe (some key) || !jsonSafe firmwareVersion || !jsonSafe chip) = true := by
  simp only [Sendable, ← jsonSafe_iff, shown, Option.getD_some, Bool.or_eq_true, Bool.not_eq_true',
    ← Bool.not_eq_true]
  tauto

/-- What a call of the builder leaves: all of the body in front of its NUL, or a zero result. -/
structure Built (outLen : Nat) (pubKeyB64 firmwareVersion chip : CString) (n : Nat)
    (after : Memory UInt8 capacity) : Prop where
  refused : ¬ (Sendable pubKeyB64 firmwareVersion chip ∧
    Holds outLen (provisionText pubKeyB64 firmwareVersion chip)) → n = 0
  written : Sendable pubKeyB64 firmwareVersion chip ∧
    Holds outLen (provisionText pubKeyB64 firmwareVersion chip) →
      n = (provisionText pubKeyB64 firmwareVersion chip).length ∧
        after.window 0 (n + 1) = provisionText pubKeyB64 firmwareVersion chip ++ [0]

theorem buildWgProvisionBody_spec (out : Memory UInt8 capacity) (inside : outLen ≤ capacity) :
    ∃ n after, buildWgProvisionBody pubKeyB64 firmwareVersion chip (some out) outLen = some (n, some after) ∧
      Built outLen pubKeyB64 firmwareVersion chip n after := by
  have nothing : ¬ Sendable pubKeyB64 firmwareVersion chip →
      Built outLen pubKeyB64 firmwareVersion chip 0 out := fun unfit =>
    ⟨fun _ => rfl, fun both => absurd both.1 unfit⟩
  cases pubKeyB64 with
  | none => exact ⟨0, out, rfl, nothing fun sendable => by simp [Sendable, shown] at sendable⟩
  | some key =>
      simp only [buildWgProvisionBody]
      by_cases sendable : Sendable (some key) firmwareVersion chip
      · obtain ⟨size, gate⟩ := sendable_iff.mp sendable
        rw [if_neg (not_not.mpr size), if_neg gate]
        by_cases fits : Holds outLen (provisionText (some key) firmwareVersion chip)
        · obtain ⟨after, printed, front⟩ := Reports.snprintf_whole out inside fits
          have short := Nat.not_le.mpr fits.1
          have whole : ¬ ((provisionText (some key) firmwareVersion chip).length : Int) < 0 := by omega
          refine ⟨_, after, ?_, fun unfit => absurd ⟨sendable, fits⟩ unfit, fun _ => ⟨rfl, front⟩⟩
          simp only [printed, Option.map_some, Int.toNat_natCast, whole, false_or, short, if_false]
        · refine ⟨0, ?_⟩
          rcases Nat.eq_zero_or_pos outLen with rfl | room
          · refine ⟨out, ?_, fun _ => rfl, fun both => absurd both.2 fits⟩
            simp [Reports.snprintf]
          · obtain ⟨after, n, printed, cut⟩ := Reports.snprintf_cut out inside room fits
            refine ⟨after, ?_, fun _ => rfl, fun both => absurd both.2 fits⟩
            simp only [printed, Option.map_some, if_pos cut]
      · refine ⟨0, out, ?_, nothing sendable⟩
        by_cases size : key.length = 44
        · have gate : (!jsonSafe (some key) || !jsonSafe firmwareVersion || !jsonSafe chip) = true := by
            by_contra passes
            exact sendable (sendable_iff.mpr ⟨size, passes⟩)
          rw [if_neg (not_not.mpr size), if_pos gate]
        · rw [if_pos size]

end

/-! ## The key in it -/

theorem plain_letter {c : UInt8} {v : Nat} (found : Base64.value c = some v) :
    c ≠ 34 ∧ c ≠ 92 ∧ 32 ≤ c := by
  have all : ∀ v < 64, Base64.letter v ≠ 34 ∧ Base64.letter v ≠ 92 ∧ 32 ≤ Base64.letter v := by decide
  obtain ⟨same, small⟩ := Base64.letter_value found
  exact same ▸ all v small

/-- The text of a key is 44 bytes that JSON does not escape. -/
theorem KeyShape.plain {s : Text} (shape : KeyShape 10 s) : s.length = 44 ∧ Plain s := by
  obtain ⟨front, p, q, r, v, rfl, count, letters, last, -⟩ := shape
  refine ⟨by simp [count], fun c member => ?_⟩
  have each : ∀ c ∈ front ++ [p, q], c ≠ 34 ∧ c ≠ 92 ∧ 32 ≤ c := fun c member => by
    obtain ⟨v, found⟩ := letters c member
    exact plain_letter found
  have parts : front ++ [p, q, r, Base64.pad] = (front ++ [p, q]) ++ [r, Base64.pad] := by simp
  rw [parts] at member
  rcases List.mem_append.mp member with early | late
  · exact each c early
  · rcases List.mem_pair.mp late with rfl | rfl
    · exact plain_letter last
    · decide

theorem provisionText_length (pubKeyB64 firmwareVersion chip : CString) :
    (provisionText pubKeyB64 firmwareVersion chip).length =
      49 + (shown pubKeyB64).length + (shown firmwareVersion).length + (shown chip).length := by
  have start : (text "\x7b\"public_key\":\"").length = 15 := by decide
  have version : (text "\",\"firmware_version\":\"").length = 22 := by decide
  have chips : (text "\",\"chip\":\"").length = 10 := by decide
  have close : (text "\"\x7d").length = 2 := by decide
  simp only [provisionText, List.length_append, start, version, chips, close]
  omega

/-- A request for a new key is refused only for its version, its chip or its length. Where it is written,
whoever reads the body finds the 32 bytes of the key in it. -/
theorem request_carries_key (key : Key) (firmwareVersion chip : CString) (size spare : Nat)
    (out : Memory UInt8 (size + spare)) (old : Text) :
    ∃ pub n after, (encodeWgKeyB64 (some key) (some old) 45).1 = some pub ∧
      buildWgProvisionBody (some pub) firmwareVersion chip (some out) size = some (n, some after) ∧
      (n ≠ 0 ↔ Safe firmwareVersion ∧ Safe chip ∧
        93 + (shown firmwareVersion).length + (shown chip).length < min size (2 ^ 31)) ∧
      (n ≠ 0 → (after.window n (n + 1) = [0]) ∧ Base64.decode pub = some key.toList ∧
        read (after.window 0 n) = some (.object [(symbols (text "public_key"), .string (symbols pub)),
          (symbols (text "firmware_version"), .string (symbols (shown firmwareVersion))),
          (symbols (text "chip"), .string (symbols (shown chip)))])) := by
  have groups : encodeGroups key.toList = Base64.encode key.toList := encodeGroups_eq (by simp)
  have shape : KeyShape 10 (encodeGroups key.toList) := groups ▸ keyShape_encode (by simp)
  obtain ⟨length, plain⟩ := shape.plain
  obtain ⟨n, after, built, refused, written⟩ := @buildWgProvisionBody_spec _ size
    (some (encodeGroups key.toList)) firmwareVersion chip out (Nat.le_add_right _ _)
  have fits_iff : Sendable (some (encodeGroups key.toList)) firmwareVersion chip ∧
        Holds size (provisionText (some (encodeGroups key.toList)) firmwareVersion chip) ↔
      Safe firmwareVersion ∧ Safe chip ∧
        93 + (shown firmwareVersion).length + (shown chip).length < min size (2 ^ 31) := by
    have own : Safe (some (encodeGroups key.toList)) := ⟨_, rfl, plain⟩
    simp only [Sendable, Holds, provisionText_length, shown, Option.getD_some, length, own, true_and,
      lt_min_iff, and_assoc]
  have filled : 0 < (provisionText (some (encodeGroups key.toList)) firmwareVersion chip).length := by
    rw [provisionText_length]
    omega
  refine ⟨_, n, after, rfl, built, ?_, fun some_body => ?_⟩
  · rw [← fits_iff]
    constructor
    · exact fun some_body => by_contra fun unfit => some_body (refused unfit)
    · intro fits
      rw [(written fits).1]
      exact Nat.ne_of_gt filled
  · have fits := by_contra fun unfit => some_body (refused unfit)
    obtain ⟨same, front⟩ := written fits
    have bound : n + 1 ≤ size + spare := by
      have := fits.2.1
      omega
    have split := after.window_split (Nat.zero_le n) (Nat.le_succ n)
    rw [front] at split
    have parts := List.append_inj split (by rw [after.window_length 0 (by omega), same, Nat.sub_zero])
    refine ⟨parts.2.symm, by rw [groups]; exact Base64.decode_encode _, ?_⟩
    rw [← parts.1, read_provision fits.1]
    rfl

end FryFirmware.Wireguard
