import FryFirmware.Ota.Esp32
import Mathlib.Data.List.Basic
import Mathlib.Tactic.Common

/-!
# When the ESP32 ends an update

Which images pass the digest check, and what `sha256HexMatches` says of them.
-/

set_option autoImplicit false

namespace FryFirmware.Ota.Esp32

/-! ## The digest check -/

theorem textOf_hex {digest : List UInt8} (size : digest.length = 32) :
    textOf (bytesToHexUpper digest 65) = hexDigits digest := by
  rw [bytesToHexUpper_eq size, textOf, List.takeWhile_append_of_pos]
  · simp
  · simpa using hexDigits_nonzero digest

/-- Whether the digest that was computed is the manifest's, as `sha256HexMatches` says. -/
def DigestMatches (digest shaExpect : List UInt8) : Prop :=
  sha256HexMatches (bytesToHexUpper digest 65) shaExpect shaExpect.length = true

instance (digest shaExpect : List UInt8) : Decidable (DigestMatches digest shaExpect) :=
  inferInstanceAs (Decidable (_ = _))

/-- A copy with characters in it tells whether the strings are the same. -/
def CopiesTell (copies : Copies) (shaExpect : List UInt8) : Prop :=
  copies.got = true ∨ copies.want = true ∧ shaExpect ≠ []

instance (copies : Copies) (shaExpect : List UInt8) : Decidable (CopiesTell copies shaExpect) :=
  inferInstanceAs (Decidable (_ ∨ _))

theorem digestMatches_iff {digest shaExpect : List UInt8} (size : digest.length = 32) :
    DigestMatches digest shaExpect ↔
      (hexDigits digest).map asciiLowerChar = shaExpect.map asciiLowerChar := by
  have digits : (hexDigits digest).length = 64 := by rw [hexDigits_length, size]
  rw [DigestMatches, bytesToHexUpper_eq size,
    sha256HexMatches_text digits (hexDigits_nonzero digest)]
  refine ⟨And.right, fun same => ⟨?_, same⟩⟩
  have lengths := congrArg List.length same
  rw [List.length_map, List.length_map, digits] at lengths
  exact lengths.symm

/-- Where a copy has characters, the strings agree only if both have, and they are the
same digest; elsewhere they agree. -/
theorem stringsAgree_iff {digest shaExpect : List UInt8} (size : digest.length = 32)
    (copies : Copies) : stringsAgree copies (bytesToHexUpper digest 65) shaExpect = true ↔
      (CopiesTell copies shaExpect →
        copies.got = true ∧ copies.want = true ∧ DigestMatches digest shaExpect) := by
  have some : hexDigits digest ≠ [] := by
    intro none
    have digits := hexDigits_length digest
    rw [none, size] at digits
    cases digits
  rw [stringsAgree, textOf_hex size, digestMatches_iff size]
  obtain ⟨got, want⟩ := copies
  cases got <;> cases want <;> simp [CopiesTell, copied, toLowerCase, some]

/-! ## The log -/

/-- The bytes read from the stream. -/
def readBytes (log : List Action) : List UInt8 :=
  log.flatMap fun
    | .read bytes => bytes
    | _ => []

theorem readBytes_append (first second : List Action) :
    readBytes (first ++ second) = readBytes first ++ readBytes second :=
  List.flatMap_append

/-- An end of the update with this flag is in the log. -/
def Ends (log : List Action) : Prop := ∃ result, Action.endUpdate true result ∈ log

variable {υ : Type} {U : Update υ} {idle : υ} {s : Streaming υ}

/-- While it streams, the hash is that of what was read, and the update goes on. -/
structure Streams (s : Streaming υ) : Prop where
  hash : s.sha = ({} : Sha256).update (readBytes s.device.log)
  unended : ¬ Ends s.device.log

theorem ends_append {first second : List Action} :
    Ends (first ++ second) ↔ Ends first ∨ Ends second := by
  simp only [Ends, List.mem_append, exists_or]

theorem Streams.extend (streams : Streams s) {s' : Streaming υ} {more : List Action}
    (log : s'.device.log = s.device.log ++ more) (sha : s'.sha = s.sha.update (readBytes more))
    (quiet : ¬ Ends more) : Streams s' where
  hash := by rw [sha, streams.hash, update_append, log, readBytes_append]
  unended := by
    rw [log, ends_append]
    exact fun either => either.elim streams.unended quiet

theorem Streams.turn (streams : Streams s) (t : Turn) : Streams (s.turn U t).1 := by
  cases t with
  | available bytes now =>
      simp only [Streaming.turn]
      split
      · exact streams
      · have written : Streams { s with
            sha := s.sha.update bytes
            device := (Device.write U
              ⟨s.device.updater, s.device.log ++ [.read bytes]⟩ bytes).1 } :=
          streams.extend (List.append_assoc _ [_] [_]) (by simp [readBytes]) (by simp [Ends])
        split
        · exact written.extend rfl (by simp [readBytes, Sha256.update]) (by simp [Ends])
        · exact ⟨written.hash, written.unended⟩
  | idle connected now =>
      simp only [Streaming.turn]
      split
      · exact streams
      · split <;> exact streams

theorem Streams.run (streams : Streams s) (len : Nat) (turns : List Turn) :
    Streams (s.run U len turns).1 := by
  induction turns generalizing s with
  | nil => exact streams
  | cons t rest ih =>
      rw [Streaming.run]
      split
      · simp only
        split
        · exact ih (streams.turn t)
        · exact streams.turn t
      · exact streams

/-! ## Whole downloads -/

/-- The download gets as far as the digest check, with this image. -/
def GetsTo (U : Update υ) (idle : υ) (opening : Opening) (started : UInt32) (turns : List Turn)
    (image : List UInt8) : Prop :=
  opening.url = true ∧ opening.code = 200 ∧ 0 < opening.size ∧ opening.heap = true ∧
    (U.begin idle opening.size.toNat).2 = true ∧
    ∃ s : Streaming υ, Streaming.run U opening.size.toNat
        { device := ⟨(U.begin idle opening.size.toNat).1, []⟩, lastData := started } turns =
          (s, .leave) ∧ s.done = opening.size.toNat ∧ readBytes s.device.log = image

theorem ends_abort {d : Device υ} : Ends (d.abort U).log ↔ Ends d.log := by
  rw [Device.abort, ends_append]
  simp [Ends]

theorem ends_judge (streams : Streams s) (shaExpect : List UInt8) (copies : Copies) :
    Ends (s.judge U shaExpect copies).1.log ↔
      stringsAgree copies (bytesToHexUpper (sha256 (readBytes s.device.log)) 65) shaExpect = true := by
  rw [← finish_update, ← streams.hash, ← Streaming.hex]
  unfold Streaming.judge
  cases agree : stringsAgree copies s.hex shaExpect with
  | false => simp [ends_abort, streams.unended]
  | true => simp [Device.endUpdate, Ends]

theorem ends_finish (streams : Streams s) (len : Nat) (shaExpect : List UInt8) (copies : Copies)
    (ended : Turned) :
    Ends (s.finish U len shaExpect copies ended).1.log ↔ (ended = .leave ∧ s.done = len) ∧
      stringsAgree copies (bytesToHexUpper (sha256 (readBytes s.device.log)) 65) shaExpect = true := by
  cases ended with
  | again => exact iff_of_false streams.unended fun all => by cases all.1.1
  | failed => exact iff_of_false streams.unended fun all => by cases all.1.1
  | leave =>
      rw [Streaming.finish]
      by_cases whole : s.done = len
      · rw [if_neg (not_not_intro whole), ends_judge streams]
        exact (and_iff_right ⟨rfl, whole⟩).symm
      · rw [if_pos whole, ends_abort]
        exact iff_of_false streams.unended fun all => whole all.1.2

/-- Without a stream nothing happens at the update but its beginning. -/
theorem log_refused {opening : Opening} {shaExpect : List UInt8} {copies : Copies} {started : UInt32}
    {turns : List Turn} (refused : ¬ (opening.url = true ∧ opening.code = 200 ∧ 0 < opening.size ∧
      opening.heap = true ∧ (U.begin idle opening.size.toNat).2 = true)) :
    (downloadAndApply U idle opening shaExpect copies started turns).1.log = [] := by
  unfold downloadAndApply
  split
  · rfl
  next url =>
  split
  · rfl
  next code =>
  split
  · rfl
  next size =>
  split
  · rfl
  next heap =>
  simp only
  split
  · rfl
  next begun =>
  refine absurd ⟨?_, ?_, ?_, ?_, ?_⟩ refused
  · simpa using url
  · simpa using code
  · omega
  · simpa using heap
  · simpa using begun

/-- A download ends its update exactly when it gets to the check with an image whose
digest agrees. -/
theorem ends_downloadAndApply (U : Update υ) (idle : υ) (opening : Opening) (shaExpect : List UInt8)
    (copies : Copies) (started : UInt32) (turns : List Turn) :
    Ends (downloadAndApply U idle opening shaExpect copies started turns).1.log ↔
      ∃ image, GetsTo U idle opening started turns image ∧
        stringsAgree copies (bytesToHexUpper (sha256 image) 65) shaExpect = true := by
  by_cases granted : opening.url = true ∧ opening.code = 200 ∧ 0 < opening.size ∧
      opening.heap = true ∧ (U.begin idle opening.size.toNat).2 = true
  · obtain ⟨url, code, size, heap, begun⟩ := granted
    have start : Streams ({ device := ⟨(U.begin idle opening.size.toNat).1, []⟩
                            lastData := started } : Streaming υ) := ⟨rfl, by simp [Ends]⟩
    have streams := start.run (U := U) opening.size.toNat turns
    have positive : ¬ opening.size ≤ 0 := by omega
    unfold downloadAndApply GetsTo
    simp only [url, code, positive, heap, begun, size, Bool.not_true, Bool.false_eq_true, if_false,
      ne_eq, not_true_eq_false, true_and]
    generalize Streaming.run U opening.size.toNat _ turns = result at streams ⊢
    obtain ⟨s, ended⟩ := result
    rw [ends_finish streams]
    constructor
    · rintro ⟨⟨rfl, whole⟩, agree⟩
      exact ⟨_, ⟨s, rfl, whole, rfl⟩, agree⟩
    · rintro ⟨image, ⟨s', same, whole, rfl⟩, agree⟩
      cases same
      exact ⟨⟨rfl, whole⟩, agree⟩
  · refine iff_of_false (by rw [log_refused granted]; simp [Ends]) ?_
    rintro ⟨image, ⟨url, code, size, heap, begun, -⟩, -⟩
    exact granted ⟨url, code, size, heap, begun⟩

/-- The image of a download that gets to the check is all it read. -/
theorem readBytes_downloadAndApply {opening : Opening} {started : UInt32} {turns : List Turn}
    {image : List UInt8} (gets : GetsTo U idle opening started turns image) (shaExpect : List UInt8)
    (copies : Copies) :
    readBytes (downloadAndApply U idle opening shaExpect copies started turns).1.log = image := by
  obtain ⟨url, code, size, heap, begun, s, ran, whole, rfl⟩ := gets
  have positive : ¬ opening.size ≤ 0 := by omega
  unfold downloadAndApply
  simp only [url, code, positive, heap, begun, Bool.not_true, Bool.false_eq_true, if_false,
    ne_eq, not_true_eq_false, ran, Streaming.finish, whole, Streaming.judge]
  split
  · rw [Device.abort, readBytes_append]
    exact List.append_nil _
  · rw [Device.endUpdate, readBytes_append]
    exact List.append_nil _

/-- On every download the check is as strict as `sha256HexMatches`, exactly when no
image gets to it, a copy with characters tells, or the digest matches anyway. -/
theorem downloadAndApply_strict_iff (U : Update υ) (idle : υ) (opening : Opening)
    (shaExpect : List UInt8) (copies : Copies) (started : UInt32) (turns : List Turn) :
    let log := (downloadAndApply U idle opening shaExpect copies started turns).1.log
    (Ends log → DigestMatches (sha256 (readBytes log)) shaExpect) ↔
      ∀ image, GetsTo U idle opening started turns image →
        CopiesTell copies shaExpect ∨ DigestMatches (sha256 image) shaExpect := by
  intro log
  have ends := ends_downloadAndApply U idle opening shaExpect copies started turns
  constructor
  · intro strict image gets
    by_cases tells : CopiesTell copies shaExpect
    · exact .inl tells
    · have agree := (@stringsAgree_iff (sha256 image) shaExpect (sha256_length image) copies).mpr
        fun tell => absurd tell tells
      have matched := strict (ends.mpr ⟨image, gets, agree⟩)
      rw [readBytes_downloadAndApply gets] at matched
      exact .inr matched
  · intro safe ended
    obtain ⟨image, gets, agree⟩ := ends.mp ended
    rw [readBytes_downloadAndApply gets]
    rcases safe image gets with tells | matched
    · exact ((stringsAgree_iff (sha256_length image) copies).mp agree tells).2.2
    · exact matched

/-- An `Update` that takes everything. -/
def willing : Update Unit where
  begin _ _ := ((), true)
  write _ data := ((), data.length)
  abort _ := ()
  endUpdate _ _ := ((), true)

/-- One byte with a digest of zeros, and no memory for either copy. -/
theorem downloadAndApply_unchecked :
    let log := (downloadAndApply willing () ⟨true, 200, 1, true⟩ (List.replicate 64 48)
      ⟨false, false⟩ 0 [.available [0x61] 0]).1.log
    Ends log ∧ ¬ DigestMatches (sha256 (readBytes log)) (List.replicate 64 48) := by
  intro log
  have logged : log = [.read [0x61], .write [0x61] 1, .endUpdate true true] := by
    decide +kernel
  rw [logged]
  refine ⟨⟨true, by simp⟩, ?_⟩
  have read : readBytes [.read [0x61], .write [0x61] 1, .endUpdate true true] = [0x61] := rfl
  rw [read]
  decide +kernel

end FryFirmware.Ota.Esp32
