import FryFirmware.Lib.Octets
import FryFirmware.Ota.Commit
import FryFirmware.Ota.Rollout
import Mathlib.Algebra.Ring.Nat
import Mathlib.Data.List.GetD

/-!
# The generator and the board agree on a rollout

What `parse_rollout` accepts, `evaluateRollout` finds well formed and reads as the
generator meant it.
-/

set_option autoImplicit false

namespace FryFirmware.Ota

open FryFirmware.Config (Text text)
open FryFirmware.Lib (forall_byte toNat_octets)

namespace Manifest

/-! ## Words and lines -/

section Words

variable {α : Type} {p : α → Bool} {word whole : List α}

theorem infix_dropWhile (filled : word ≠ []) (plain : ∀ c ∈ word, p c = false) :
    word <:+: whole.dropWhile p ↔ word <:+: whole := by
  constructor
  · exact fun inside => inside.trans (List.dropWhile_suffix p).isInfix
  · intro inside
    induction whole with
    | nil => exact inside
    | cons c rest ih =>
        cases known : p c with
        | false => rwa [List.dropWhile_cons_of_neg (by simp [known])]
        | true =>
            rw [List.dropWhile_cons_of_pos known]
            rcases List.infix_cons_iff.mp inside with first | later
            · cases word with
              | nil => exact absurd rfl filled
              | cons d others =>
                  obtain ⟨rfl, -⟩ := List.cons_prefix_cons.mp first
                  exact absurd known (by simp [plain d List.mem_cons_self])
            · exact ih later

theorem infix_rdropWhile (filled : word ≠ []) (plain : ∀ c ∈ word, p c = false) :
    word <:+: whole.rdropWhile p ↔ word <:+: whole := by
  have reversed := @infix_dropWhile α p word.reverse whole.reverse (by simpa using filled)
    (fun c member => plain c (List.mem_reverse.mp member))
  rw [List.rdropWhile, ← List.reverse_infix, List.reverse_reverse, reversed, List.reverse_infix]

end Words

theorem not_prefix_break {c : Char} {word rest : List Char} (ends : isLineBreak c = true)
    (filled : word ≠ []) (plain : ∀ d ∈ word, isLineBreak d = false) : ¬ word <+: c :: rest := by
  intro first
  cases word with
  | nil => exact filled rfl
  | cons d word =>
      obtain ⟨rfl, -⟩ := List.cons_prefix_cons.mp first
      exact absurd ends (by simp [plain d List.mem_cons_self])

/-- A word without line breaks that begins a text begins its first line. -/
theorem prefix_splitlines {word contents : List Char} (plain : ∀ c ∈ word, isLineBreak c = false) :
    word <+: contents ↔ word <+: (splitlines contents).headD [] := by
  fun_induction splitlines contents generalizing word with
  | case1 => rfl
  | case2 rest ih =>
      cases word with
      | nil => simp
      | cons d word => exact iff_of_false (not_prefix_break rfl nofun plain) (by simp)
  | case3 c rest other ends ih =>
      cases word with
      | nil => simp
      | cons d word => exact iff_of_false (not_prefix_break ends nofun plain) (by simp)
  | case4 c rest other letter none ih =>
      cases word with
      | nil => simp
      | cons d word =>
          rw [List.headD_cons, List.cons_prefix_cons, List.cons_prefix_cons,
            ih fun c member => plain c (List.mem_cons_of_mem _ member), none, List.headD_nil]
  | case5 c rest other letter line lines some ih =>
      cases word with
      | nil => simp
      | cons d word =>
          rw [List.headD_cons, List.cons_prefix_cons, List.cons_prefix_cons,
            ih fun c member => plain c (List.mem_cons_of_mem _ member), some, List.headD_cons]

/-- A word without line breaks lies in one line. -/
theorem infix_splitlines {word contents : List Char} (filled : word ≠ [])
    (plain : ∀ c ∈ word, isLineBreak c = false) :
    word <:+: contents ↔ ∃ line ∈ splitlines contents, word <:+: line := by
  have first := @prefix_splitlines word contents plain
  fun_induction splitlines contents with
  | case1 => simp [filled]
  | case2 rest ih =>
      have here := @not_prefix_break '\r' word ('\n' :: rest) rfl filled plain
      have next := @not_prefix_break '\n' word rest rfl filled plain
      have later : word <:+: rest ↔ _ := ih (prefix_splitlines plain)
      simp [List.infix_cons_iff, here, next, filled, later]
  | case3 c rest other ends ih =>
      have here := @not_prefix_break c word rest ends filled plain
      have later : word <:+: rest ↔ _ := ih (prefix_splitlines plain)
      simp [List.infix_cons_iff, here, filled, later]
  | case4 c rest other letter none ih =>
      have later : word <:+: rest ↔ _ := ih (prefix_splitlines plain)
      rw [none] at later
      rw [List.infix_cons_iff, first, later]
      simp [List.infix_cons_iff, filled]
  | case5 c rest other letter line lines some ih =>
      have later : word <:+: rest ↔ _ := ih (prefix_splitlines plain)
      rw [some] at later
      rw [List.infix_cons_iff, first, later]
      simp [List.infix_cons_iff, or_assoc]

/-! ## What the generator accepts -/

theorem collectPrefixes_ok {path : String} {n : Nat} {prefixes lines entries : List (List Char)}
    (accepted : collectPrefixes path n prefixes lines = .ok entries) :
    (∀ line ∈ lines, strip line = [] ∨ fullmatch (strip line) = true) ∧
    ∀ entry, entry ∈ entries ↔ entry ∈ prefixes ∨
      ∃ line ∈ lines, strip line ≠ [] ∧ (strip line).map Char.toLower = entry := by
  induction lines generalizing n prefixes with
  | nil =>
      cases accepted
      simp
  | cons line lines ih =>
      rw [collectPrefixes] at accepted
      split at accepted
      · next blank =>
          obtain ⟨formed, kept⟩ := ih accepted
          exact ⟨List.forall_mem_cons.mpr ⟨.inl blank, formed⟩, fun entry => by simp [kept, blank]⟩
      · next filled =>
          split at accepted
          · cases accepted
          · next matched =>
              obtain ⟨formed, kept⟩ := ih accepted
              constructor
              · exact List.forall_mem_cons.mpr ⟨.inr (by simpa using matched), formed⟩
              · intro entry
                have here : entry = (strip line).map Char.toLower ↔
                    (strip line).map Char.toLower = entry := eq_comm
                simp only [kept, List.mem_insert_iff, List.exists_mem_cons_iff, here]
                tauto

/-- The file an accepted allow list comes from. -/
structure AllowFile.Lists (file : AllowFile) (contents : List Char) (entries : List (List Char)) :
    Prop where
  read : file.read = .ok contents
  formed : ∀ line ∈ splitlines contents, strip line = [] ∨ fullmatch (strip line) = true
  mem_iff : ∀ entry, entry ∈ entries ↔
    ∃ line ∈ splitlines contents, strip line ≠ [] ∧ (strip line).map Char.toLower = entry

theorem readAllow_ok {file : AllowFile} {entries : List (List Char)}
    (accepted : readAllow file = .ok entries) : ∃ contents, file.Lists contents entries := by
  unfold readAllow at accepted
  split at accepted
  · cases accepted
  · next contents read =>
      split at accepted
      · cases accepted
      · next prefixes collected =>
          obtain ⟨formed, kept⟩ := collectPrefixes_ok collected
          split at accepted
          · cases accepted
          · cases accepted
            exact ⟨contents, read, formed, fun entry => by simp [kept]⟩

/-- An accepted command line: no rollout at all, or an ordered pair of buckets with
the entries of the allow file, where there is one. -/
theorem parse_rollout_ok {lo hi : Option Int} {allow : Option AllowFile} {rollout : Option Rollout}
    (accepted : parse_rollout lo hi allow = .ok rollout) :
    (lo = none ∧ hi = none ∧ rollout = none) ∨
    ∃ low high entries, lo = some low ∧ hi = some high ∧ 0 ≤ low ∧ low ≤ high ∧ high ≤ 99 ∧
      rollout = some ⟨low, high, entries⟩ ∧
      ((allow = none ∧ entries = none) ∨ ∃ file contents listed, allow = some file ∧
        entries = some listed ∧ file.Lists contents listed) := by
  cases lo with
  | none =>
      cases hi with
      | some high => cases accepted
      | none =>
          cases allow with
          | some file => cases accepted
          | none =>
              cases accepted
              exact .inl ⟨rfl, rfl, rfl⟩
  | some low =>
      cases hi with
      | none => cases accepted
      | some high =>
          simp only [parse_rollout] at accepted
          split at accepted
          · cases accepted
          · next inRange =>
              split at accepted
              · cases accepted
              · next ordered =>
                  refine .inr ⟨low, high, ?_⟩
                  have bounds : 0 ≤ low ∧ low ≤ high ∧ high ≤ 99 := by omega
                  cases allow with
                  | none =>
                      cases accepted
                      exact ⟨none, rfl, rfl, bounds.1, bounds.2.1, bounds.2.2, rfl, .inl ⟨rfl, rfl⟩⟩
                  | some file =>
                      simp only at accepted
                      split at accepted
                      · cases accepted
                      · next listed read =>
                          cases accepted
                          obtain ⟨contents, lists⟩ := readAllow_ok read
                          exact ⟨some listed, rfl, rfl, bounds.1, bounds.2.1, bounds.2.2, rfl,
                            .inr ⟨file, contents, listed, rfl, rfl, lists⟩⟩

/-! ## Hexadecimal characters -/

/-- A property of every hexadecimal digit, by trying the ASCII characters. -/
theorem forall_hexDigit {p : Char → Prop}
    (all : ∀ n : Fin 128, isHexDigit (Char.ofNat n) = true → p (Char.ofNat n)) {c : Char}
    (digit : isHexDigit c = true) : p c := by
  have small : c.toNat < 128 := by
    simp only [isHexDigit, Bool.or_eq_true, Bool.and_eq_true, decide_eq_true_eq, Char.le_def,
      UInt32.le_iff_toNat_le] at digit
    have value : c.toNat = c.val.toNat := rfl
    simp at digit
    omega
  have same : Char.ofNat c.toNat = c := Char.ofNat_toNat c
  have known := all ⟨c.toNat, small⟩
  simp only [same] at known
  exact known digit

/-- A hexadecimal digit is no space and ends no line. -/
theorem hexDigit_plain {c : Char} (digit : isHexDigit c = true) :
    isSpace c = false ∧ isLineBreak c = false :=
  forall_hexDigit (p := fun c => isSpace c = false ∧ isLineBreak c = false) (by decide +kernel) digit

/-- The byte of a digit in the document, with its lower-case letter. -/
theorem hexDigit_byte {c : Char} (digit : isHexDigit c = true) :
    Char.ofNat c.toNat.toUInt8.toNat = c ∧
    c.toLower.toNat.toUInt8 = asciiLowerChar c.toNat.toUInt8 ∧
    c.toLower.toNat.toUInt8 ≠ 0 ∧ 0 ≤ hexVal c.toLower.toNat.toUInt8 :=
  forall_hexDigit (p := fun c => Char.ofNat c.toNat.toUInt8.toNat = c ∧
    c.toLower.toNat.toUInt8 = asciiLowerChar c.toNat.toUInt8 ∧
    c.toLower.toNat.toUInt8 ≠ 0 ∧ 0 ≤ hexVal c.toLower.toNat.toUInt8) (by decide +kernel) digit

/-- A byte is a hexadecimal digit when its lower-case letter is one. -/
theorem isHexDigit_of_lower {b : UInt8} (lower : asciiLowerChar b ∈ lowerHex) :
    isHexDigit (Char.ofNat b.toNat) = true ∧ (Char.ofNat b.toNat).toNat.toUInt8 = b := by
  revert lower
  exact forall_byte (p := fun b => asciiLowerChar b ∈ lowerHex →
    isHexDigit (Char.ofNat b.toNat) = true ∧ (Char.ofNat b.toNat).toNat.toUInt8 = b)
    (by decide +kernel) b

/-- Lower-case digits of one value are one digit. -/
theorem hexVal_inj {b : UInt8} (digit : 0 ≤ hexVal (asciiLowerChar b)) :
    asciiLowerChar b ∈ lowerHex ∧
      ∀ d ∈ lowerHex, hexVal (asciiLowerChar b) = hexVal d → asciiLowerChar b = d := by
  have known : 0 ≤ hexVal (asciiLowerChar b) → asciiLowerChar b ∈ lowerHex ∧
      (lowerHex.all fun d => hexVal (asciiLowerChar b) ≠ hexVal d || asciiLowerChar b = d) = true :=
    forall_byte (p := fun b => 0 ≤ hexVal (asciiLowerChar b) → asciiLowerChar b ∈ lowerHex ∧
      (lowerHex.all fun d => hexVal (asciiLowerChar b) ≠ hexVal d || asciiLowerChar b = d) = true)
      (by decide +kernel) b
  obtain ⟨listed, apart⟩ := known digit
  refine ⟨listed, fun d member same => ?_⟩
  have here := List.all_eq_true.mp apart d member
  simpa [same] using here

/-! ## Entries and the digest -/

theorem fullmatch_digits {entry : List Char} (matched : fullmatch entry = true) :
    entry.length = 16 ∧ ∀ c ∈ entry, isHexDigit c = true := by
  simpa [fullmatch] using matched

theorem asciiText_lower {entry : List Char} (digits : ∀ c ∈ entry, isHexDigit c = true) :
    asciiText (entry.map Char.toLower) = (asciiText entry).map asciiLowerChar := by
  simp only [asciiText, List.map_map]
  exact List.map_congr_left fun c member => (hexDigit_byte (digits c member)).2.1

theorem chars_asciiText {entry : List Char} (digits : ∀ c ∈ entry, isHexDigit c = true) :
    (asciiText entry).map (fun b => Char.ofNat b.toNat) = entry := by
  simp only [asciiText, List.map_map]
  exact (List.map_congr_left fun c member => (hexDigit_byte (digits c member)).1).trans
    (List.map_id entry)

end Manifest

theorem isRolloutHexPrefixFrom_eq (n : Nat) (s : Text) : isRolloutHexPrefixFrom n s =
    ((s.all fun c => 0 ≤ hexVal c) && n + s.length = kRolloutPrefixHexLen) := by
  induction s generalizing n with
  | nil => simp [isRolloutHexPrefixFrom]
  | cons c s ih =>
      rw [isRolloutHexPrefixFrom]
      split
      · next negative =>
          have invalid : ¬ 0 ≤ hexVal c := by omega
          simp [invalid]
      · next valid =>
          have digit : 0 ≤ hexVal c := by omega
          split
          · next long =>
              have other : n + (s.length + 1) ≠ kRolloutPrefixHexLen := by omega
              simp [other]
          · rw [ih, List.all_cons, List.length_cons, decide_eq_true digit, Bool.true_and,
              Nat.add_right_comm, Nat.add_assoc]

theorem isRolloutHexPrefix_iff {s : Text} : isRolloutHexPrefix (some s) = true ↔
    (∀ c ∈ s, 0 ≤ hexVal c) ∧ s.length = kRolloutPrefixHexLen := by
  simp [isRolloutHexPrefix, isRolloutHexPrefixFrom_eq]

theorem range_getD {α : Type} {items : List α} {n : Nat} (fits : n ≤ items.length) (default : α) :
    ((List.range n).map fun i => items.getD i default) = items.take n := by
  apply List.ext_getElem
  · simp [fits]
  · intro i inside _
    have known : i < items.length := by simp at inside; omega
    simp [known]

theorem lowerHex_byte (b : UInt8) :
    [lowerHex.getD (b >>> 4).toNat 0, lowerHex.getD (b &&& 0x0F).toNat 0] =
      [kHex.getD (b >>> 4 &&& 0x0f).toNat 0, kHex.getD (b &&& 0x0f).toNat 0].map asciiLowerChar := by
  exact forall_byte (p := fun b =>
    [lowerHex.getD (b >>> 4).toNat 0, lowerHex.getD (b &&& 0x0F).toNat 0] =
      [kHex.getD (b >>> 4 &&& 0x0f).toNat 0, kHex.getD (b &&& 0x0f).toNat 0].map asciiLowerChar)
    (by decide +kernel) b

theorem take_hexDigits (bytes : List UInt8) (n : Nat) :
    (hexDigits bytes).take (2 * n) = hexDigits (bytes.take n) := by
  induction n generalizing bytes with
  | zero => rfl
  | succ n ih =>
      cases bytes with
      | nil => rfl
      | cons b bytes => exact congrArg (fun rest => _ :: _ :: rest) (ih bytes)

/-- The device's prefix is the beginning of its digest, in lower case. -/
theorem rolloutPrefixHex_eq (digest : Digest) :
    rolloutPrefixHex digest = ((hexDigits digest.val).take 16).map asciiLowerChar := by
  have fits : 8 ≤ digest.val.length := by rw [digest.property]; decide
  have bytes := range_getD fits 0
  rw [show (16 : Nat) = 2 * 8 from rfl, take_hexDigits, ← bytes, hexDigits, List.map_flatMap,
    List.flatMap_map, rolloutPrefixHex]
  exact List.flatMap_congr fun i _ => lowerHex_byte (digest.byte i)

theorem rolloutPrefixHex_length (digest : Digest) : (rolloutPrefixHex digest).length = 16 := by
  simp [rolloutPrefixHex, kRolloutPrefixHexLen, List.length_flatMap]

theorem rolloutPrefixHex_mem (digest : Digest) : ∀ c ∈ rolloutPrefixHex digest, c ∈ lowerHex := by
  intro c member
  obtain ⟨i, -, here⟩ := List.mem_flatMap.mp member
  have both := forall_byte (p := fun b => lowerHex.getD (b >>> 4).toNat 0 ∈ lowerHex ∧
    lowerHex.getD (b &&& 0x0F).toNat 0 ∈ lowerHex) (by decide +kernel) (digest.byte i)
  rcases List.mem_pair.mp here with rfl | rfl
  · exact both.1
  · exact both.2

/-- A well-formed lower-case entry matches the prefix that it is. -/
theorem rolloutPrefixMatches_iff {word : Text} (digest : Digest)
    (formed : isRolloutHexPrefix (some (word.map asciiLowerChar)) = true) :
    rolloutPrefixMatches (some (word.map asciiLowerChar)) (rolloutPrefixHex digest) = true ↔
      word.map asciiLowerChar = rolloutPrefixHex digest := by
  obtain ⟨digits, size⟩ := isRolloutHexPrefix_iff.mp formed
  have width := rolloutPrefixHex_length digest
  constructor
  · intro same
    simp only [rolloutPrefixMatches, formed, Bool.not_true, Bool.false_eq_true, if_false,
      List.all_eq_true, List.mem_range, decide_eq_true_eq, Option.getD_some] at same
    apply List.ext_getElem (size.trans width.symm)
    intro i inside other
    have value := same i (by omega)
    rw [List.getD_eq_getElem _ _ inside, List.getD_eq_getElem _ _ other, List.getElem_map] at value
    rw [List.getElem_map]
    have digit := digits _ (List.getElem_mem inside)
    rw [List.getElem_map] at digit
    exact (Manifest.hexVal_inj digit).2 _
      (rolloutPrefixHex_mem digest _ (List.getElem_mem other)) value
  · intro same
    rw [same] at formed
    simp [rolloutPrefixMatches, formed, same]

/-! ## The verdict -/

/-- The first four digest bytes, most significant first. -/
def Digest.firstFour (digest : Digest) : Nat :=
  (digest.val.take 4).foldl (fun number byte => number * 256 + byte.toNat) 0

theorem rolloutBucket_toNat (digest : Digest) :
    (rolloutBucket digest).toNat = digest.firstFour % 100 := by
  have fits : 4 ≤ digest.val.length := by rw [digest.property]; decide
  rw [Digest.firstFour, ← range_getD fits 0]
  have small (i : Nat) : (digest.byte i).toUInt32.toNat ≤ 255 := by
    have limit := (digest.byte i).toNat_lt
    simp only [UInt8.toNat_toUInt32]
    omega
  rw [rolloutBucket, UInt32.toNat_mod, toNat_octets (small 0) (small 1) (small 2) (small 3)]
  simp [List.range_succ, Digest.byte]

theorem rolloutEligible_iff {lo hi : Int} (lower : 0 ≤ lo) (ordered : lo ≤ hi) (upper : hi ≤ 99)
    (digest : Digest) (inAllow : Bool) :
    rolloutEligible (UInt32.ofInt lo) (UInt32.ofInt hi) (rolloutBucket digest) inAllow = true ↔
      (lo ≤ (digest.firstFour % 100 : Nat) ∧ (digest.firstFour % 100 : Nat) ≤ hi) ∨
        inAllow = true := by
  have word {n : Int} (low : 0 ≤ n) (high : n ≤ 99) : (UInt32.ofInt n).toNat = n.toNat := by
    simp only [UInt32.ofInt, UInt32.toNat_ofNat']
    omega
  simp only [rolloutEligible, Bool.or_eq_true, Bool.and_eq_true, decide_eq_true_eq, ge_iff_le,
    UInt32.le_iff_toNat_le, word lower (by omega), word (by omega : 0 ≤ hi) upper,
    rolloutBucket_toNat]
  rw [or_comm]
  exact or_congr_left (by omega)

open Manifest

/-- The entries of an allow list that the board accepts: no NUL among them. -/
theorem cString_formed {s : Text} (digits : ∀ c ∈ s, 0 ≤ hexVal c) : Variant.cString s = s := by
  refine List.takeWhile_eq_self_iff.mpr fun c member => decide_eq_true ?_
  rintro rfl
  exact absurd (digits 0 member) (by decide)

section Object

variable (rollout : Rollout)

theorem toVariant_lo : rollout.toVariant.get (text "bucket_lo") = .integer rollout.bucket_lo := by
  obtain ⟨lo, hi, allow⟩ := rollout
  cases allow <;> rfl

theorem toVariant_hi : rollout.toVariant.get (text "bucket_hi") = .integer rollout.bucket_hi := by
  obtain ⟨lo, hi, allow⟩ := rollout
  cases allow <;> rfl

theorem toVariant_allow : lastMember (text "allow") rollout.toVariant.members =
    rollout.allow.map fun entries => .array (entries.map fun entry => .string (asciiText entry)) := by
  obtain ⟨lo, hi, allow⟩ := rollout
  cases allow <;> rfl

theorem toVariant_flat : (rollout.toVariant.members.any fun pair =>
    decide (Variant.cString pair.1 ≠ text "allow") && (pair.2.isObject || pair.2.isArray)) = false := by
  obtain ⟨lo, hi, allow⟩ := rollout
  cases allow <;> rfl

end Object

/-- An object of the generator is never malformed on the board. -/
theorem evaluateRollout_carried {document : Variant} {rollout : Rollout}
    (carried : namedMember (text "rollout") document.members = some rollout.toVariant)
    (lower : 0 ≤ rollout.bucket_lo) (ordered : rollout.bucket_lo ≤ rollout.bucket_hi)
    (upper : rollout.bucket_hi ≤ 99)
    (formed : ∀ entry ∈ rollout.allow.getD [], isRolloutHexPrefix (some (asciiText entry)) = true)
    (digest : Digest) :
    evaluateRollout document digest =
      if rolloutEligible (UInt32.ofInt rollout.bucket_lo) (UInt32.ofInt rollout.bucket_hi)
          (rolloutBucket digest) ((rollout.allow.getD []).any fun entry =>
            rolloutPrefixMatches (some (asciiText entry)) (rolloutPrefixHex digest)) then .Eligible
      else .NotEligible := by
  have lo : (Variant.integer rollout.bucket_lo).int? = some rollout.bucket_lo := if_pos (by omega)
  have hi : (Variant.integer rollout.bucket_hi).int? = some rollout.bucket_hi := if_pos (by omega)
  have chars : ∀ entry ∈ rollout.allow.getD [],
      (Variant.string (asciiText entry)).chars? = some (asciiText entry) := fun entry member =>
    congrArg some (cString_formed (isRolloutHexPrefix_iff.mp (formed entry member)).1)
  have inRange : ¬ (rollout.bucket_lo < 0 ∨ rollout.bucket_hi > 99 ∨
      rollout.bucket_lo > rollout.bucket_hi) := by omega
  have array : ((rollout.allow.map fun entries => Variant.array (entries.map fun entry =>
      .string (asciiText entry))).any fun allow => !allow.isArray) = false := by
    cases rollout.allow <;> rfl
  have elements : (((rollout.allow.map fun entries => Variant.array (entries.map fun entry =>
      .string (asciiText entry)))).getD .null).elements =
        (rollout.allow.getD []).map fun entry => .string (asciiText entry) := by
    cases rollout.allow <;> rfl
  have prefixes : (((rollout.allow.getD []).map fun entry => Variant.string (asciiText entry)).any
      fun e => !isRolloutHexPrefix e.chars?) = false := by
    simp only [List.any_map, List.any_eq_false, Function.comp_apply]
    intro entry member
    simp [chars entry member, formed entry member]
  have listed : (((rollout.allow.getD []).map fun entry => Variant.string (asciiText entry)).any
      fun e => rolloutPrefixMatches e.chars? (rolloutPrefixHex digest)) =
        (rollout.allow.getD []).any fun entry =>
          rolloutPrefixMatches (some (asciiText entry)) (rolloutPrefixHex digest) := by
    rw [Bool.eq_iff_iff, List.any_map, List.any_eq_true, List.any_eq_true]
    exact exists_congr fun entry => and_congr_right fun member => by
      rw [Function.comp_apply, chars entry member]
  have object : rollout.toVariant.isObject = true := rfl
  simp only [evaluateRollout, carried, object, toVariant_lo, toVariant_hi, lo, hi, toVariant_flat,
    toVariant_allow, array, elements, prefixes, listed, if_neg inRange, Bool.not_true,
    Bool.false_eq_true, if_false]

/-! ## Agreement -/

/-- The first 16 digits of the digest appear in the file, in either case. -/
def Manifest.AllowFile.Names (file : AllowFile) (digest : Digest) : Prop :=
  ∃ contents, file.read = .ok contents ∧ ∃ word : Text,
    word.map asciiLowerChar = ((hexDigits digest.val).take 16).map asciiLowerChar ∧
    word.map (fun b => Char.ofNat b.toNat) <:+: contents

/-- The entry of a digest is on the list exactly when the digits are in the file. -/
theorem names_iff {file : AllowFile} {contents : List Char} {entries : List (List Char)}
    (lists : file.Lists contents entries) (digest : Digest) :
    file.Names digest ↔ ∃ entry ∈ entries, asciiText entry = rolloutPrefixHex digest := by
  have width := rolloutPrefixHex_length digest
  constructor
  · rintro ⟨same, read, word, letters, inside⟩
    rw [lists.read] at read
    cases read
    rw [← rolloutPrefixHex_eq] at letters
    have long : word.length = 16 := by rw [← width, ← letters, List.length_map]
    have lower : ∀ b ∈ word, asciiLowerChar b ∈ lowerHex := fun b member =>
      rolloutPrefixHex_mem digest _ (letters ▸ List.mem_map_of_mem member)
    have digits : ∀ c ∈ word.map fun b => Char.ofNat b.toNat, isHexDigit c = true := by
      intro c member
      obtain ⟨b, known, rfl⟩ := List.mem_map.mp member
      exact (isHexDigit_of_lower (lower b known)).1
    have filled : (word.map fun b => Char.ofNat b.toNat) ≠ [] := by
      intro empty
      rw [List.map_eq_nil_iff.mp empty] at long
      cases long
    obtain ⟨line, known, within⟩ := (infix_splitlines filled fun c member =>
      (hexDigit_plain (digits c member)).2).mp inside
    have plain : ∀ c ∈ word.map (fun b => Char.ofNat b.toNat), isSpace c = false := fun c member =>
      (hexDigit_plain (digits c member)).1
    have stripped : (word.map fun b => Char.ofNat b.toNat) <:+: strip line :=
      (infix_rdropWhile filled plain).mpr ((infix_dropWhile filled plain).mpr within)
    rcases lists.formed line known with blank | matched
    · rw [blank] at stripped
      exact absurd (List.infix_nil.mp stripped) filled
    · obtain ⟨size, -⟩ := fullmatch_digits matched
      have whole : (word.map fun b => Char.ofNat b.toNat) = strip line :=
        stripped.eq_of_length (by rw [size, List.length_map, long])
      have bytes : asciiText (word.map fun b => Char.ofNat b.toNat) = word := by
        simp only [asciiText, List.map_map]
        exact (List.map_congr_left fun b member =>
          (isHexDigit_of_lower (lower b member)).2).trans (List.map_id word)
      refine ⟨(strip line).map Char.toLower, (lists.mem_iff _).mpr ⟨line, known, ?_, rfl⟩, ?_⟩
      · exact whole ▸ filled
      · rw [← whole, asciiText_lower digits, bytes, letters]
  · rintro ⟨entry, member, same⟩
    obtain ⟨line, known, filled, rfl⟩ := (lists.mem_iff _).mp member
    have matched := (lists.formed line known).resolve_left filled
    obtain ⟨size, digits⟩ := fullmatch_digits matched
    refine ⟨contents, lists.read, asciiText (strip line), ?_, ?_⟩
    · rw [← asciiText_lower digits, same, rolloutPrefixHex_eq]
    · rw [chars_asciiText digits]
      have plain : ∀ c ∈ strip line, isLineBreak c = false := fun c member =>
        (hexDigit_plain (digits c member)).2
      refine (infix_splitlines filled plain).mpr ⟨line, known, ?_⟩
      exact (List.rdropWhile_prefix _ _).isInfix.trans (List.dropWhile_suffix _).isInfix

/-- The entries of an accepted file, as the board reads them. -/
theorem listed_formed {file : AllowFile} {contents : List Char} {entries : List (List Char)}
    (lists : file.Lists contents entries) {entry : List Char} (member : entry ∈ entries) :
    ∃ word : Text, asciiText entry = word.map asciiLowerChar ∧
      isRolloutHexPrefix (some (word.map asciiLowerChar)) = true := by
  obtain ⟨line, known, filled, rfl⟩ := (lists.mem_iff entry).mp member
  obtain ⟨size, digits⟩ := fullmatch_digits ((lists.formed line known).resolve_left filled)
  refine ⟨asciiText (strip line), asciiText_lower digits, ?_⟩
  rw [← asciiText_lower digits, isRolloutHexPrefix_iff]
  constructor
  · intro b inside
    simp only [asciiText, List.map_map, List.mem_map] at inside
    obtain ⟨c, here, rfl⟩ := inside
    exact (hexDigit_byte (digits c here)).2.2.2
  · simp [asciiText, size, kRolloutPrefixHexLen]

/-- The manifest that `main` dumps carries the rollout, under the name the board looks for. -/
theorem manifest_carries (firmware_version channel : Text) (builds : List (Text × Variant))
    (rollout : Option Rollout) :
    namedMember (text "rollout") (manifest firmware_version channel builds rollout).members =
      rollout.map Rollout.toVariant := by
  cases rollout <;> rfl

/-- Whatever command line `parse_rollout` accepts, a manifest with its rollout object is
read on the board as it was meant: with buckets given the verdict is `Eligible` for the
digests in the range or in the file and `NotEligible` for the others, and without them
every board is allowed. -/
theorem rollout_agrees {lo hi : Option Int} {allow : Option AllowFile} {rollout : Option Rollout}
    (accepted : parse_rollout lo hi allow = .ok rollout) {document : Variant}
    (carried : namedMember (text "rollout") document.members = rollout.map Rollout.toVariant)
    (digest : Digest) :
    (∀ low ∈ lo, ∀ high ∈ hi,
      evaluateRollout document digest ≠ .Malformed ∧
      evaluateRollout document digest ≠ .Absent ∧
      (evaluateRollout document digest = .Eligible ↔
        (low ≤ (digest.firstFour % 100 : Nat) ∧ (digest.firstFour % 100 : Nat) ≤ high) ∨
          ∃ file ∈ allow, file.Names digest)) ∧
    (lo = none ∧ hi = none → rolloutAllows (evaluateRollout document digest) = true) := by
  rcases parse_rollout_ok accepted with ⟨rfl, rfl, rfl⟩ |
    ⟨low, high, entries, rfl, rfl, lower, ordered, upper, rfl, listed⟩
  · refine ⟨nofun, fun _ => ?_⟩
    simp only [evaluateRollout, carried, Option.map_none]
    rfl
  · refine ⟨?_, fun absent => nomatch absent.1⟩
    rintro _ ⟨⟩ _ ⟨⟩
    have words : ∀ entry ∈ entries.getD [], ∃ word : Text, asciiText entry = word.map asciiLowerChar ∧
        isRolloutHexPrefix (some (word.map asciiLowerChar)) = true := by
      intro entry member
      rcases listed with ⟨-, rfl⟩ | ⟨file, contents, listed, rfl, rfl, lists⟩
      · cases member
      · exact listed_formed lists member
    have formed : ∀ entry ∈ entries.getD [], isRolloutHexPrefix (some (asciiText entry)) = true := by
      intro entry member
      obtain ⟨word, same, known⟩ := words entry member
      rwa [same]
    have inFile : ((entries.getD []).any fun entry =>
        rolloutPrefixMatches (some (asciiText entry)) (rolloutPrefixHex digest)) = true ↔
          ∃ file ∈ allow, file.Names digest := by
      have onList : ((entries.getD []).any fun entry =>
          rolloutPrefixMatches (some (asciiText entry)) (rolloutPrefixHex digest)) = true ↔
            ∃ entry ∈ entries.getD [], asciiText entry = rolloutPrefixHex digest := by
        rw [List.any_eq_true]
        refine exists_congr fun entry => and_congr_right fun member => ?_
        obtain ⟨word, same, known⟩ := words entry member
        rw [same, rolloutPrefixMatches_iff digest known]
      rw [onList]
      rcases listed with ⟨rfl, rfl⟩ | ⟨file, contents, listed, rfl, rfl, lists⟩
      · simp
      · rw [Option.getD_some, ← names_iff lists]
        simp
    have verdict := evaluateRollout_carried carried lower ordered upper formed digest
    have eligible := (rolloutEligible_iff lower ordered upper digest _).trans (or_congr_right inFile)
    simp only at verdict
    rw [verdict]
    split
    · next yes => exact ⟨nofun, nofun, iff_of_true rfl (eligible.mp yes)⟩
    · next no => exact ⟨nofun, nofun, iff_of_false nofun fun meant => no (eligible.mpr meant)⟩

theorem rollout_agrees_listed :
    evaluateRollout (manifest (text "0.4.8") (text "prod") []
      (some ⟨0, 10, some ["abababababababab".toList]⟩)) ⟨List.replicate 32 0xab, rfl⟩ = .Eligible :=
  ((@rollout_agrees (some 0) (some 10)
    (some ⟨"allow.txt", .ok "  ABABABABABABABAB\r\n\n".toList⟩)
    (some ⟨0, 10, some ["abababababababab".toList]⟩) rfl _
    (manifest_carries _ _ _ _) ⟨List.replicate 32 0xab, rfl⟩).1 0 rfl 10 rfl).2.2.mpr
    (.inr ⟨_, rfl, _, rfl, text "ABABABABABABABAB", by decide +kernel, [' ', ' '], ['\r', '\n', '\n'], rfl⟩)

end FryFirmware.Ota
