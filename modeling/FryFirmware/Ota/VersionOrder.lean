import FryFirmware.Ota.Precedence
import FryFirmware.Strikes.Rules
import Mathlib.Data.List.Basic
import Mathlib.Logic.Relation
import Mathlib.Tactic.Common

/-!
# Versions

The versions SemVer allows and their texts, which `compareSemverPrecedence` puts in the
order of section 11, and what follows for the updates a board takes.
-/

set_option autoImplicit false

namespace FryFirmware.Ota

open Config (Text text)
open Lib
open Lib.Json (natText digitsValue)

/-! ## The grammar -/

def identChar (c : UInt8) : Bool :=
  isDigit c || (65 ≤ c && c ≤ 90) || (97 ≤ c && c ≤ 122) || c = 45

/-- A number without leading zeros, or letters, digits and hyphens that are no number. -/
def Identifier.Valid : Identifier → Prop
  | .numeric _ => True
  | .alphanumeric letters => (∀ c ∈ letters, identChar c = true) ∧ ∃ c ∈ letters, isDigit c = false

def Identifier.text : Identifier → Text
  | .numeric number => natText number
  | .alphanumeric letters => letters

structure Version extends Precedence where
  build : List Text
  pre_valid : ∀ ident ∈ pre, ident.Valid
  build_valid : ∀ ident ∈ build, ident ≠ [] ∧ ∀ c ∈ ident, identChar c = true

namespace Version

def preText (v : Version) : Text :=
  if v.pre = [] then [] else 45 :: [dot].intercalate (v.pre.map Identifier.text)

def buildText (v : Version) : Text :=
  if v.build = [] then [] else 43 :: [dot].intercalate v.build

def text (v : Version) : Text :=
  natText v.major ++ dot :: (natText v.minor ++ dot :: (natText v.patch ++ (v.preText ++ v.buildText)))

/-- The core numbers fit in 32 bits. -/
def Small (v : Version) : Prop := v.major < 2 ^ 32 ∧ v.minor < 2 ^ 32 ∧ v.patch < 2 ^ 32

end Version

/-! ## Reading a text back -/

/-- What is left behind a component: what follows the dot, or nothing. -/
def afterComponent : Text → Text
  | [] => []
  | c :: rest => if c = dot then rest else []

theorem nextComponentFrom_digits {digits rest : Text} (all : ∀ c ∈ digits, Json.isDigit c = true)
    (ends : ∀ c ∈ rest.head?, isDigit c = false) (n : Nat) :
    nextComponentFrom (UInt32.ofNat n) (digits ++ rest) =
      (UInt32.ofNat (digits.foldl (fun v c => v * 10 + (c - 48).toNat) n), afterComponent rest) := by
  induction digits generalizing n with
  | nil =>
      cases rest with
      | nil => rfl
      | cons c rest =>
          have stop : isDigit c = false := ends c rfl
          rw [List.nil_append, nextComponentFrom, stop, afterComponent, List.foldl_nil]
          by_cases more : c = dot
          · rw [if_pos more, if_pos more]
            rfl
          · rw [if_neg more, if_neg more]
            rfl
  | cons c digits ih =>
      have digit : isDigit c = true := (isDigit_eq c).trans (all c List.mem_cons_self)
      have next : UInt32.ofNat n * 10 + (c - 48).toUInt32 = UInt32.ofNat (n * 10 + (c - 48).toNat) := by
        rw [UInt32.ofNat_add, UInt32.ofNat_mul, UInt32.ofNat_uInt8ToNat]
        rfl
      rw [List.cons_append, nextComponentFrom, if_pos digit, next, List.foldl_cons]
      exact ih (fun d member => all d (List.mem_cons_of_mem _ member)) _

theorem nextComponent_natText {n : Nat} (small : n < 2 ^ 32) {rest : Text}
    (ends : ∀ c ∈ rest.head?, isDigit c = false) :
    (nextComponent (natText n ++ rest)).1.toNat = n ∧
      (nextComponent (natText n ++ rest)).2 = afterComponent rest := by
  have read := nextComponentFrom_digits (Json.natText_digits n).2 ends 0
  have value : (natText n).foldl (fun v c => v * 10 + (c - 48).toNat) 0 = n := Json.digitsValue_natText n
  rw [value] at read
  rw [nextComponent, show (0 : UInt32) = UInt32.ofNat 0 from rfl, read]
  exact ⟨UInt32.toNat_ofNat_of_lt' small, rfl⟩

theorem identChar_plain {c : UInt8} (letter : identChar c = true) : c ≠ dot ∧ c ≠ 43 := by
  constructor <;> rintro rfl <;> exact absurd letter (by decide)

namespace Identifier

theorem text_plain {ident : Identifier} (valid : ident.Valid) :
    ident.text ≠ [] ∧ ∀ c ∈ ident.text, identChar c = true := by
  cases ident with
  | numeric number =>
      obtain ⟨some_digits, all⟩ := Json.natText_digits number
      refine ⟨some_digits, fun c member => ?_⟩
      simp [identChar, isDigit_eq, all c member]
  | alphanumeric letters =>
      obtain ⟨all, c, member, -⟩ := valid
      exact ⟨List.ne_nil_of_mem member, all⟩

theorem read_text {ident : Identifier} (valid : ident.Valid) : readIdentifier ident.text = ident := by
  cases ident with
  | numeric number =>
      have numeric := isNumeric_iff.mpr (Json.natText_digits number)
      rw [text, readIdentifier, if_pos numeric, Json.digitsValue_natText]
  | alphanumeric letters =>
      obtain ⟨-, c, member, other⟩ := valid
      have letters_only : ¬ isNumeric letters = true := fun numeric => by
        have digit := (isNumeric_iff.mp numeric).2 c member
        rw [← isDigit_eq, other] at digit
        cases digit
      rw [text, readIdentifier, if_neg letters_only]

end Identifier

namespace Version

variable (v : Version)

theorem buildText_ends : ∀ c ∈ v.buildText.head?, c = 43 := by
  intro c first
  unfold buildText at first
  split at first <;> simp_all

theorem preText_ends : ∀ c ∈ (v.preText ++ v.buildText).head?, c = 45 ∨ c = 43 := by
  intro c first
  unfold preText at first
  split at first
  · exact .inr (v.buildText_ends c first)
  · exact .inl (by simpa using first.symm)

theorem preText_stops : ∀ c ∈ (v.preText ++ v.buildText).head?, isDigit c = false ∧ c ≠ dot := by
  intro c first
  obtain rfl | rfl := v.preText_ends c first <;> decide

theorem identifiers_plain : ∀ c ∈ [dot].intercalate (v.pre.map Identifier.text), c ≠ 43 := by
  intro c member
  obtain rfl | ⟨part, inside, here⟩ := mem_intercalate member
  · decide
  · obtain ⟨ident, known, rfl⟩ := List.mem_map.mp inside
    exact (identChar_plain ((Identifier.text_plain (v.pre_valid ident known)).2 c here)).2

theorem identifiersOf_text (some_identifiers : v.pre ≠ []) :
    identifiersOf ([dot].intercalate (v.pre.map Identifier.text) ++ v.buildText) = v.pre := by
  have taken : (([dot].intercalate (v.pre.map Identifier.text) ++ v.buildText).takeWhile
      fun c => !endOfPre c) = [dot].intercalate (v.pre.map Identifier.text) :=
    takeWhile_run (fun c member => by simp [endOfPre, v.identifiers_plain c member]) fun c first => by
      simp [endOfPre, v.buildText_ends c first]
  have plain : ∀ part ∈ v.pre.map Identifier.text, dot ∉ part := by
    intro part member inside
    obtain ⟨ident, known, rfl⟩ := List.mem_map.mp member
    exact (identChar_plain ((Identifier.text_plain (v.pre_valid ident known)).2 dot inside)).1 rfl
  have read : ∀ ident ∈ v.pre, readIdentifier ident.text = ident :=
    fun ident known => Identifier.read_text (v.pre_valid ident known)
  rw [identifiersOf, taken, List.splitOn_intercalate dot plain (by simpa using some_identifiers),
    List.map_map]
  exact (List.map_congr_left read).trans (List.map_id _)

theorem hasPre_text (some_identifiers : v.pre ≠ []) :
    hasPre ([dot].intercalate (v.pre.map Identifier.text) ++ v.buildText) = true := by
  obtain ⟨ident, rest, whole⟩ := List.exists_cons_of_ne_nil some_identifiers
  obtain ⟨some_letters, letters⟩ := Identifier.text_plain (v.pre_valid ident (by simp [whole]))
  obtain ⟨c, tail, ident_text⟩ := List.exists_cons_of_ne_nil some_letters
  have letter := (identChar_plain (letters c (by simp [ident_text]))).2
  cases rest with
  | nil => simp [whole, ident_text, hasPre, endOfPre, letter]
  | cons next rest =>
      simp [whole, ident_text, hasPre, endOfPre, letter, List.intercalate_cons_cons]

/-- Behind the numbers the pre-release begins. -/
theorem preRelease_text : preRelease v.text = preRelease (v.preText ++ v.buildText) := by
  have core : ∀ c ∈ natText v.major ++ dot :: (natText v.minor ++ dot :: natText v.patch),
      (isDigit c || c = dot) = true := by
    intro c member
    have digits (n : Nat) (inside : c ∈ natText n) : isDigit c = true :=
      (isDigit_eq c).trans ((Json.natText_digits n).2 c inside)
    simp only [List.mem_append, List.mem_cons] at member
    rcases member with major | rfl | minor | rfl | patch
    · simp [digits _ major]
    · rfl
    · simp [digits _ minor]
    · rfl
    · simp [digits _ patch]
  have split : v.text = (natText v.major ++ dot :: (natText v.minor ++ dot :: natText v.patch)) ++
      (v.preText ++ v.buildText) := by
    simp [text]
  rw [split, preRelease, List.dropWhile_append_of_pos core]
  rfl

theorem precedenceOf_pre :
    (if hasPre (preRelease v.text) then identifiersOf (preRelease v.text) else []) = v.pre := by
  rw [preRelease_text]
  by_cases none : v.pre = []
  · have plain : hasPre (preRelease v.buildText) = false := by
      have ends := v.buildText_ends
      cases build : v.buildText with
      | nil => rfl
      | cons c rest =>
          obtain rfl : c = 43 := ends c (by rw [build]; rfl)
          rfl
    rw [preText, if_pos none, List.nil_append, plain, none]
    rfl
  · have begins : preRelease (v.preText ++ v.buildText) =
        [dot].intercalate (v.pre.map Identifier.text) ++ v.buildText := by
      rw [preText, if_neg none]
      rfl
    rw [begins, v.hasPre_text none, if_pos rfl, v.identifiersOf_text none]

theorem precedenceOf_text (small : v.Small) : precedenceOf v.text = v.toPrecedence := by
  obtain ⟨major, minor, patch⟩ := small
  have dotted (rest : Text) : ∀ c ∈ (dot :: rest).head?, isDigit c = false := by
    intro c first
    obtain rfl : dot = c := by simpa using first
    rfl
  obtain ⟨majorValue, afterMajor⟩ := nextComponent_natText major
    (dotted (natText v.minor ++ dot :: (natText v.patch ++ (v.preText ++ v.buildText))))
  obtain ⟨minorValue, afterMinor⟩ := nextComponent_natText minor
    (dotted (natText v.patch ++ (v.preText ++ v.buildText)))
  obtain ⟨patchValue, -⟩ := nextComponent_natText patch fun c first => (v.preText_stops c first).1
  have second : (nextComponent v.text).2 =
      natText v.minor ++ dot :: (natText v.patch ++ (v.preText ++ v.buildText)) := afterMajor
  have third : (nextComponent (nextComponent v.text).2).2 =
      natText v.patch ++ (v.preText ++ v.buildText) := by
    rw [second]
    exact afterMinor
  rw [precedenceOf, precedenceOf_pre, third, second, minorValue, patchValue]
  rw [show (nextComponent v.text).1.toNat = v.major from majorValue]

end Version

/-! ## The order, and the updates -/

theorem compareSemverPrecedence_versions {v w : Version} (smallV : v.Small) (smallW : w.Small) :
    compareSemverPrecedence v.text w.text = sign (v.toPrecedence.compare w.toPrecedence) := by
  rw [compareSemverPrecedence_eq, v.precedenceOf_text smallV, w.precedenceOf_text smallW]

theorem compareSemverPrecedence_swap (a b : Text) :
    compareSemverPrecedence b a = -compareSemverPrecedence a b := by
  rw [compareSemverPrecedence_eq, compareSemverPrecedence_eq, ← sign_swap,
    ← @Std.OrientedCmp.eq_swap _ Precedence.compare]

theorem compareSemverPrecedence_trans {a b c : Text} (lower : compareSemverPrecedence a b ≤ 0)
    (upper : compareSemverPrecedence b c ≤ 0) : compareSemverPrecedence a c ≤ 0 := by
  rw [compareSemverPrecedence_eq, sign_le_zero] at lower upper ⊢
  exact Std.TransCmp.isLE_trans lower upper

/-- A board that runs `current` takes the update to `latest` from some manifest. -/
def Updates (current latest : Text) : Prop :=
  ∃ manifestChannel ownChannel badver url sha256 inRollout,
    Strikes.decideOtaUpdate manifestChannel ownChannel latest current badver url sha256 inRollout = .update

theorem Updates.newer {current latest : Text} (updates : Updates current latest) :
    compareSemverPrecedence latest current = 1 := by
  obtain ⟨_, _, _, _, _, _, decided⟩ := updates
  have newer := (Strikes.decideOtaUpdate_update decided).2.1
  rw [isNewerVersionOta, decide_eq_true_eq, compareSemverPrecedence_eq, gt_iff_lt, sign_pos] at newer
  rw [compareSemverPrecedence_eq, newer]
  rfl

/-- Step by step the version only goes up. -/
theorem updates_newer {first last : Text} (updates : Relation.TransGen Updates first last) :
    compareSemverPrecedence last first = 1 := by
  induction updates with
  | single step => exact step.newer
  | tail _ step ih =>
      have newer := step.newer
      rw [compareSemverPrecedence_eq] at ih newer ⊢
      have above := sign_pos.mp (ih ▸ Int.zero_lt_one)
      have next := sign_pos.mp (newer ▸ Int.zero_lt_one)
      rw [Std.TransCmp.gt_trans next above]
      rfl

/-- On every string the comparison is a total preorder, on the texts of versions it is the
order of section 11, and no chain of updates comes back to a version. -/
theorem version_order :
    (∀ v, compareSemverPrecedence v v = 0) ∧
    (∀ a b, compareSemverPrecedence b a = -compareSemverPrecedence a b) ∧
    (∀ a b c, compareSemverPrecedence a b ≤ 0 → compareSemverPrecedence b c ≤ 0 →
      compareSemverPrecedence a c ≤ 0) ∧
    (∀ v w : Version, v.Small → w.Small →
      compareSemverPrecedence v.text w.text = sign (v.toPrecedence.compare w.toPrecedence)) ∧
    (∀ current latest, Updates current latest → compareSemverPrecedence latest current = 1) ∧
    (∀ v, ¬ Relation.TransGen Updates v v) := by
  have reflexive : ∀ v, compareSemverPrecedence v v = 0 := by
    intro v
    rw [compareSemverPrecedence_eq, sign_eq_zero]
    exact Std.ReflCmp.compare_self
  refine ⟨reflexive, compareSemverPrecedence_swap, fun a b c => compareSemverPrecedence_trans,
    fun v w => compareSemverPrecedence_versions, fun current latest => Updates.newer, ?_⟩
  intro v cycle
  have above := updates_newer cycle
  rw [reflexive] at above
  cases above

end FryFirmware.Ota
