import FryFirmware.Lib.Decimal
import FryFirmware.Lib.Joined
import FryFirmware.Ota.Semver
import Mathlib.Data.List.Basic
import Mathlib.Tactic.Common

/-!
# Precedence of versions

What section 11 of SemVer compares, and that `compareSemverPrecedence` compares it: on
every string the answer is the order of two such precedences.
-/

set_option autoImplicit false

namespace FryFirmware.Ota

open Config (Text)
open Lib
open Lib.Json (digitsValue)

/-! ## Section 11 -/

/-- An identifier of a pre-release. -/
inductive Identifier where
  | numeric (number : Nat)
  | alphanumeric (letters : Text)
  deriving DecidableEq, Repr

/-- Numbers by value, letters by their codes, and every number below all letters. -/
def Identifier.compare : Identifier → Identifier → Ordering
  | .numeric a, .numeric b => Ord.compare a b
  | .numeric _, .alphanumeric _ => .lt
  | .alphanumeric _, .numeric _ => .gt
  | .alphanumeric a, .alphanumeric b => Ord.compare a b

instance : Ord Identifier where
  compare := Identifier.compare

namespace Identifier

variable {a b : Nat} {s t : Text}

@[simp] theorem compare_numbers : Ord.compare (numeric a) (numeric b) = Ord.compare a b := rfl
@[simp] theorem compare_below : Ord.compare (numeric a) (alphanumeric t) = .lt := rfl
@[simp] theorem compare_above : Ord.compare (alphanumeric s) (numeric b) = .gt := rfl
@[simp] theorem compare_letters : Ord.compare (alphanumeric s) (alphanumeric t) = Ord.compare s t := rfl

end Identifier

instance : Std.TransOrd Identifier where
  eq_swap := by
    intro a b
    cases a <;> cases b
    · exact Std.OrientedOrd.eq_swap (α := Nat)
    · rfl
    · rfl
    · exact Std.OrientedOrd.eq_swap (α := Text)
  isLE_trans := by
    intro a b c
    cases a <;> cases b <;> cases c <;>
      first
      | exact Std.TransOrd.isLE_trans (α := Nat)
      | exact Std.TransOrd.isLE_trans (α := Text)
      | simp

/-- What a version is ordered by; a release has no identifiers. -/
structure Precedence where
  major : Nat
  minor : Nat
  patch : Nat
  pre : List Identifier
  deriving DecidableEq, Repr

/-- The numbers in turn; then a release is above its pre-releases, and these are ordered
by their identifiers in turn, the longer list above where one is a part of the other. -/
def Precedence.compare : Precedence → Precedence → Ordering :=
  compareLex (compareOn Precedence.major) <|
    compareLex (compareOn Precedence.minor) <|
      compareLex (compareOn Precedence.patch) <|
        compareLex (compareOn fun v => v.pre.isEmpty) (compareOn Precedence.pre)

instance : Std.TransCmp Precedence.compare := by
  unfold Precedence.compare
  infer_instance

/-! ## The precedence of a string -/

theorem isDigit_eq (c : UInt8) : isDigit c = Json.isDigit c := by
  simp [isDigit, Json.isDigit, UInt8.le_iff_toNat_le]

def isNumeric (ident : Text) : Bool := ident ≠ [] && ident.all isDigit

def readIdentifier (ident : Text) : Identifier :=
  if isNumeric ident then .numeric (digitsValue ident) else .alphanumeric ident

/-- The identifiers in front of a `+`. -/
def identifiersOf (pre : Text) : List Identifier :=
  ((pre.takeWhile fun c => !endOfPre c).splitOn dot).map readIdentifier

def precedenceOf (v : Text) : Precedence where
  major := (nextComponent v).1.toNat
  minor := (nextComponent (nextComponent v).2).1.toNat
  patch := (nextComponent (nextComponent (nextComponent v).2).2).1.toNat
  pre := if hasPre (preRelease v) then identifiersOf (preRelease v) else []

/-! ## Identifiers -/

theorem compareBytes_eq (a b : Text) : compareBytes a b = sign (compare a b) := by
  induction a generalizing b with
  | nil => cases b <;> rfl
  | cons c a ih =>
      cases b with
      | nil => rfl
      | cons d b =>
          rw [compareBytes, List.compare_cons_cons, ih b]
          by_cases same : c = d
          · subst same
            rw [Std.ReflOrd.compare_self, Ordering.eq_then, if_neg (not_not_intro rfl)]
          · rw [if_pos same]
            by_cases less : c < d
            · rw [if_pos less, Std.compare_eq_lt.mpr less]
              rfl
            · have greater : d < c := by
                have order := UInt8.lt_or_lt_of_ne same
                simpa [less] using order
              rw [if_neg less, Std.compare_eq_gt.mpr greater]
              rfl

theorem skipZeros_canonical {ident : Text} (nonempty : ident ≠ [])
    (all : ∀ c ∈ ident, Json.isDigit c = true) :
    Decimal.Canonical (skipZeros ident) ∧ digitsValue (skipZeros ident) = digitsValue ident := by
  fun_induction skipZeros ident with
  | case1 => exact absurd rfl nonempty
  | case2 c => exact ⟨⟨nonempty, all, .inl rfl⟩, rfl⟩
  | case3 d rest ih =>
      obtain ⟨canonical, value⟩ :=
        ih (List.cons_ne_nil _ _) fun c member => all c (List.mem_cons_of_mem _ member)
      refine ⟨canonical, ?_⟩
      rw [value, Decimal.digitsValue_cons 48]
      simp
  | case4 c d rest other => exact ⟨⟨nonempty, all, .inr (by simpa using other)⟩, rfl⟩

theorem isNumeric_iff {ident : Text} :
    isNumeric ident = true ↔ ident ≠ [] ∧ ∀ c ∈ ident, Json.isDigit c = true := by
  simp [isNumeric, isDigit_eq]

theorem compareIdent_eq (a b : Text) :
    compareIdent a (isNumeric a) b (isNumeric b) = sign (compare (readIdentifier a) (readIdentifier b)) := by
  cases numericA : isNumeric a <;> cases numericB : isNumeric b <;>
    simp only [compareIdent, readIdentifier, numericA, numericB]
  · exact compareBytes_eq a b
  · rfl
  · rfl
  · obtain ⟨someA, allA⟩ := isNumeric_iff.mp numericA
    obtain ⟨someB, allB⟩ := isNumeric_iff.mp numericB
    obtain ⟨canonicalA, valueA⟩ := skipZeros_canonical someA allA
    obtain ⟨canonicalB, valueB⟩ := skipZeros_canonical someB allB
    simp only [if_true, Bool.and_self, Identifier.compare_numbers, ← valueA, ← valueB, compareBytes_eq]
    rcases Nat.lt_trichotomy (skipZeros a).length (skipZeros b).length with shorter | same | longer
    · have less := Decimal.value_lt_of_shorter canonicalA canonicalB shorter
      rw [if_pos shorter.ne, if_pos shorter, Std.compare_eq_lt.mpr less]
      rfl
    · have order := Decimal.compare_of_length_eq same canonicalA.2.1 canonicalB.2.1
      rw [if_neg (not_not_intro same), order]
    · have less := Decimal.value_lt_of_shorter canonicalB canonicalA longer
      rw [if_pos longer.ne', if_neg (Nat.not_lt.mpr longer.le), Std.compare_eq_gt.mpr less]
      rfl

/-! ## Lists of identifiers -/

def notDot (c : UInt8) : Bool := c ≠ dot

theorem identAt_eq (p : Text) :
    (identAt p).1 = (p.takeWhile fun c => !endOfPre c).takeWhile notDot ∧
      (identAt p).2 = isNumeric (identAt p).1 := by
  refine ⟨?_, rfl⟩
  have same : (fun c => !endOfIdent c) = fun c => decide (notDot c = true ∧ (!endOfPre c) = true) := by
    funext c
    simp [endOfIdent, notDot, Bool.and_comm]
  rw [List.takeWhile_takeWhile, ← same]
  rfl

/-- After an identifier come the next one behind a dot, or the end of the list. -/
theorem identifiersOf_eq (p : Text) :
    identifiersOf p = readIdentifier (identAt p).1 ::
      match p.drop (identAt p).1.length with
      | [] => []
      | more :: next => if more = dot then identifiersOf next else [] := by
  rw [(identAt_eq p).1, identifiersOf]
  obtain ⟨body, after, rfl, inside, stops, taken, -⟩ := run_split (fun c => !endOfPre c) p
  obtain ⟨ident, rest, rfl, letters, ends, front, -⟩ := run_split notDot body
  have plain : dot ∉ ident := fun member => by
    simpa [notDot] using letters dot member
  rw [taken, front]
  cases rest with
  | nil =>
      rw [List.append_nil, List.splitOn_eq_singleton plain, List.drop_left]
      cases after with
      | nil => rfl
      | cons c after =>
          have plus : c ≠ dot := by
            rintro rfl
            cases stops dot rfl
          simp [plus]
  | cons c next =>
      obtain rfl : c = dot := by simpa [notDot] using ends c rfl
      have same : ((next ++ after).takeWhile fun c => !endOfPre c) = next :=
        takeWhile_run (fun c member => inside c (by simp [member])) stops
      rw [List.splitOn_append_cons_self_of_not_mem plain, List.append_assoc, List.drop_left]
      simp [identifiersOf, same]

@[simp] theorem compare_nil_identifiers (p : Text) : compare [] (identifiersOf p) = .lt := by
  rw [identifiersOf_eq]
  rfl

@[simp] theorem compare_identifiers_nil (p : Text) : compare (identifiersOf p) [] = .gt := by
  rw [identifiersOf_eq]
  rfl

theorem identifiersOf_isEmpty (p : Text) : (identifiersOf p).isEmpty = false := by
  rw [identifiersOf_eq]
  rfl

theorem comparePre_eq (pa pb : Text) :
    comparePre pa pb = sign (compare (identifiersOf pa) (identifiersOf pb)) := by
  induction size : pa.length using Nat.strongRecOn generalizing pa pb with
  | ind size ih =>
      subst size
      rw [comparePre, identifiersOf_eq pa, identifiersOf_eq pb, List.compare_cons_cons, sign_then,
        (identAt_eq pa).2, (identAt_eq pb).2, compareIdent_eq]
      split
      · rfl
      · split
        · next moreA nextA moreB nextB restA restB =>
            have shorter := congrArg List.length restA
            simp only [List.length_drop, List.length_cons] at shorter
            have later := ih nextA.length (by omega) nextA nextB rfl
            by_cases dotA : moreA = dot <;> by_cases dotB : moreB = dot <;>
              simp [restA, restB, dotA, dotB, later]
        · next moreA nextA restA restB =>
            by_cases dotA : moreA = dot <;> simp [restA, restB, dotA]
        · next moreB nextB restA restB =>
            by_cases dotB : moreB = dot <;> simp [restA, restB, dotB]
        · next restA restB =>
            simp [restA, restB]

theorem compareComponents_succ (pa pb : Text) (left : Nat) :
    compareComponents pa pb (left + 1) =
      if sign (compare (nextComponent pa).1.toNat (nextComponent pb).1.toNat) ≠ 0 then
        sign (compare (nextComponent pa).1.toNat (nextComponent pb).1.toNat)
      else compareComponents (nextComponent pa).2 (nextComponent pb).2 left := by
  simp only [compareComponents, UInt32.lt_iff_toNat_lt, gt_iff_lt]
  rcases Nat.lt_trichotomy (nextComponent pa).1.toNat (nextComponent pb).1.toNat with less | same | greater
  · rw [if_pos less, Std.compare_eq_lt.mpr less]
    rfl
  · rw [same, Std.ReflOrd.compare_self]
    simp
  · rw [if_neg (Nat.not_lt.mpr greater.le), if_pos greater, Std.compare_eq_gt.mpr greater]
    rfl

/-- The answer is the order of the precedences. -/
theorem compareSemverPrecedence_eq (a b : Text) :
    compareSemverPrecedence a b = sign ((precedenceOf a).compare (precedenceOf b)) := by
  have pre : (if (!hasPre (preRelease a) || !hasPre (preRelease b)) = true then
        if hasPre (preRelease a) = hasPre (preRelease b) then 0
        else if hasPre (preRelease a) = true then -1 else 1
      else comparePre (preRelease a) (preRelease b)) =
      sign ((compare (precedenceOf a).pre.isEmpty (precedenceOf b).pre.isEmpty).then
        (compare (precedenceOf a).pre (precedenceOf b).pre)) := by
    simp only [precedenceOf]
    cases hasPre (preRelease a) <;> cases hasPre (preRelease b)
    · rfl
    · simp only [if_true, identifiersOf_isEmpty]
      rfl
    · simp only [if_true, identifiersOf_isEmpty]
      rfl
    · simp only [if_true, identifiersOf_isEmpty, comparePre_eq]
      rfl
  simp only [compareSemverPrecedence, compareSemver, compareComponents_succ, pre]
  simp only [Precedence.compare, compareLex, compareOn, sign_then]
  simp only [precedenceOf, compareComponents]
  split_ifs <;> simp_all

end FryFirmware.Ota
