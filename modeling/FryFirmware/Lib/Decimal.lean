import FryFirmware.Lib.JsonProperties
import Mathlib.Data.List.Basic
import Mathlib.Tactic.Common
import Mathlib.Tactic.Ring

/-!
# Decimals

The order of two decimals by their digits, and comparisons answered as `-1`, `0` and `1`.
-/

set_option autoImplicit false

namespace FryFirmware.Lib

open Json (isDigit digitsValue)

/-! ## Answers of a comparison -/

def sign : Ordering → Int
  | .lt => -1
  | .eq => 0
  | .gt => 1

@[simp] theorem sign_lt : sign .lt = -1 := rfl
@[simp] theorem sign_eq : sign .eq = 0 := rfl
@[simp] theorem sign_gt : sign .gt = 1 := rfl

theorem sign_eq_zero {o : Ordering} : sign o = 0 ↔ o = .eq := by
  cases o <;> decide

theorem sign_pos {o : Ordering} : 0 < sign o ↔ o = .gt := by
  cases o <;> decide

theorem sign_le_zero {o : Ordering} : sign o ≤ 0 ↔ o.isLE := by
  cases o <;> decide

theorem sign_swap (o : Ordering) : sign o.swap = -sign o := by
  cases o <;> rfl

theorem sign_then (o next : Ordering) :
    sign (o.then next) = if sign o ≠ 0 then sign o else sign next := by
  cases o <;> rfl

/-! ## Decimals by their digits -/

namespace Decimal

theorem digit_lt {c : UInt8} (digit : isDigit c = true) : 48 ≤ c.toNat ∧ (c - 48).toNat = c.toNat - 48 ∧
    c.toNat - 48 < 10 := by
  simp only [isDigit, Bool.and_eq_true, decide_eq_true_eq] at digit
  have low : (48 : UInt8) ≤ c := UInt8.le_iff_toNat_le.mpr digit.1
  refine ⟨digit.1, UInt8.toNat_sub_of_le _ _ low, ?_⟩
  omega

theorem digitsValue_append (digits : Json.Bytes) (c : UInt8) :
    digitsValue (digits ++ [c]) = digitsValue digits * 10 + (c - 48).toNat := by
  simp [digitsValue]

theorem foldl_value (digits : Json.Bytes) (v : Nat) :
    digits.foldl (fun v c => v * 10 + (c - 48).toNat) v = v * 10 ^ digits.length + digitsValue digits := by
  induction digits using List.reverseRecOn with
  | nil => simp [digitsValue]
  | append_singleton digits c ih =>
      rw [digitsValue_append, List.foldl_append, ih, List.length_append, List.length_singleton]
      simp only [List.foldl_cons, List.foldl_nil]
      ring

theorem digitsValue_cons (c : UInt8) (digits : Json.Bytes) :
    digitsValue (c :: digits) = (c - 48).toNat * 10 ^ digits.length + digitsValue digits := by
  have split := foldl_value digits (c - 48).toNat
  simpa [digitsValue] using split

theorem scale_lt (scale : Nat) {high low rest : Nat} (less : low < high) (small : rest < scale) :
    low * scale + rest < high * scale := by
  calc low * scale + rest < low * scale + scale := Nat.add_lt_add_left small _
    _ = (low + 1) * scale := by ring
    _ ≤ high * scale := Nat.mul_le_mul_right _ less

theorem digitsValue_lt {digits : Json.Bytes} (all : ∀ c ∈ digits, isDigit c = true) :
    digitsValue digits < 10 ^ digits.length := by
  induction digits with
  | nil => simp [digitsValue]
  | cons c digits ih =>
      obtain ⟨-, value, small⟩ := digit_lt (all c List.mem_cons_self)
      have later := ih fun d member => all d (List.mem_cons_of_mem _ member)
      rw [digitsValue_cons, value, List.length_cons, Nat.pow_succ]
      have whole := scale_lt (10 ^ digits.length) small later
      omega

/-- Not empty, and no zero in front of another digit. -/
def Canonical (digits : Json.Bytes) : Prop :=
  digits ≠ [] ∧ (∀ c ∈ digits, isDigit c = true) ∧ (digits.length = 1 ∨ digits.head? ≠ some 48)

theorem Canonical.le_value {digits : Json.Bytes} (canonical : Canonical digits)
    (long : 1 < digits.length) : 10 ^ (digits.length - 1) ≤ digitsValue digits := by
  obtain ⟨-, all, short | first⟩ := canonical
  · omega
  · cases digits with
    | nil => simp at long
    | cons c digits =>
        obtain ⟨low, value, -⟩ := digit_lt (all c List.mem_cons_self)
        have positive : 1 ≤ c.toNat - 48 := by
          have other : c.toNat ≠ 48 := fun same => first (by simp [UInt8.toNat.inj (b := 48) same])
          omega
        rw [digitsValue_cons, value, List.length_cons, Nat.add_sub_cancel]
        calc 10 ^ digits.length = 1 * 10 ^ digits.length := (Nat.one_mul _).symm
          _ ≤ (c.toNat - 48) * 10 ^ digits.length := Nat.mul_le_mul_right _ positive
          _ ≤ _ := Nat.le_add_right _ _

theorem value_lt_of_shorter {a b : Json.Bytes} (canonicalA : Canonical a) (canonicalB : Canonical b)
    (shorter : a.length < b.length) : digitsValue a < digitsValue b := by
  have some_digits : 0 < a.length := List.length_pos_of_ne_nil canonicalA.1
  calc digitsValue a < 10 ^ a.length := digitsValue_lt canonicalA.2.1
    _ ≤ 10 ^ (b.length - 1) := Nat.pow_le_pow_right (by decide) (by omega)
    _ ≤ digitsValue b := canonicalB.le_value (by omega)

/-- Of one length, the order of the bytes is the order of the values. -/
theorem compare_of_length_eq {a b : Json.Bytes} (same : a.length = b.length)
    (allA : ∀ c ∈ a, isDigit c = true) (allB : ∀ c ∈ b, isDigit c = true) :
    compare a b = compare (digitsValue a) (digitsValue b) := by
  induction a generalizing b with
  | nil =>
      obtain rfl := List.length_eq_zero_iff.mp same.symm
      rfl
  | cons c a ih =>
      cases b with
      | nil => simp at same
      | cons d b =>
          rw [List.length_cons, List.length_cons, Nat.add_right_cancel_iff] at same
          have laterA : ∀ e ∈ a, isDigit e = true := fun e member => allA e (List.mem_cons_of_mem _ member)
          have laterB : ∀ e ∈ b, isDigit e = true := fun e member => allB e (List.mem_cons_of_mem _ member)
          have later := ih same laterA laterB
          obtain ⟨lowC, valueC, -⟩ := digit_lt (allA c List.mem_cons_self)
          obtain ⟨lowD, valueD, -⟩ := digit_lt (allB d List.mem_cons_self)
          have restA := digitsValue_lt laterA
          have restB := digitsValue_lt laterB
          rw [List.compare_cons_cons, later, digitsValue_cons, digitsValue_cons, valueC, valueD, same]
          rw [same] at restA
          rcases Nat.lt_trichotomy c.toNat d.toNat with less | equal | greater
          · have first : compare c d = .lt := Std.compare_eq_lt.mpr (UInt8.lt_iff_toNat_lt.mpr less)
            have whole := scale_lt (10 ^ b.length) (show c.toNat - 48 < d.toNat - 48 by omega) restA
            rw [first, Ordering.lt_then]
            exact (Std.compare_eq_lt.mpr (by omega)).symm
          · obtain rfl := UInt8.toNat.inj equal
            rw [Std.ReflOrd.compare_self, Ordering.eq_then, Nat.compare_eq_ite_lt,
              Nat.compare_eq_ite_lt]
            simp only [Nat.add_lt_add_iff_left]
          · have first : compare c d = .gt := Std.compare_eq_gt.mpr (UInt8.lt_iff_toNat_lt.mpr greater)
            have whole := scale_lt (10 ^ b.length) (show d.toNat - 48 < c.toNat - 48 by omega) restB
            rw [first, Ordering.gt_then]
            exact (Std.compare_eq_gt.mpr (by omega)).symm

end Decimal

end FryFirmware.Lib
