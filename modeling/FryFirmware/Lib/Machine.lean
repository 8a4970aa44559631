import Mathlib.Algebra.Ring.Nat
import Mathlib.Data.Nat.Basic
import Mathlib.Tactic.Common

/-!
# Unsigned machine arithmetic on naturals

A C conversion to an unsigned type of `width` bits and an unsigned
subtraction in that type, both with wrap-around.
-/

set_option autoImplicit false

namespace FryFirmware.Lib

/-- Conversion to an unsigned type of `width` bits. -/
def truncate (width value : Nat) : Nat := value % 2 ^ width

/-- Subtraction in an unsigned type of `width` bits. -/
def wrapSub (width left right : Nat) : Nat :=
  (left + (2 ^ width - right % 2 ^ width)) % 2 ^ width

theorem truncate_of_lt {width value : Nat} (small : value < 2 ^ width) :
    truncate width value = value :=
  Nat.mod_eq_of_lt small

theorem wrapSub_of_le {width left right : Nat} (ordered : right ≤ left)
    (small : left < 2 ^ width) : wrapSub width left right = left - right := by
  have reduced : right % 2 ^ width = right := Nat.mod_eq_of_lt (by omega)
  have shifted : left + (2 ^ width - right) = left - right + 2 ^ width := by omega
  rw [wrapSub, reduced, shifted, Nat.add_mod_right, Nat.mod_eq_of_lt (by omega)]

end FryFirmware.Lib
