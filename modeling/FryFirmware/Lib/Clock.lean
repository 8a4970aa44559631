import Mathlib.Algebra.Ring.Nat
import Mathlib.Tactic.Common

/-!
# A counter of 32 bits and the time behind it

The counter shows the time modulo `2 ^ 32`. Differences of its readings are never longer
than the time that passed, and exact while that is short enough. A difference of other
quantities that must not wrap stops at zero.
-/

set_option autoImplicit false

namespace FryFirmware.Lib

/-- What the counter shows at a time. -/
def counter (time : Nat) : UInt32 := UInt32.ofNat time

theorem toNat_counter (time : Nat) : (counter time).toNat = time % 2 ^ 32 := UInt32.toNat_ofNat'

theorem toNat_elapsed {start now : Nat} (ordered : start ≤ now) :
    (counter now - counter start).toNat = (now - start) % 2 ^ 32 := by
  rw [UInt32.toNat_sub, toNat_counter, toNat_counter]
  omega

/-- A delay that the counter shows has passed. -/
theorem passed_of_elapsed {limit : UInt32} {start now : Nat} (ordered : start ≤ now)
    (elapsed : limit ≤ counter now - counter start) : start + limit.toNat ≤ now := by
  rw [UInt32.le_iff_toNat_le, toNat_elapsed ordered] at elapsed
  have shorter := Nat.mod_le (now - start) (2 ^ 32)
  omega

theorem elapsed_iff {limit : UInt32} {start now : Nat} (ordered : start ≤ now)
    (recent : now < start + 2 ^ 32) :
    limit ≤ counter now - counter start ↔ start + limit.toNat ≤ now := by
  rw [UInt32.le_iff_toNat_le, toNat_elapsed ordered, Nat.mod_eq_of_lt (by omega)]
  omega

theorem more_elapsed_iff {limit : UInt32} {start now : Nat} (ordered : start ≤ now)
    (recent : now < start + 2 ^ 32) :
    limit < counter now - counter start ↔ start + limit.toNat < now := by
  rw [UInt32.lt_iff_toNat_lt, toNat_elapsed ordered, Nat.mod_eq_of_lt (by omega)]
  omega

/-- A difference that stops at zero is not above a number exactly when their sum is not below. -/
theorem floored_sub_le_iff {left taken bound : UInt32} :
    (if left > taken then left - taken else 0) ≤ bound ↔ left.toNat ≤ bound.toNat + taken.toNat := by
  split
  · next more =>
    have := UInt32.lt_iff_toNat_lt.mp more
    rw [UInt32.le_iff_toNat_le, UInt32.toNat_sub_of_le _ _ (UInt32.le_of_lt more)]
    omega
  · next less =>
    have := UInt32.le_iff_toNat_le.mp (UInt32.not_lt.mp less)
    refine iff_of_true (UInt32.le_iff_toNat_le.mpr (Nat.zero_le _)) (by omega)

end FryFirmware.Lib
