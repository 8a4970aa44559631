import Mathlib.Data.Fintype.Card
import Mathlib.Data.Fintype.Option

/-!
# Counting references

A finite family of holders, each with at most one reference to a shared object.
The number of holders of an object follows every change of one holder.
-/

set_option autoImplicit false

namespace FryFirmware.Lib

variable {Holder Object : Type} [Fintype Holder] [DecidableEq Object]

/-- How many holders refer to `object`. -/
def references (held : Holder → Option Object) (object : Object) : Nat :=
  (Finset.univ.filter fun holder => held holder = some object).card

theorem references_eq_zero_iff {held : Holder → Option Object} {object : Object} :
    references held object = 0 ↔ ∀ holder, held holder ≠ some object := by
  simp [references, Finset.filter_eq_empty_iff]

theorem references_pos {held : Holder → Option Object} {holder : Holder} {object : Object}
    (holds : held holder = some object) : 0 < references held object := by
  rw [Nat.pos_iff_ne_zero]
  intro zero
  exact references_eq_zero_iff.mp zero holder holds

variable [DecidableEq Holder]

/-- A holder without a reference takes one. -/
theorem references_take {held : Holder → Option Object} {holder : Holder}
    (free : held holder = none) (taken object : Object) :
    references (Function.update held holder (some taken)) object =
      references held object + if taken = object then 1 else 0 := by
  unfold references
  by_cases same : taken = object
  · subst same
    have grown : (Finset.univ.filter fun other =>
        Function.update held holder (some taken) other = some taken) =
        insert holder (Finset.univ.filter fun other => held other = some taken) := by
      ext other
      by_cases own : other = holder
      · subst own
        simp
      · simp [own]
    rw [grown, Finset.card_insert_of_notMem (by simp [free]), if_pos rfl]
  · rw [if_neg same, Nat.add_zero]
    congr 1
    ext other
    by_cases own : other = holder
    · subst own
      simp [free, same]
    · simp [Function.update_of_ne own]

/-- A holder gives its reference up. -/
theorem references_drop {held : Holder → Option Object} {holder : Holder} {dropped : Object}
    (holds : held holder = some dropped) (object : Object) :
    references (Function.update held holder none) object =
      references held object - if dropped = object then 1 else 0 := by
  have restored : Function.update (Function.update held holder none) holder (some dropped) =
      held := by
    rw [Function.update_idem, ← holds, Function.update_eq_self]
  have free : Function.update held holder none holder = none := Function.update_self ..
  have taken := references_take free dropped object
  rw [restored] at taken
  omega

end FryFirmware.Lib
