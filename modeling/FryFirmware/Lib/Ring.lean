import Mathlib.Data.List.Basic
import Mathlib.Tactic.Common

/-!
# A ring of slots

Slots that are written in turn, the oldest first. Of all the values written, the ring holds
the last ones, as many as it has slots.
-/

set_option autoImplicit false

namespace FryFirmware.Lib

/-- The slots, and the one that is written next. -/
structure Ring (n : Nat) (α : Type) where
  slots : Vector α n
  next : Fin n
  deriving DecidableEq, Repr

namespace Ring

variable {n : Nat} {α : Type}

def blank (n : Nat) (empty : α) : Ring (n + 1) α :=
  { slots := Vector.replicate (n + 1) empty, next := 0 }

def push (r : Ring n α) (value : α) : Ring n α :=
  { slots := r.slots.set r.next value, next := ⟨(r.next + 1) % n, Nat.mod_lt _ r.next.pos⟩ }

/-- What the slots held at first and what was written since, oldest first. -/
def history (n : Nat) (empty : α) (written : List α) : List α := List.replicate n empty ++ written

/-- The ring after these writes: each of the last values of the history stands in the slot of
its turn. -/
structure Holds (empty : α) (written : List α) (r : Ring n α) : Prop where
  next : r.next = written.length % n
  slot : ∀ k < n, r.slots[(written.length + k) % n]? = (history n empty written)[written.length + k]?

theorem blank_holds (n : Nat) (empty : α) : (blank n empty).Holds empty [] where
  next := rfl
  slot k inside := by
    simp [blank, history, Nat.mod_eq_of_lt inside, inside]

theorem add_mod_ne {m k n : Nat} (positive : 0 < k) (less : k < n) : (m + k) % n ≠ m % n := by
  intro same
  have whole := Nat.sub_mod_eq_zero_of_mod_eq same
  rw [Nat.add_sub_cancel_left, Nat.mod_eq_of_lt less] at whole
  omega

theorem Holds.push {empty : α} {written : List α} {r : Ring n α} (holds : r.Holds empty written)
    (value : α) : (r.push value).Holds empty (written ++ [value]) where
  next := by
    simp only [Ring.push, holds.next, List.length_append, List.length_singleton, Nat.mod_add_mod]
  slot k inside := by
    simp only [Ring.push, List.length_append, List.length_singleton, Vector.getElem?_set, holds.next]
    have shifted : written.length + 1 + k = written.length + (k + 1) := by omega
    rw [shifted]
    rcases Nat.lt_or_eq_of_le (Nat.succ_le_of_lt inside) with earlier | last
    · have other : ¬ written.length % n = (written.length + (k + 1)) % n := fun same =>
        add_mod_ne (Nat.succ_pos k) earlier same.symm
      have old : written.length + (k + 1) < (List.replicate n empty ++ written).length := by
        simp only [List.length_append, List.length_replicate]
        omega
      rw [if_neg other, holds.slot (k + 1) earlier, history, history, ← List.append_assoc,
        List.getElem?_append_left old]
    · have own : written.length % n = (written.length + (k + 1)) % n := by
        rw [show k + 1 = n from last, Nat.add_mod_right]
      rw [if_pos own, history, ← List.append_assoc, List.getElem?_append_right]
      · simp only [List.length_append, List.length_replicate]
        rw [show written.length + (k + 1) - (n + written.length) = 0 by omega]
        rfl
      · simp only [List.length_append, List.length_replicate]
        omega

/-- Every slot has its turn among the last ones. -/
theorem exists_turn {m i n : Nat} (inside : i < n) : ∃ k < n, (m + k) % n = i := by
  have positive : 0 < n := by omega
  have parts := Nat.div_add_mod m n
  have low := Nat.mod_lt m positive
  by_cases before : m % n ≤ i
  · refine ⟨i - m % n, by omega, ?_⟩
    rw [show m + (i - m % n) = n * (m / n) + i by omega, Nat.mul_add_mod, Nat.mod_eq_of_lt inside]
  · refine ⟨n + i - m % n, by omega, ?_⟩
    rw [show m + (n + i - m % n) = n * (m / n) + (n + i) by omega, Nat.mul_add_mod,
      Nat.add_mod_left, Nat.mod_eq_of_lt inside]

/-- The last values written, as many as there are slots. -/
def recent (n : Nat) (written : List α) : List α := written.drop (written.length - n)

theorem drop_history (n : Nat) (empty : α) (written : List α) :
    (history n empty written).drop written.length =
      List.replicate (n - written.length) empty ++ recent n written := by
  rw [history, List.drop_append, List.drop_replicate, List.length_replicate, recent]

/-- A value other than the empty one is in the ring when it is among the last written. -/
theorem Holds.mem_iff {empty : α} {written : List α} {r : Ring n α} (holds : r.Holds empty written)
    {value : α} (proper : value ≠ empty) : value ∈ r.slots ↔ value ∈ recent n written := by
  have in_history : value ∈ (history n empty written).drop written.length ↔
      value ∈ recent n written := by
    rw [drop_history, List.mem_append, List.mem_replicate]
    exact ⟨fun either => either.resolve_left fun blank => proper blank.2, .inr⟩
  rw [← in_history, Vector.mem_iff_getElem?, List.mem_iff_getElem?]
  constructor
  · rintro ⟨i, found⟩
    have inside : i < n := by
      by_contra far
      rw [Vector.getElem?_eq_none (Nat.not_lt.mp far)] at found
      cases found
    obtain ⟨k, small, rfl⟩ := @exists_turn written.length i n inside
    exact ⟨k, by rw [List.getElem?_drop, ← holds.slot k small, found]⟩
  · rintro ⟨k, found⟩
    have small : k < n := by
      by_contra far
      rw [List.getElem?_eq_none] at found
      · cases found
      · simp only [history, List.length_drop, List.length_append, List.length_replicate]
        omega
    rw [List.getElem?_drop, ← holds.slot k small] at found
    exact ⟨_, found⟩

/-- A value that was written and is no longer among the last has all of them behind it. -/
theorem recent_behind {front back : List α} {value : α}
    (gone : value ∉ recent n (front ++ value :: back)) :
    recent n (front ++ value :: back) <:+ back ∧ (recent n (front ++ value :: back)).length = n := by
  have long : n ≤ back.length := by
    by_contra short
    refine gone ?_
    rw [recent, List.drop_append_of_le_length]
    · simp
    · simp only [List.length_append, List.length_cons]
      omega
  constructor
  · rw [recent, List.append_cons, List.drop_append, List.drop_eq_nil_of_le, List.nil_append]
    · exact List.drop_suffix _ _
    · simp only [List.length_append, List.length_cons, List.length_nil]
      omega
  · simp only [recent, List.length_drop, List.length_append, List.length_cons]
    omega

/-- When only values that are not among the last are written, the last ones differ. -/
theorem recent_nodup {written : List α} {value : α} (distinct : (recent n written).Nodup)
    (new : value ∉ recent n written) : (recent n (written ++ [value])).Nodup := by
  have shorter : (written.drop (written.length + 1 - n)).Sublist (recent n written) :=
    List.drop_sublist_drop_left written (by omega)
  have tail : (recent n (written ++ [value])).Sublist
      (written.drop (written.length + 1 - n) ++ [value]) := by
    rw [recent, List.length_append, List.length_singleton, List.drop_append]
    exact List.Sublist.append_left (List.drop_sublist _ _) _
  refine tail.nodup (List.nodup_append.mpr ⟨shorter.nodup distinct, by simp, ?_⟩)
  intro x old y one
  rw [List.mem_singleton.mp one]
  rintro rfl
  exact new (shorter.subset old)

end Ring

end FryFirmware.Lib
