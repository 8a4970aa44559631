import Mathlib.Data.List.Basic
import Mathlib.Data.List.DropRight
import Mathlib.Data.List.GetD
import Mathlib.Data.List.Induction
import Mathlib.Data.List.Sort
import Mathlib.Order.Defs.LinearOrder
import Mathlib.Tactic.Common

/-!
# Arrays edited in place

The loops that close a gap in an array, open one, and sort an array by insertion,
and the lists they leave. An array is the list of its cells.
-/

set_option autoImplicit false

namespace FryFirmware.Lib.InPlace

variable {α : Type}

section Gaps

variable [Inhabited α]

/-- `for (; left; left--, j++) cells[j] = cells[j + 1]` -/
def closeGap (cells : List α) (j : Nat) : Nat → List α
  | 0 => cells
  | left + 1 => closeGap (cells.set j (cells.getD (j + 1) default)) (j + 1) left

/-- `for (; left; left--, j--) cells[j] = cells[j - 1]` -/
def openGap (cells : List α) (j : Nat) : Nat → List α
  | 0 => cells
  | left + 1 => openGap (cells.set j (cells.getD (j - 1) default)) (j - 1) left

@[simp] theorem length_closeGap (cells : List α) (j left : Nat) :
    (closeGap cells j left).length = cells.length := by
  induction left generalizing cells j with
  | zero => rfl
  | succ left ih => rw [closeGap, ih, List.length_set]

@[simp] theorem length_openGap (cells : List α) (j left : Nat) :
    (openGap cells j left).length = cells.length := by
  induction left generalizing cells j with
  | zero => rfl
  | succ left ih => rw [openGap, ih, List.length_set]

/-- The cells behind the gap move over it, and the last of them stays behind. -/
theorem closeGap_eq (front moved back : List α) (gap : α) :
    ∃ junk, closeGap (front ++ gap :: moved ++ back) front.length moved.length =
      front ++ moved ++ junk :: back := by
  induction moved generalizing front gap with
  | nil => exact ⟨gap, by simp [closeGap]⟩
  | cons x moved ih =>
      obtain ⟨junk, rest⟩ := ih (front ++ [x]) x
      refine ⟨junk, ?_⟩
      have next : (front ++ gap :: x :: moved ++ back).getD (front.length + 1) default = x := by
        rw [List.append_assoc, List.getD_append_right _ _ _ _ (by omega)]
        simp
      rw [List.length_cons, closeGap, next]
      simpa using rest

/-- The cells of the gap move one place to the back, over the last one. -/
theorem openGap_eq (front moved back : List α) (last : α) :
    ∃ junk, openGap (front ++ moved ++ last :: back) (front.length + moved.length) moved.length =
      front ++ junk :: moved ++ back := by
  induction moved using List.reverseRecOn generalizing last back with
  | nil => exact ⟨last, by simp [openGap]⟩
  | append_singleton moved x ih =>
      obtain ⟨junk, rest⟩ := ih (x :: back) x
      refine ⟨junk, ?_⟩
      have before : (front ++ (moved ++ [x]) ++ last :: back).getD
          (front.length + (moved.length + 1) - 1) default = x := by
        rw [show front ++ (moved ++ [x]) ++ last :: back = (front ++ moved) ++ x :: last :: back by simp,
          List.getD_append_right _ _ _ _ (by simp)]
        simp
      rw [List.length_append, List.length_singleton, openGap, before]
      have place : (front ++ (moved ++ [x]) ++ last :: back).set (front.length + (moved.length + 1)) x =
          front ++ moved ++ x :: x :: back := by
        rw [List.set_append_right _ _ (by simp)]
        simp
      rw [place, show front.length + (moved.length + 1) - 1 = front.length + moved.length by omega, rest]
      simp

end Gaps

/-! ## Insertion sort -/

section Sorting

variable [LinearOrder α]

/-- Puts `x` in front of the larger values at the end. -/
def insertBefore (x : α) (front : List α) : List α :=
  front.rdropWhile (x < ·) ++ x :: front.rtakeWhile (x < ·)

theorem insertBefore_perm (x : α) (front : List α) : (insertBefore x front).Perm (front ++ [x]) := by
  refine List.perm_middle.trans ?_
  rw [List.rdropWhile_append_rtakeWhile]
  exact (List.perm_append_singleton x front).symm

theorem insertBefore_sorted {x : α} {front : List α} (sorted : front.Pairwise (· ≤ ·)) :
    (insertBefore x front).Pairwise (· ≤ ·) := by
  induction front using List.reverseRecOn with
  | nil => simp [insertBefore]
  | append_singleton front y ih =>
      obtain ⟨earlier, -, last⟩ := List.pairwise_append.mp sorted
      have below : ∀ z ∈ front, z ≤ y := fun z member => last z member y (List.mem_singleton.mpr rfl)
      by_cases larger : x < y
      · have same : insertBefore x (front ++ [y]) = insertBefore x front ++ [y] := by
          simp [insertBefore, larger]
        rw [same, List.pairwise_append]
        refine ⟨ih earlier, by simp, fun z member other here => ?_⟩
        rw [List.mem_singleton.mp here]
        rcases List.mem_append.mp ((insertBefore_perm x front).mem_iff.mp member) with known | new
        · exact below z known
        · rw [List.mem_singleton.mp new]
          exact le_of_lt larger
      · have same : insertBefore x (front ++ [y]) = front ++ [y] ++ [x] := by
          simp [insertBefore, larger]
        rw [same, List.pairwise_append]
        refine ⟨sorted, by simp, fun z member other here => ?_⟩
        rw [List.mem_singleton.mp here]
        rcases List.mem_append.mp member with known | new
        · exact le_trans (below z known) (not_lt.mp larger)
        · rw [List.mem_singleton.mp new]
          exact not_lt.mp larger

variable [Inhabited α]

/-- The inner loop from cell `j - 1` down, and the cell where it leaves `x`:
`while (j >= 0 && cells[j] > x) { cells[j + 1] = cells[j]; j--; } cells[j + 1] = x` -/
def sink (cells : List α) (x : α) : Nat → List α
  | 0 => cells.set 0 x
  | j + 1 =>
      if cells.getD j default > x then sink (cells.set (j + 1) (cells.getD j default)) x j
      else cells.set (j + 1) x

/-- `for (i = 1; i < n; i++)`, from `i` with `left` turns to go. -/
def sortFrom (cells : List α) (i : Nat) : Nat → List α
  | 0 => cells
  | left + 1 => sortFrom (sink cells (cells.getD i default) i) (i + 1) left

theorem sink_eq (front back : List α) (x junk : α) :
    sink (front ++ junk :: back) x front.length = insertBefore x front ++ back := by
  induction front using List.reverseRecOn generalizing back junk with
  | nil => simp [sink, insertBefore]
  | append_singleton front y ih =>
      have last : (front ++ [y] ++ junk :: back).getD front.length default = y := by
        rw [List.append_assoc, List.getD_append_right _ _ _ _ (by omega)]
        simp
      rw [List.length_append, List.length_singleton, sink, last]
      split
      · next larger =>
          have moved : (front ++ [y] ++ junk :: back).set (front.length + 1) y =
              front ++ y :: y :: back := by
            rw [List.set_append_right _ _ (by simp)]
            simp
          rw [moved, ih]
          simp [insertBefore, larger]
      · next larger =>
          rw [List.set_append_right _ _ (by simp)]
          simp [insertBefore, larger]

/-- The first `i` cells are sorted, and stay the same values. -/
theorem sortFrom_spec (front back rest : List α) (sorted : front.Pairwise (· ≤ ·)) :
    ∃ all, sortFrom (front ++ back ++ rest) front.length back.length = all ++ rest ∧
      all.Pairwise (· ≤ ·) ∧ all.Perm (front ++ back) := by
  induction back generalizing front with
  | nil => exact ⟨front, by simp [sortFrom], sorted, by simp⟩
  | cons x back ih =>
      have here : (front ++ x :: back ++ rest).getD front.length default = x := by
        rw [List.append_assoc, List.getD_append_right _ _ _ _ (by omega)]
        simp
      have inserted := insertBefore_perm x front
      obtain ⟨all, left, ordered, same⟩ := ih (insertBefore x front) (insertBefore_sorted sorted)
      refine ⟨all, ?_, ordered, same.trans ?_⟩
      · rw [List.length_cons, sortFrom, here, List.append_assoc, List.cons_append, sink_eq,
          ← List.append_assoc]
        rw [inserted.length_eq, List.length_append, List.length_singleton] at left
        exact left
      · exact (inserted.append_right back).trans (by simp)

/-- Sorting the first cells of an array. -/
theorem sortFrom_eq (values rest : List α) :
    sortFrom (values ++ rest) 1 (values.length - 1) = values.insertionSort (· ≤ ·) ++ rest := by
  cases values with
  | nil => rfl
  | cons x values =>
      obtain ⟨all, left, ordered, same⟩ := sortFrom_spec [x] values rest (List.pairwise_singleton _ x)
      have unique : all = (x :: values).insertionSort (· ≤ ·) :=
        (same.trans (List.perm_insertionSort (· ≤ ·) _).symm).eq_of_pairwise' ordered
          (List.pairwise_insertionSort (· ≤ ·) _)
      rw [← unique]
      simpa using left

end Sorting

end FryFirmware.Lib.InPlace
