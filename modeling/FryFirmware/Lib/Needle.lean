import Mathlib.Data.List.Infix
import Mathlib.Tactic.Common

/-!
# Finding a word by starting over

A matcher that keeps only how many letters of a word it has seen and, on a
mismatch, tries the letter at hand as the word's first one. No failure table is
needed when the first letter occurs nowhere else in the word.
-/

set_option autoImplicit false

namespace FryFirmware.Lib.Needle

variable {α : Type} {first : α} {others needle text : List α} {matched : Nat}

theorem take_succ_of_getElem? {letter : α} (same : needle[matched]? = some letter) :
    needle.take (matched + 1) = needle.take matched ++ [letter] := by
  rw [List.take_add_one, same]
  rfl

theorem take_one_of_head? {letter : α} (again : needle.head? = some letter) :
    needle.take 1 = [letter] := by
  cases needle with
  | nil => cases again
  | cons head tail =>
      cases again
      rfl

variable [DecidableEq α]

/-- How many letters of the needle are matched after one more letter. -/
def advance (needle : List α) (matched : Nat) (letter : α) : Nat :=
  if needle[matched]? = some letter then matched + 1
  else if needle.head? = some letter then 1
  else 0

/-- A letter at hand extends the match, starts a new one or leaves none. -/
theorem advance_cases (needle : List α) (matched : Nat) (letter : α) :
    (needle[matched]? = some letter ∧ advance needle matched letter = matched + 1) ∨
    (needle.head? = some letter ∧ advance needle matched letter = 1) ∨
    advance needle matched letter = 0 := by
  unfold advance
  split
  · next same => exact .inl ⟨same, rfl⟩
  · split
    · next again => exact .inr (.inl ⟨again, rfl⟩)
    · exact .inr (.inr rfl)

/-- What is matched is the end of what was read. -/
theorem take_advance_suffix (needle : List α) (matched : Nat) (letter : α) :
    needle.take (advance needle matched letter) <:+ needle.take matched ++ [letter] := by
  rcases advance_cases needle matched letter with ⟨same, eq⟩ | ⟨again, eq⟩ | eq
  · rw [eq, take_succ_of_getElem? same]
  · rw [eq, take_one_of_head? again]
    exact List.suffix_append _ _
  · rw [eq]
    exact List.nil_suffix

theorem advance_le (below : matched < needle.length) (letter : α) :
    advance needle matched letter ≤ needle.length := by
  rcases advance_cases needle matched letter with ⟨_, eq⟩ | ⟨_, eq⟩ | eq <;> omega

/-- While the needle has not occurred, the match stays short of it. -/
theorem advance_absent {letter : α} (below : matched < needle.length)
    (absent : ¬ needle <:+: needle.take matched ++ letter :: text) :
    advance needle matched letter < needle.length ∧
      ¬ needle <:+: needle.take (advance needle matched letter) ++ text := by
  have kept : needle.take (advance needle matched letter) ++ text <:+:
      needle.take matched ++ letter :: text := by
    obtain ⟨before, read⟩ := take_advance_suffix needle matched letter
    refine ⟨before, [], ?_⟩
    rw [List.append_nil, ← List.append_assoc, read, List.append_assoc, List.singleton_append]
  have later : ¬ needle <:+: needle.take (advance needle matched letter) ++ text :=
    fun occurs => absent (occurs.trans kept)
  refine ⟨Nat.lt_of_le_of_ne (advance_le below letter) fun complete => later ?_, later⟩
  rw [complete, List.take_length]
  exact (List.prefix_append needle text).isInfix

/-- The first letter begins a match wherever the matcher stands. -/
theorem advance_first (fresh : first ∉ others) (matched : Nat) :
    advance (first :: others) matched first = 1 := by
  cases matched with
  | zero => simp [advance]
  | succ matched =>
      have different : others[matched]? ≠ some first := fun same =>
        fresh (List.mem_of_getElem? same)
      simp [advance, different]

theorem advance_next {letter : α} (same : needle[matched]? = some letter) :
    advance needle matched letter = matched + 1 := by
  simp [advance, same]

end FryFirmware.Lib.Needle
