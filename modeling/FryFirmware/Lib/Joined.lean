import Mathlib.Data.List.Basic
import Mathlib.Data.List.Chain
import Mathlib.Data.List.Forall2
import Mathlib.Data.List.TakeWhile
import Mathlib.Tactic.Common

/-!
# Parts of a text

Where a run of letters ends, and what a text joined from parts holds.
-/

set_option autoImplicit false

namespace FryFirmware.Lib

variable {α : Type}

/-! ## Runs -/

theorem takeWhile_run {p : α → Bool} {run rest : List α} (inside : ∀ c ∈ run, p c = true)
    (ends : ∀ c ∈ rest.head?, p c = false) : (run ++ rest).takeWhile p = run := by
  rw [List.takeWhile_append_of_pos inside]
  cases rest with
  | nil => simp
  | cons c rest => simp [ends c rfl]

theorem dropWhile_run {p : α → Bool} {run rest : List α} (inside : ∀ c ∈ run, p c = true)
    (ends : ∀ c ∈ rest.head?, p c = false) : (run ++ rest).dropWhile p = rest := by
  rw [List.dropWhile_append_of_pos inside]
  cases rest with
  | nil => rfl
  | cons c rest => simp [ends c rfl]

/-- Every text is a run of letters, and then an end. -/
theorem run_split (p : α → Bool) (whole : List α) :
    ∃ run rest, whole = run ++ rest ∧ (∀ c ∈ run, p c = true) ∧ (∀ c ∈ rest.head?, p c = false) ∧
      whole.takeWhile p = run ∧ whole.dropWhile p = rest := by
  refine ⟨_, _, List.takeWhile_append_dropWhile.symm, fun c => List.mem_takeWhile_imp, ?_, rfl, rfl⟩
  intro c first
  have stops := List.head?_dropWhile_not p whole
  rw [Option.mem_def.mp first] at stops
  exact stops

/-! ## Parts read one by one -/

theorem mapM_iff {β : Type} {f : α → Option β} {xs : List α} {ys : List β} :
    xs.mapM f = some ys ↔ List.Forall₂ (fun x y => f x = some y) xs ys := by
  induction xs generalizing ys with
  | nil => simp [eq_comm]
  | cons x xs ih =>
      rw [List.mapM_cons]
      constructor
      · intro read
        obtain ⟨y, first, later⟩ := Option.bind_eq_some_iff.mp read
        obtain ⟨rest, others, same⟩ := Option.bind_eq_some_iff.mp later
        cases same
        exact .cons first (ih.mp others)
      · rintro (_ | ⟨first, others⟩)
        simp [first, ih.mpr others]

/-! ## Joined texts -/

theorem mem_intercalate {x sep : α} {parts : List (List α)}
    (member : x ∈ [sep].intercalate parts) : x = sep ∨ ∃ part ∈ parts, x ∈ part := by
  induction parts with
  | nil => cases member
  | cons first rest ih =>
      cases rest with
      | nil => exact .inr ⟨first, by simp, by simpa using member⟩
      | cons second rest =>
          rw [List.intercalate_cons_cons] at member
          rcases List.mem_append.mp member with front | later
          · rcases List.mem_append.mp front with here | separator
            · exact .inr ⟨first, by simp, here⟩
            · exact .inl (List.mem_singleton.mp separator)
          · rcases ih later with same | ⟨part, known, inside⟩
            · exact .inl same
            · exact .inr ⟨part, List.mem_cons_of_mem _ known, inside⟩

/-- A word in a text made up piece by piece begins inside one of the pieces. -/
theorem infix_flatMap {β : Type} {f : β → List α} {pieces : List β} {word : List α} (filled : word ≠ [])
    (inside : word <:+: pieces.flatMap f) :
    ∃ front piece later before start, pieces = front ++ piece :: later ∧ f piece = before ++ start ∧
      start ≠ [] ∧ word <+: start ++ later.flatMap f := by
  induction pieces with
  | nil => exact absurd (List.infix_nil.mp inside) filled
  | cons piece pieces ih =>
      obtain ⟨u, v, whole⟩ := inside
      rw [List.flatMap_cons, List.append_assoc] at whole
      rcases List.append_eq_append_iff.mp whole with ⟨start, here, rest⟩ | ⟨u', rfl, rest⟩
      · cases start with
        | nil =>
            obtain ⟨front, other, later, before, start, rfl, split, some_start, begins⟩ :=
              ih ⟨[], v, by simpa using rest⟩
            exact ⟨piece :: front, other, later, before, start, rfl, split, some_start, begins⟩
        | cons c start =>
            exact ⟨[], piece, pieces, u, c :: start, rfl, here, nofun, ⟨v, rest⟩⟩
      · obtain ⟨front, other, later, before, start, rfl, split, some_start, begins⟩ :=
          ih ⟨u', v, by rw [List.append_assoc, rest]⟩
        exact ⟨piece :: front, other, later, before, start, rfl, split, some_start, begins⟩

/-! Between parts that are not empty no two separators meet, nor where one more is put in
front of the first part or behind the last one. -/

theorem chain_part {sep : α} {part rest : List α} (free : sep ∉ part)
    (later : (sep :: rest).IsChain fun a b => ¬ (a = sep ∧ b = sep)) :
    (part ++ sep :: rest).IsChain fun a b => ¬ (a = sep ∧ b = sep) := by
  induction part with
  | nil => exact later
  | cons c part ih =>
      rw [List.mem_cons, not_or] at free
      exact (ih free.2).cons fun _ _ both => free.1 both.1.symm

theorem chain_next {sep : α} {part rest : List α} (filled : part ≠ []) (free : sep ∉ part)
    (later : (sep :: rest).IsChain fun a b => ¬ (a = sep ∧ b = sep)) :
    (sep :: (part ++ sep :: rest)).IsChain fun a b => ¬ (a = sep ∧ b = sep) := by
  have inside := chain_part free later
  cases part with
  | nil => exact absurd rfl filled
  | cons c part =>
      refine inside.cons fun d first both => ?_
      cases first
      exact free (by simp [both.2])

theorem no_pair {sep : α} {parts : List (List α)} (plain : ∀ part ∈ parts, part ≠ [] ∧ sep ∉ part)
    (some_part : parts ≠ []) : ¬ [sep, sep] <:+: sep :: ([sep].intercalate parts ++ [sep]) := by
  suffices chain : (sep :: ([sep].intercalate parts ++ [sep])).IsChain
      fun a b => ¬ (a = sep ∧ b = sep) by
    intro inside
    have broken := chain.infix inside
    simp at broken
  induction parts with
  | nil => exact absurd rfl some_part
  | cons part rest ih =>
      obtain ⟨filled, free⟩ := plain part List.mem_cons_self
      cases rest with
      | nil => simpa using chain_next filled free (List.isChain_singleton sep)
      | cons second rest =>
          have later := ih (fun t member => plain t (List.mem_cons_of_mem _ member)) nofun
          rw [List.intercalate_cons_cons]
          simpa using chain_next filled free later

end FryFirmware.Lib
