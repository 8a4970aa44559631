import Mathlib.Data.List.Basic
import Mathlib.Tactic.Common

/-!
# Maps in key order

A finite map as the list of its entries in strictly increasing key order, as an ordered
map iterates. Writing a key replaces its value.
-/

set_option autoImplicit false

namespace FryFirmware.Lib

variable {κ α : Type} [Ord κ]

/-- Put the value under the key, among entries in key order. -/
def insertEntry (key : κ) (value : α) : List (κ × α) → List (κ × α)
  | [] => [(key, value)]
  | entry :: rest =>
      match compare key entry.1 with
      | .lt => (key, value) :: entry :: rest
      | .eq => (key, value) :: rest
      | .gt => entry :: insertEntry key value rest

def InOrder (entries : List (κ × α)) : Prop := entries.Pairwise fun a b => compare a.1 b.1 = .lt

theorem mem_insertEntry {key : κ} {value : α} {entries : List (κ × α)} {entry : κ × α}
    (member : entry ∈ insertEntry key value entries) : entry = (key, value) ∨ entry ∈ entries := by
  induction entries with
  | nil => exact .inl (List.mem_singleton.mp member)
  | cons first rest ih =>
      rw [insertEntry] at member
      split at member
      · rcases List.mem_cons.mp member with same | later
        · exact .inl same
        · exact .inr later
      · rcases List.mem_cons.mp member with same | later
        · exact .inl same
        · exact .inr (List.mem_cons_of_mem _ later)
      · rcases List.mem_cons.mp member with same | later
        · exact .inr (same ▸ List.mem_cons_self)
        · exact (ih later).imp_right (List.mem_cons_of_mem _)

theorem InOrder.insertEntry [Std.TransOrd κ] [Std.LawfulEqOrd κ] {entries : List (κ × α)}
    (ordered : InOrder entries) (key : κ) (value : α) : InOrder (insertEntry key value entries) := by
  induction entries with
  | nil => exact List.pairwise_singleton _ _
  | cons first rest ih =>
      obtain ⟨before, later⟩ := List.pairwise_cons.mp ordered
      rw [Lib.insertEntry]
      split
      · next below =>
        refine List.pairwise_cons.mpr ⟨fun entry member => ?_, ordered⟩
        rcases List.mem_cons.mp member with rfl | member
        · exact below
        · exact Std.TransCmp.lt_trans below (before entry member)
      · next same =>
        obtain rfl := Std.LawfulEqCmp.eq_of_compare same
        exact List.pairwise_cons.mpr ⟨before, later⟩
      · next above =>
        refine List.pairwise_cons.mpr ⟨fun entry member => ?_, ih later⟩
        rcases mem_insertEntry member with rfl | member
        · exact Std.OrientedCmp.lt_of_gt above
        · exact before entry member

/-- A key beyond all others goes to the end. -/
theorem insertEntry_last {key : κ} {value : α} {entries : List (κ × α)} [Std.OrientedOrd κ]
    (beyond : ∀ entry ∈ entries, compare entry.1 key = .lt) :
    insertEntry key value entries = entries ++ [(key, value)] := by
  induction entries with
  | nil => rfl
  | cons first rest ih =>
      have above : compare key first.1 = .gt :=
        Std.OrientedCmp.gt_of_lt (beyond first List.mem_cons_self)
      rw [insertEntry, above]
      exact congrArg (first :: ·) (ih fun entry member => beyond entry (List.mem_cons_of_mem _ member))

/-- Writing entries in key order one after the other gives these entries. -/
theorem foldl_insertEntry [Std.OrientedOrd κ] {front back : List (κ × α)} (ordered : InOrder (front ++ back)) :
    back.foldl (fun entries entry => insertEntry entry.1 entry.2 entries) front = front ++ back := by
  induction back generalizing front with
  | nil => rw [List.foldl_nil, List.append_nil]
  | cons entry back ih =>
      have beyond : ∀ other ∈ front, compare other.1 entry.1 = .lt :=
        fun other member => (List.pairwise_append.mp ordered).2.2 other member entry List.mem_cons_self
      rw [List.foldl_cons, insertEntry_last beyond, ih (by simpa using ordered)]
      simp

structure SortedMap (κ α : Type) [Ord κ] where
  entries : List (κ × α)
  ordered : InOrder entries

namespace SortedMap

def empty : SortedMap κ α := ⟨[], List.Pairwise.nil⟩

def set [Std.TransOrd κ] [Std.LawfulEqOrd κ] (map : SortedMap κ α) (key : κ) (value : α) : SortedMap κ α :=
  ⟨insertEntry key value map.entries, map.ordered.insertEntry key value⟩

theorem ext {map other : SortedMap κ α} (same : map.entries = other.entries) : map = other := by
  cases map
  cases other
  cases same
  rfl

end SortedMap

end FryFirmware.Lib
