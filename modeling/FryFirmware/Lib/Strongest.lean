import Mathlib.Data.List.Basic
import Mathlib.Data.List.Dedup
import Mathlib.Data.List.Induction
import Mathlib.Data.List.Perm.Subperm
import Mathlib.Data.List.TakeWhile
import Mathlib.Order.Lattice
import Mathlib.Tactic.Common

/-!
# The strongest of a stream

A bounded list that keeps, of a stream of named and ranked items, the first
strongest item of each name, strongest first. A name may be pushed out of a full
list and come back; at the end of any stream the list holds the names that were
seen strongest.
-/

set_option autoImplicit false

namespace FryFirmware.Lib.Strongest

variable {α κ ρ : Type} [LinearOrder ρ] (name : α → κ) (rank : α → ρ)

/-- Puts an item behind those that are at least as strong. -/
def place (item : α) (kept : List α) : List α :=
  (kept.takeWhile fun x => rank item ≤ rank x) ++
    item :: kept.dropWhile fun x => rank item ≤ rank x

/-- The list after one more item. -/
def record [DecidableEq κ] (limit : Nat) (kept : List α) (item : α) : List α :=
  if kept.any fun x => name x = name item ∧ rank item ≤ rank x then kept
  else (place rank item (kept.filter fun x => name x ≠ name item)).take limit

/-- Stronger than all before it under its name, and not weaker than any behind it. -/
def FirstStrongest (items : List α) (x : α) : Prop :=
  ∃ before after, items = before ++ x :: after ∧
    (∀ y ∈ before, name y = name x → rank y < rank x) ∧
    ∀ y ∈ after, name y = name x → rank y ≤ rank x

/-- What the list keeps of the items so far: a name is left out of a full list only,
and was never stronger there than what is kept. -/
structure Ranked (limit : Nat) (items kept : List α) : Prop where
  sorted : kept.Pairwise fun x y => rank y ≤ rank x
  distinct : (kept.map name).Nodup
  first : ∀ x ∈ kept, FirstStrongest name rank items x
  leftOut : ∀ y ∈ items, name y ∉ kept.map name → limit ≤ kept.length ∧ ∀ x ∈ kept, rank y ≤ rank x

variable {name rank} {limit : Nat} {items kept : List α} {item x : α}

/-! ## Placing -/

theorem place_perm : (place rank item kept).Perm (item :: kept) := by
  refine List.perm_middle.trans ?_
  rw [List.takeWhile_append_dropWhile]

theorem place_sorted (sorted : kept.Pairwise fun x y => rank y ≤ rank x) :
    (place rank item kept).Pairwise fun x y => rank y ≤ rank x := by
  induction kept with
  | nil => simp [place]
  | cons x kept ih =>
      obtain ⟨behind, later⟩ := List.pairwise_cons.mp sorted
      by_cases stronger : rank item ≤ rank x
      · have same : place rank item (x :: kept) = x :: place rank item kept := by
          simp [place, stronger]
        rw [same]
        refine List.pairwise_cons.mpr ⟨fun y member => ?_, ih later⟩
        rcases List.mem_cons.mp (place_perm.mem_iff.mp member) with rfl | known
        · exact stronger
        · exact behind y known
      · have same : place rank item (x :: kept) = item :: x :: kept := by
          simp [place, stronger]
        have weaker : rank x ≤ rank item := le_of_lt (not_le.mp stronger)
        rw [same]
        refine List.pairwise_cons.mpr ⟨fun y member => ?_, sorted⟩
        rcases List.mem_cons.mp member with rfl | known
        · exact weaker
        · exact le_trans (behind y known) weaker

/-! ## First strongest items -/

theorem FirstStrongest.mem (first : FirstStrongest name rank items x) : x ∈ items := by
  obtain ⟨before, after, rfl, -⟩ := first
  simp

theorem FirstStrongest.le (first : FirstStrongest name rank items x) {y : α} (seen : y ∈ items)
    (same : name y = name x) : rank y ≤ rank x := by
  obtain ⟨before, after, rfl, earlier, later⟩ := first
  rcases List.mem_append.mp seen with here | here
  · exact le_of_lt (earlier y here same)
  · rcases List.mem_cons.mp here with rfl | here
    · exact le_rfl
    · exact later y here same

theorem FirstStrongest.append (first : FirstStrongest name rank items x)
    (weaker : name item = name x → rank item ≤ rank x) :
    FirstStrongest name rank (items ++ [item]) x := by
  obtain ⟨before, after, rfl, earlier, later⟩ := first
  refine ⟨before, after ++ [item], by simp, earlier, fun y member same => ?_⟩
  rcases List.mem_append.mp member with here | here
  · exact later y here same
  · rw [List.mem_singleton.mp here] at same ⊢
    exact weaker same

theorem FirstStrongest.last (stronger : ∀ y ∈ items, name y = name item → rank y < rank item) :
    FirstStrongest name rank (items ++ [item]) item :=
  ⟨items, [], rfl, stronger, fun _ member => absurd member List.not_mem_nil⟩

/-! ## One step -/

/-- The end of a sorted list may be cut off. -/
theorem Ranked.take (ranked : Ranked name rank limit items kept) :
    Ranked name rank limit items (kept.take limit) := by
  have part := List.take_sublist limit kept
  refine ⟨ranked.sorted.sublist part, ranked.distinct.sublist (part.map name),
    fun x member => ranked.first x (part.mem member), fun y seen absent => ?_⟩
  by_cases known : name y ∈ kept.map name
  · -- The name was cut off: what is kept stands in front of it.
    obtain ⟨z, member, same⟩ := List.mem_map.mp known
    rw [← List.take_append_drop limit kept] at member
    rcases List.mem_append.mp member with front | cut
    · exact absurd (List.mem_map.mpr ⟨z, front, same⟩) absent
    · have full : limit ≤ kept.length := by
        by_contra short
        rw [List.drop_eq_nil_of_le (by omega)] at cut
        cases cut
      refine ⟨by rw [List.length_take]; omega, fun x member => ?_⟩
      have sorted := ranked.sorted
      rw [← List.take_append_drop limit kept, List.pairwise_append] at sorted
      exact le_trans ((ranked.first z (List.mem_of_mem_drop cut)).le seen same.symm)
        (sorted.2.2 x member z cut)
  · obtain ⟨full, weaker⟩ := ranked.leftOut y seen known
    exact ⟨by rw [List.length_take]; omega, fun x member => weaker x (part.mem member)⟩

/-- A weaker item of a name that is kept changes nothing. -/
theorem Ranked.repeated (ranked : Ranked name rank limit items kept) (member : x ∈ kept)
    (same : name x = name item) (weaker : rank item ≤ rank x) :
    Ranked name rank limit (items ++ [item]) kept := by
  refine ⟨ranked.sorted, ranked.distinct, fun z known => ?_, fun y seen absent => ?_⟩
  · refine (ranked.first z known).append fun alike => ?_
    have one : x = z := List.inj_on_of_nodup_map ranked.distinct member known (same.trans alike)
    exact one ▸ weaker
  · rcases List.mem_append.mp seen with earlier | here
    · exact ranked.leftOut y earlier absent
    · rw [List.mem_singleton.mp here] at absent
      exact absurd (List.mem_map.mpr ⟨x, member, same⟩) absent

/-- An item that a full list has no place for. -/
theorem Ranked.refused (ranked : Ranked name rank limit items kept) (full : limit ≤ kept.length)
    (weaker : ∀ x ∈ kept, rank item ≤ rank x) :
    Ranked name rank limit (items ++ [item]) kept := by
  refine ⟨ranked.sorted, ranked.distinct, fun z known => ?_, fun y seen absent => ?_⟩
  · exact (ranked.first z known).append fun _ => weaker z known
  · rcases List.mem_append.mp seen with earlier | here
    · exact ranked.leftOut y earlier absent
    · rw [List.mem_singleton.mp here]
      exact ⟨full, weaker⟩

variable [DecidableEq κ]

/-- At most one item of a name is kept. -/
theorem length_others_le {one : κ} (distinct : (kept.map name).Nodup) :
    kept.length ≤ (kept.filter fun x => name x ≠ one).length + 1 := by
  have few := List.nodup_iff_count_le_one.mp distinct one
  rw [List.count, List.countP_map] at few
  have split := List.length_eq_countP_add_countP (l := kept) (fun x => decide (name x ≠ one))
  have same : (kept.countP fun x => decide ¬ decide (name x ≠ one) = true) =
      kept.countP ((· == one) ∘ name) := by
    congr 1
    funext x
    exact Bool.eq_iff_iff.mpr (by simp)
  rw [List.countP_eq_length_filter, same] at split
  omega

/-- An item stronger than all before it under its name, and than one that is kept
where the list is full. -/
theorem Ranked.placed (ranked : Ranked name rank limit items kept)
    (stronger : ∀ y ∈ items, name y = name item → rank y < rank item)
    (above : limit ≤ kept.length → ∃ x ∈ kept, rank x < rank item) :
    Ranked name rank limit (items ++ [item])
      (place rank item (kept.filter fun x => name x ≠ name item)) := by
  have others : ∀ x, x ∈ place rank item (kept.filter fun x => name x ≠ name item) ↔
      x = item ∨ x ∈ kept ∧ name x ≠ name item := by
    intro x
    rw [place_perm.mem_iff, List.mem_cons, List.mem_filter, decide_eq_true_eq]
  refine ⟨place_sorted (ranked.sorted.filter _), ?_, fun x member => ?_, fun y seen absent => ?_⟩
  · rw [(place_perm.map name).nodup_iff, List.map_cons, List.nodup_cons]
    refine ⟨fun repeated => ?_, ranked.distinct.sublist (List.filter_sublist.map name)⟩
    obtain ⟨x, member, same⟩ := List.mem_map.mp repeated
    exact absurd same (by simpa using (List.mem_filter.mp member).2)
  · rcases (others x).mp member with rfl | ⟨known, other⟩
    · exact .last stronger
    · exact (ranked.first x known).append fun same => absurd same.symm other
  · have outside : ∀ x, x = item ∨ x ∈ kept ∧ name x ≠ name item → name x ≠ name y :=
      fun x member same => absent (List.mem_map.mpr ⟨x, (others x).mpr member, same⟩)
    have different := outside item (.inl rfl)
    have absentBefore : name y ∉ kept.map name := by
      intro known
      obtain ⟨x, member, same⟩ := List.mem_map.mp known
      exact outside x (.inr ⟨member, fun alike => different (alike.symm.trans same)⟩) same
    have earlier : y ∈ items := by
      rcases List.mem_append.mp seen with earlier | here
      · exact earlier
      · exact absurd (List.mem_singleton.mp here ▸ rfl) different
    obtain ⟨full, weaker⟩ := ranked.leftOut y earlier absentBefore
    constructor
    · rw [place_perm.length_eq, List.length_cons]
      exact Nat.le_trans full (length_others_le ranked.distinct)
    · intro x member
      rcases (others x).mp member with rfl | ⟨known, -⟩
      · obtain ⟨z, known, below⟩ := above full
        exact le_trans (weaker z known) (le_of_lt below)
      · exact weaker x known

theorem record_length_le (bounded : kept.length ≤ limit) :
    (record name rank limit kept item).length ≤ limit := by
  unfold record
  split
  · exact bounded
  · exact List.length_take_le _ _

/-- One more item. -/
theorem Ranked.next (ranked : Ranked name rank limit items kept) (bounded : kept.length ≤ limit) :
    Ranked name rank limit (items ++ [item]) (record name rank limit kept item) := by
  unfold record
  split
  · next known =>
      simp only [List.any_eq_true, decide_eq_true_eq] at known
      obtain ⟨x, member, same, weaker⟩ := known
      exact ranked.repeated member same weaker
  · next fresh =>
      have below : ∀ x ∈ kept, name x = name item → rank x < rank item := by
        intro x member same
        refine not_le.mp fun weaker => fresh ?_
        simp only [List.any_eq_true, decide_eq_true_eq]
        exact ⟨x, member, same, weaker⟩
      by_cases refused : limit ≤ kept.length ∧ ∀ x ∈ kept, rank item ≤ rank x
      · -- All that is kept is at least as strong, so the item lands behind it and is cut off.
        have others : (kept.filter fun x => name x ≠ name item) = kept := by
          refine List.filter_eq_self.mpr fun x member => decide_eq_true fun same => ?_
          exact absurd (below x member same) (not_lt.mpr (refused.2 x member))
        have behind : (kept.takeWhile fun x => rank item ≤ rank x) = kept :=
          List.takeWhile_eq_self_iff.mpr fun x member => decide_eq_true (refused.2 x member)
        rw [others, place, behind, List.take_left' (by omega)]
        exact ranked.refused refused.1 refused.2
      · have above : limit ≤ kept.length → ∃ x ∈ kept, rank x < rank item := by
          intro full
          by_contra none
          exact refused ⟨full, fun x member => not_lt.mp fun lower => none ⟨x, member, lower⟩⟩
        refine (ranked.placed (fun y seen same => ?_) above).take
        by_cases known : name y ∈ kept.map name
        · obtain ⟨x, member, alike⟩ := List.mem_map.mp known
          exact lt_of_le_of_lt ((ranked.first x member).le seen alike.symm)
            (below x member (alike.trans same))
        · obtain ⟨full, weaker⟩ := ranked.leftOut y seen known
          obtain ⟨x, member, lower⟩ := above full
          exact lt_of_le_of_lt (weaker x member) lower

/-! ## A whole stream -/

theorem ranked_foldl (name : α → κ) (rank : α → ρ) (limit : Nat) (items : List α) :
    Ranked name rank limit items (items.foldl (record name rank limit) []) ∧
      (items.foldl (record name rank limit) []).length ≤ limit := by
  induction items using List.reverseRecOn with
  | nil => exact ⟨⟨.nil, .nil, nofun, nofun⟩, Nat.zero_le _⟩
  | append_singleton items item ih =>
      rw [List.foldl_append]
      exact ⟨ih.1.next ih.2, record_length_le ih.2⟩

/-- As many as there are names, or as there are places. -/
theorem Ranked.length (ranked : Ranked name rank limit items kept) (bounded : kept.length ≤ limit) :
    kept.length = min limit (items.map name).dedup.length := by
  have part : (kept.map name).Subperm (items.map name).dedup := by
    refine List.subperm_of_subset ranked.distinct fun n member => ?_
    obtain ⟨x, known, rfl⟩ := List.mem_map.mp member
    exact List.mem_dedup.mpr (List.mem_map_of_mem (ranked.first x known).mem)
  have few : kept.length ≤ (items.map name).dedup.length := by
    simpa using part.length_le
  by_cases full : limit ≤ kept.length
  · omega
  · have all : (items.map name).dedup.Subperm (kept.map name) := by
      refine List.subperm_of_subset (List.nodup_dedup _) fun n member => ?_
      obtain ⟨y, seen, rfl⟩ := List.mem_map.mp (List.mem_dedup.mp member)
      by_contra absent
      exact full (ranked.leftOut y seen absent).1
    have many := all.length_le
    rw [List.length_map] at many
    omega

end FryFirmware.Lib.Strongest
