import FryFirmware.Lib.Clock
import Mathlib.Algebra.Ring.Nat
import Mathlib.Data.List.Chain
import Mathlib.Data.List.DropRight
import Mathlib.Tactic.Common

/-!
# Conditions that last

Samples in the order of their times. The stretch of a condition is the samples at the end
on which it holds without a break. It is due, for a limit, at the first of its samples
that is not less than the limit after its start.
-/

set_option autoImplicit false

namespace FryFirmware.Lib.Stretch

variable {α : Type} (holds : α → Bool) (time : α → Nat)

/-- When the stretch at the end began. -/
def since (samples : List α) : Option Nat := (samples.rtakeWhile holds).head?.map time

/-- The stretch reaches the limit with this sample. -/
def FirstDue (limit : Nat) (before : List α) (now : α) : Prop :=
  holds now = true ∧ ∃ start ∈ since holds time (before ++ [now]),
    start + limit ≤ time now ∧ ∀ x ∈ before.rtakeWhile holds, time x < start + limit

/-- In the order of time, and each less than `gap` behind the one before it. -/
def Steady (gap : Nat) (samples : List α) : Prop :=
  samples.IsChain fun x y => time x ≤ time y ∧ time y < time x + gap

variable {holds time} {samples before : List α} {now : α} {limit gap : Nat}

/-! ## Where a stretch begins -/

@[simp] theorem since_nil : since holds time [] = none := by simp [since]

theorem since_broken (broken : holds now = false) : since holds time (samples ++ [now]) = none := by
  rw [since, List.rtakeWhile_concat_neg _ _ _ (by simp [broken])]
  rfl

theorem since_goes_on (on : holds now = true) :
    since holds time (samples ++ [now]) = some ((since holds time samples).getD (time now)) := by
  rw [since, List.rtakeWhile_concat_pos _ _ _ on, since]
  cases samples.rtakeWhile holds with
  | nil => rfl
  | cons first rest => rfl

theorem since_eq_none_iff : since holds time samples = none ↔ samples.rtakeWhile holds = [] := by
  simp [since]

/-- The stretch is a run of samples at the end, in order from its start on. -/
theorem since_le (ordered : samples.Pairwise fun x y => time x ≤ time y) {start : Nat}
    (began : since holds time samples = some start) :
    ∀ x ∈ samples.rtakeWhile holds, start ≤ time x := by
  have sorted := ordered.sublist (List.rtakeWhile_suffix holds samples).sublist
  rw [since] at began
  cases stretch : samples.rtakeWhile holds with
  | nil =>
      rw [stretch] at began
      cases began
  | cons first rest =>
      rw [stretch] at began sorted
      cases began
      intro x member
      rcases List.mem_cons.mp member with rfl | later
      · exact Nat.le_refl _
      · exact List.rel_of_pairwise_cons sorted later

/-! ## Steady samples -/

theorem Steady.ordered (steady : Steady time gap samples) :
    samples.Pairwise fun x y => time x ≤ time y := by
  have chain : samples.IsChain fun x y => time x ≤ time y := steady.imp fun _ _ both => both.1
  have : IsTrans α fun x y => time x ≤ time y := ⟨fun _ _ _ => Nat.le_trans⟩
  exact List.isChain_iff_pairwise.mp chain

theorem Steady.front {back : List α} (steady : Steady time gap (samples ++ back)) :
    Steady time gap samples :=
  List.IsChain.left_of_append steady

/-- The sample behind a stretch that is not yet due is not far behind the limit. -/
theorem Steady.soon (steady : Steady time gap (before ++ [now])) {start : Nat}
    (began : since holds time before = some start)
    (undue : ∀ x ∈ before.rtakeWhile holds, time x < start + limit) :
    start ≤ time now ∧ time now < start + limit + gap := by
  have lasting : before.rtakeWhile holds ≠ [] := by
    rw [ne_eq, ← @since_eq_none_iff _ holds time, began]
    nofun
  have inside := List.getLast_mem lasting
  have low := since_le steady.front.ordered began _ inside
  have high := undue _ inside
  obtain ⟨front, split⟩ := List.rtakeWhile_suffix holds before
  have next := steady
  rw [← split, ← List.dropLast_append_getLast lasting, ← List.append_assoc, List.append_assoc,
    List.singleton_append] at next
  have pair := List.isChain_pair.mp (List.IsChain.right_of_append next)
  omega

/-! ## The sample that is due -/

theorem not_firstDue_off (off : holds now = false) : ¬ FirstDue holds time limit before now := by
  rintro ⟨on, -⟩
  rw [off] at on
  cases on

theorem not_firstDue_first (positive : 0 < limit) (began : since holds time before = none) :
    ¬ FirstDue holds time limit before now := by
  rintro ⟨on, start, same, reached, -⟩
  rw [since_goes_on on, began, Option.getD_none] at same
  cases same
  omega

theorem not_firstDue_again {start : Nat} (began : since holds time before = some start)
    (reached : ∃ x ∈ before.rtakeWhile holds, start + limit ≤ time x) :
    ¬ FirstDue holds time limit before now := by
  rintro ⟨on, start', same, -, undue⟩
  rw [since_goes_on on, began, Option.getD_some] at same
  cases same
  obtain ⟨x, inside, far⟩ := reached
  exact absurd far (Nat.not_le.mpr (undue x inside))

/-- A stretch that is not yet due is measured by the counter. -/
theorem Steady.firstDue_iff {limit : UInt32}
    (steady : Steady time (2 ^ 32 - limit.toNat) (before ++ [now])) (on : holds now = true) {start : Nat}
    (began : since holds time before = some start)
    (undue : ∀ x ∈ before.rtakeWhile holds, time x < start + limit.toNat) :
    FirstDue holds time limit.toNat before now ↔ limit ≤ counter (time now) - counter start := by
  have small := limit.toNat_lt
  obtain ⟨low, high⟩ := steady.soon began undue
  rw [elapsed_iff low (by omega)]
  have goes_on := @since_goes_on _ holds time before now on
  rw [began, Option.getD_some] at goes_on
  constructor
  · rintro ⟨-, start', same, reached, -⟩
    rw [goes_on] at same
    cases same
    exact reached
  · exact fun reached => ⟨on, start, goes_on, reached, undue⟩

/-- With a sample that is due, a later one of the same stretch is not. -/
theorem FirstDue.once {between : List α} {later : α} (due : FirstDue holds time limit before now)
    (again : FirstDue holds time limit (before ++ now :: between) later) :
    ∃ x ∈ between, holds x = false := by
  by_contra unbroken
  have lasts : ∀ x ∈ between, holds x = true := fun x member => by
    cases on : holds x with
    | true => rfl
    | false => exact absurd ⟨x, member, on⟩ unbroken
  obtain ⟨on, start, began, reached, -⟩ := due
  obtain ⟨later_on, start', began', -, undue⟩ := again
  have whole : ∀ {tail : List α}, (∀ x ∈ tail, holds x = true) →
      (before ++ now :: tail).rtakeWhile holds = (before ++ [now]).rtakeWhile holds ++ tail := by
    intro tail all
    induction tail using List.reverseRecOn with
    | nil => simp
    | append_singleton tail last ih =>
        rw [← List.cons_append, ← List.append_assoc,
          List.rtakeWhile_concat_pos _ _ _ (all last (by simp)),
          ih fun x member => all x (List.mem_append_left _ member), List.append_assoc]
  have same : since holds time (before ++ now :: between ++ [later]) =
      since holds time (before ++ [now]) := by
    rw [since_goes_on later_on, since, whole lasts, since]
    rw [List.rtakeWhile_concat_pos _ _ _ on]
    cases before.rtakeWhile holds with
    | nil => rfl
    | cons first rest => rfl
  rw [Option.mem_def] at began began'
  rw [same, began] at began'
  cases began'
  have inside : now ∈ (before ++ now :: between).rtakeWhile holds := by
    rw [whole lasts, List.rtakeWhile_concat_pos _ _ _ on]
    simp
  have early := undue now inside
  omega

/-- A stretch that reached the limit was due at one of its samples. -/
theorem exists_firstDue {start : Nat} (began : since holds time samples = some start)
    (reached : ∃ x ∈ samples.rtakeWhile holds, start + limit ≤ time x) :
    ∃ front x back, samples = front ++ x :: back ∧ FirstDue holds time limit front x ∧
      ∀ y ∈ back, holds y = true := by
  induction samples using List.reverseRecOn with
  | nil => simp at began
  | append_singleton samples last ih =>
      cases on : holds last with
      | false =>
          rw [since_broken on] at began
          cases began
      | true =>
          by_cases earlier : ∃ x ∈ samples.rtakeWhile holds, start + limit ≤ time x
          · have inside : since holds time samples = some start := by
              rw [since_goes_on on] at began
              obtain ⟨x, member, -⟩ := earlier
              cases before : since holds time samples with
              | none =>
                  rw [since_eq_none_iff.mp before] at member
                  cases member
              | some first =>
                  rw [before] at began
                  exact began
            obtain ⟨front, x, back, rfl, due, lasts⟩ := ih inside earlier
            refine ⟨front, x, back ++ [last], by simp, due, fun y member => ?_⟩
            rcases List.mem_append.mp member with behind | final
            · exact lasts y behind
            · rw [List.mem_singleton.mp final, on]
          · have undue : ∀ x ∈ samples.rtakeWhile holds, time x < start + limit := by
              intro x member
              by_contra far
              exact earlier ⟨x, member, Nat.not_lt.mp far⟩
            obtain ⟨x, member, far⟩ := reached
            rw [List.rtakeWhile_concat_pos _ _ _ on, List.mem_append, List.mem_singleton] at member
            rcases member with inside | rfl
            · exact absurd far (Nat.not_le.mpr (undue x inside))
            · exact ⟨samples, x, [], rfl, ⟨on, start, began, far, undue⟩, by simp⟩

end FryFirmware.Lib.Stretch
