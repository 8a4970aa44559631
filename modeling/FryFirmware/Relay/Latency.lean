import FryFirmware.Lib.InPlace
import Mathlib

/-!
# Connect latencies

`LatencyRing` of `lib/fry_core/relay_latency.h`: a ring of the last 60 samples, and
the median and the 95th percentile of what it holds.
-/

set_option autoImplicit false

namespace FryFirmware.Relay

open FryFirmware.Lib.InPlace

def kLatencySamples : Nat := 60

/-- The samples are ordered as the machine compares them. -/
local instance machineOrder : LinearOrder UInt32 where
  le_refl := UInt32.le_refl
  le_trans := fun _ _ _ => UInt32.le_trans
  le_antisymm := fun _ _ => UInt32.le_antisymm
  le_total := UInt32.le_total
  lt_iff_le_not_ge := fun a b => by
    simp only [UInt32.lt_iff_toNat_lt, UInt32.le_iff_toNat_le]
    omega
  toDecidableLE := inferInstance

structure LatencyRing where
  buf : List UInt32 := List.replicate kLatencySamples 0
  next : Nat := 0
  count : Nat := 0
  size : buf.length = kLatencySamples := by simp
  next_lt : next < kLatencySamples := by decide
  count_le : count ≤ kLatencySamples := by decide

namespace LatencyRing

variable (ring : LatencyRing)

def reset : LatencyRing := { ring with count := 0, next := 0, next_lt := by decide, count_le := by decide }

def add (ms : UInt32) : LatencyRing where
  buf := ring.buf.set ring.next ms
  next := (ring.next + 1) % kLatencySamples
  count := if ring.count < kLatencySamples then ring.count + 1 else ring.count
  size := by rw [List.length_set, ring.size]
  next_lt := Nat.mod_lt _ (by decide)
  count_le := by
    have bound := ring.count_le
    split <;> omega

/-- The first `n` cells of `v`, which are all that is read of it. -/
def sorted : List UInt32 := sortFrom (ring.buf.take ring.count) 1 (ring.count - 1)

def p50Ms : UInt32 :=
  let v := ring.sorted
  let n := ring.count
  if n = 0 then 0
  else if n % 2 = 1 then v.getD (n / 2) 0
  -- The sum has 64 bits.
  else (((v.getD (n / 2 - 1) 0).toUInt64 + (v.getD (n / 2) 0).toUInt64) / 2).toUInt32

def p95Ms : UInt32 :=
  let v := ring.sorted
  let n := ring.count
  if n = 0 then 0
  else
    let rank := (95 * n + 99) / 100
    let rank := if rank < 1 then 1 else rank
    let rank := if rank > n then n else rank
    v.getD (rank - 1) 0

end LatencyRing

/-! ## What the heartbeat reports -/

/-- The last samples that a ring has room for. -/
def lastSamples (samples : List UInt32) : List UInt32 :=
  samples.drop (samples.length - kLatencySamples)

/-- The middle value, or the mean of the two middle values, cut to whole milliseconds. -/
def median (values : Multiset UInt32) : Nat :=
  let v := values.sort (· ≤ ·)
  if values.card % 2 = 1 then (v.getD (values.card / 2) 0).toNat
  else ((v.getD (values.card / 2 - 1) 0).toNat + (v.getD (values.card / 2) 0).toNat) / 2

/-- The `ceil(0.95 * n)`-th smallest value. -/
def nearestRank95 (values : Multiset UInt32) : Nat :=
  ((values.sort (· ≤ ·)).getD (⌈(0.95 : ℚ) * values.card⌉₊ - 1) 0).toNat

namespace LatencyRing

variable {ring : LatencyRing} {samples : List UInt32}

/-- The cells in the order in which they are overwritten next. -/
def oldestFirst (ring : LatencyRing) : List UInt32 := ring.buf.drop ring.next ++ ring.buf.take ring.next

theorem oldestFirst_length (ring : LatencyRing) : ring.oldestFirst.length = kLatencySamples := by
  have size := ring.size
  have place := ring.next_lt
  simp only [oldestFirst, List.length_append, List.length_drop, List.length_take]
  omega

theorem oldestFirst_add (ring : LatencyRing) (ms : UInt32) :
    (ring.add ms).oldestFirst = ring.oldestFirst.tail ++ [ms] := by
  obtain ⟨buf, next, count, size, place, bound⟩ := ring
  obtain ⟨front, old, behind, rfl, rfl⟩ : ∃ front old behind, buf = front ++ old :: behind ∧
      front.length = next :=
    ⟨buf.take next, buf[next], buf.drop (next + 1), by simp,
      List.length_take_of_le (by omega)⟩
  have width : front.length + (behind.length + 1) = kLatencySamples := by simpa using size
  have stored : (front ++ old :: behind).set front.length ms = front ++ [ms] ++ behind := by
    rw [List.set_append_right _ _ (Nat.le_refl _)]
    simp
  simp only [oldestFirst, add, stored]
  by_cases last : behind = []
  · have wrapped : (front.length + 1) % kLatencySamples = 0 := by
      rw [last] at width
      simp only [List.length_nil] at width
      rw [← width]
      exact Nat.mod_self _
    simp [wrapped, last]
  · have inside : (front.length + 1) % kLatencySamples = front.length + 1 := by
      have some := List.length_pos_iff.mpr last
      exact Nat.mod_eq_of_lt (by omega)
    rw [inside, List.drop_left' (by simp), List.take_left' (by simp)]
    simp

theorem oldestFirst_adds (ring : LatencyRing) (samples : List UInt32) :
    (samples.foldl add ring).oldestFirst = (ring.oldestFirst ++ samples).drop samples.length := by
  induction samples generalizing ring with
  | nil => simp
  | cons ms samples ih =>
      obtain ⟨old, rest, cells⟩ := List.exists_cons_of_length_pos
        (show 0 < ring.oldestFirst.length by rw [oldestFirst_length]; decide)
      rw [List.foldl_cons, ih, oldestFirst_add, cells]
      simp

theorem count_adds (ring : LatencyRing) (samples : List UInt32) :
    (samples.foldl add ring).count = min (ring.count + samples.length) kLatencySamples := by
  induction samples generalizing ring with
  | nil => exact (Nat.min_eq_left ring.count_le).symm
  | cons ms samples ih =>
      have bound := ring.count_le
      have one : (ring.add ms).count = min (ring.count + 1) kLatencySamples := by
        simp only [add]
        split <;> omega
      rw [List.foldl_cons, ih, one, List.length_cons]
      omega

theorem next_adds (ring : LatencyRing) (samples : List UInt32) :
    (samples.foldl add ring).next = (ring.next + samples.length) % kLatencySamples := by
  induction samples generalizing ring with
  | nil => exact (Nat.mod_eq_of_lt ring.next_lt).symm
  | cons ms samples ih =>
      rw [List.foldl_cons, ih, add, Nat.mod_add_mod, List.length_cons, Nat.add_assoc,
        Nat.add_comm 1]

/-- The live cells hold the last samples, in some order. -/
theorem live_perm (ring : LatencyRing) (samples : List UInt32) :
    ((samples.foldl add ring.reset).buf.take (samples.foldl add ring.reset).count).Perm
      (lastSamples samples) := by
  have count : (samples.foldl add ring.reset).count = min samples.length kLatencySamples := by
    rw [count_adds]
    exact congrArg (min · _) (Nat.zero_add _)
  have next : (samples.foldl add ring.reset).next = samples.length % kLatencySamples := by
    rw [next_adds]
    exact congrArg (· % _) (Nat.zero_add _)
  have cells := oldestFirst_adds ring.reset samples
  have fresh : ring.reset.oldestFirst = ring.buf := by simp [oldestFirst, reset]
  have size := ring.size
  rw [fresh] at cells
  generalize samples.foldl add ring.reset = after at count next cells ⊢
  by_cases few : samples.length < kLatencySamples
  · rw [oldestFirst, next, Nat.mod_eq_of_lt few, List.drop_append_of_le_length (by omega)] at cells
    have same := (List.append_inj cells (by simp [size, after.size])).2
    rw [count, Nat.min_eq_left (by omega), same, lastSamples, Nat.sub_eq_zero_of_le (by omega),
      List.drop_zero]
  · have whole : after.buf.take after.count = after.buf :=
      List.take_of_length_le (by rw [after.size, count]; omega)
    have turned : after.oldestFirst.Perm after.buf := by
      rw [oldestFirst]
      refine List.perm_append_comm.trans ?_
      rw [List.take_append_drop]
    rw [whole, lastSamples, ← size]
    refine turned.symm.trans ?_
    rw [cells, List.drop_append, List.drop_eq_nil_of_le (by omega), List.nil_append]

theorem sorted_eq (ring : LatencyRing) (samples : List UInt32) :
    (samples.foldl add ring.reset).sorted = (lastSamples samples : Multiset UInt32).sort (· ≤ ·) := by
  have live := live_perm ring samples
  generalize samples.foldl add ring.reset = after at live ⊢
  have size : (after.buf.take after.count).length = after.count := by
    rw [List.length_take, after.size]
    exact Nat.min_eq_left after.count_le
  have sorts := sortFrom_eq (after.buf.take after.count) []
  rw [List.append_nil, List.append_nil, size] at sorts
  rw [sorted, sorts, ← List.mergeSort_eq_insertionSort, ← Multiset.coe_sort,
    Multiset.coe_eq_coe.mpr live]

/-! ## The percentiles -/

theorem p50Ms_toNat {values : Multiset UInt32} (sorts : ring.sorted = values.sort (· ≤ ·))
    (cells : ring.count = values.card) : ring.p50Ms.toNat = median values := by
  have small (a : UInt32) : a.toNat < 4294967296 := a.toNat_lt
  rw [p50Ms, median, sorts, cells]
  split
  · next none => simp [Multiset.card_eq_zero.mp none]
  · split
    · rfl
    · have first := small ((values.sort (· ≤ ·)).getD (values.card / 2 - 1) 0)
      have second := small ((values.sort (· ≤ ·)).getD (values.card / 2) 0)
      simp only [UInt64.toNat_toUInt32, UInt64.toNat_div, UInt64.toNat_add, UInt32.toNat_toUInt64]
      rw [Nat.mod_eq_of_lt (a := _ + _) (by omega)]
      exact Nat.mod_eq_of_lt (Nat.lt_of_le_of_lt (Nat.div_le_div_right (b := 8589934590) (by omega)) (by decide))

theorem rank_eq (n : Nat) : ⌈(0.95 : ℚ) * n⌉₊ = (95 * n + 99) / 100 := by
  refine eq_of_forall_ge_iff fun k => ?_
  rw [Nat.ceil_le]
  constructor
  · intro small
    have whole : 95 * n ≤ 100 * k := by
      have scaled : (95 * n : ℚ) ≤ 100 * k := by linarith
      exact_mod_cast scaled
    omega
  · intro small
    have whole : 95 * n ≤ 100 * k := by omega
    have scaled : (95 * n : ℚ) ≤ 100 * k := by exact_mod_cast whole
    linarith

theorem p95Ms_toNat {values : Multiset UInt32} (sorts : ring.sorted = values.sort (· ≤ ·))
    (cells : ring.count = values.card) : ring.p95Ms.toNat = nearestRank95 values := by
  rw [p95Ms, nearestRank95, sorts, cells, rank_eq]
  split
  · next none => simp [Multiset.card_eq_zero.mp none]
  · next some =>
      have first : ¬ (95 * values.card + 99) / 100 < 1 := by omega
      have last : ¬ (95 * values.card + 99) / 100 > values.card := by omega
      simp only [if_neg first, if_neg last]

/-- The median is not above the 95th percentile. -/
theorem median_le (values : Multiset UInt32) : median values ≤ nearestRank95 values := by
  rw [median, nearestRank95, rank_eq]
  have ordered := values.pairwise_sort (· ≤ ·)
  have size := values.length_sort (· ≤ ·)
  generalize values.sort (· ≤ ·) = v at ordered size ⊢
  rw [← size]
  have below : ∀ i j, i ≤ j → j < v.length → (v.getD i 0).toNat ≤ (v.getD j 0).toNat := by
    intro i j order inside
    rcases Nat.eq_or_lt_of_le order with rfl | less
    · exact Nat.le_refl _
    · rw [List.getD_eq_getElem _ _ (by omega), List.getD_eq_getElem _ _ inside]
      exact UInt32.le_iff_toNat_le.mp
        (List.pairwise_iff_getElem.mp ordered i j (by omega) inside less)
  by_cases empty : v.length = 0
  · simp [List.length_eq_zero_iff.mp empty]
  · have middle := below (v.length / 2) ((95 * v.length + 99) / 100 - 1) (by omega) (by omega)
    split
    · exact middle
    · have lower := below (v.length / 2 - 1) (v.length / 2) (by omega) (by omega)
      omega

/-- After any samples since a reset: the ring counts the last 60 of them at most, and
reports their median and their nearest-rank 95th percentile. -/
theorem latency_percentiles (ring : LatencyRing) (samples : List UInt32) :
    (samples.foldl add ring.reset).count = min samples.length kLatencySamples ∧
    (lastSamples samples).length = min samples.length kLatencySamples ∧
    (samples.foldl add ring.reset).p50Ms.toNat = median (lastSamples samples) ∧
    (samples.foldl add ring.reset).p95Ms.toNat = nearestRank95 (lastSamples samples) ∧
    ring.reset.p50Ms = 0 ∧ ring.reset.p95Ms = 0 ∧
    (samples.foldl add ring.reset).p50Ms ≤ (samples.foldl add ring.reset).p95Ms := by
  have count : (samples.foldl add ring.reset).count = min samples.length kLatencySamples := by
    rw [count_adds]
    exact congrArg (min · _) (Nat.zero_add _)
  have last : (lastSamples samples).length = min samples.length kLatencySamples := by
    rw [lastSamples, List.length_drop]
    omega
  have cells := count.trans last.symm
  have p50 := p50Ms_toNat (sorted_eq ring samples) cells
  have p95 := p95Ms_toNat (sorted_eq ring samples) cells
  refine ⟨count, last, p50, p95, rfl, rfl, ?_⟩
  rw [UInt32.le_iff_toNat_le, p50, p95]
  exact median_le _

end LatencyRing

end FryFirmware.Relay
