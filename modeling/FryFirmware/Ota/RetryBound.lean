import FryFirmware.Ota.ScheduleProperties
import Mathlib.Data.List.Basic
import Mathlib.Tactic.Common

/-!
# How many short retries come in a row

The two retry counters of `afterCheck` over an endless run of checks. Each counts the
checks of its own kind in a row, and a check of the other kind puts it back to zero.
-/

set_option autoImplicit false

namespace FryFirmware.Ota

/-! ## Endless runs of checks -/

/-- What `checkNow` reports: a refusal for lack of heap, a manifest body that did not
arrive whole, or anything else. -/
inductive Outcome where
  | heapRefused
  | readFailed
  | neither
  deriving DecidableEq, Repr

def Outcome.s_heapRefused (o : Outcome) : Bool := o = .heapRefused

def Outcome.s_readFailed (o : Outcome) : Bool := o = .readFailed

structure Checks where
  outcome : Nat → Outcome
  now : Nat → UInt32

namespace Checks

/-- The scheduler before each check; it starts as after a boot. -/
def before (c : Checks) : Nat → Scheduler
  | 0 => {}
  | n + 1 => afterCheck (c.before n) (c.now n) (c.outcome n).s_heapRefused (c.outcome n).s_readFailed

/-- After this check the next one is due in `kOtaHeapRetryMs`. -/
def Short (c : Checks) (n : Nat) : Prop :=
  (c.before (n + 1)).lastCheckMs = c.now n - (OTA_CHECK_MS - kOtaHeapRetryMs)

/-- After this check the next one is due in `OTA_CHECK_MS`. -/
def Full (c : Checks) (n : Nat) : Prop :=
  (c.before (n + 1)).lastCheckMs = c.now n - (OTA_CHECK_MS - OTA_CHECK_MS)

/-- No more than `2 * kOtaHeapRetryMax` checks in a row have the short wait. -/
def Bounded (c : Checks) : Prop := ∀ n, ∃ k, k ≤ 2 * kOtaHeapRetryMax ∧ c.Full (n + k)

/-- How many checks right before this one had that outcome. -/
def inARow (c : Checks) (kind : Outcome) : Nat → Nat
  | 0 => 0
  | n + 1 => if c.outcome n = kind then c.inARow kind n + 1 else 0

/-! ## The counters -/

variable (c : Checks)

theorem otaNextCheckDelayMs_retries (refused : Bool) (row : Nat) :
    (otaNextCheckDelayMs refused (min kOtaHeapRetryMax row) OTA_CHECK_MS).2 =
      min kOtaHeapRetryMax (if refused then row + 1 else 0) := by
  cases refused with
  | false => rfl
  | true =>
      by_cases spent : kOtaHeapRetryMax ≤ row
      · have beyond : kOtaHeapRetryMax ≤ row + 1 := Nat.le_succ_of_le spent
        simp [otaNextCheckDelayMs, spent, beyond]
      · have below : row < kOtaHeapRetryMax := Nat.lt_of_not_le spent
        have least : min kOtaHeapRetryMax row = row := Nat.min_eq_right (Nat.le_of_lt below)
        simp [otaNextCheckDelayMs, least, spent, Nat.min_eq_right below]

theorem before_retries (n : Nat) :
    (c.before n).heapRetries = min kOtaHeapRetryMax (c.inARow .heapRefused n) ∧
      (c.before n).readRetries = min kOtaHeapRetryMax (c.inARow .readFailed n) := by
  induction n with
  | zero => exact ⟨rfl, rfl⟩
  | succ n ih =>
      obtain ⟨heap, read⟩ := ih
      have counted (kind : Outcome) : c.inARow kind (n + 1) =
          if decide (c.outcome n = kind) = true then c.inARow kind n + 1 else 0 := by
        simp [inARow]
      simp only [before, afterCheck, heap, read, otaNextCheckDelayMs_retries, counted]
      exact ⟨rfl, rfl⟩

theorem backdate_ne (now : UInt32) : now - backdateMs ≠ now := by
  have amount : backdateMs.toNat = 21000000 := by decide
  intro same
  have values := congrArg UInt32.toNat same
  rw [UInt32.toNat_sub, amount] at values
  have bound := now.toNat_lt
  omega

theorem full_iff_hasRetry (n : Nat) :
    c.Full n ↔ hasRetry (c.before n) (c.outcome n).s_heapRefused (c.outcome n).s_readFailed = false := by
  have other := backdate_ne (c.now n)
  rw [Full, before, afterCheck_lastCheckMs, Check.base]
  cases hasRetry (c.before n) (c.outcome n).s_heapRefused (c.outcome n).s_readFailed <;> simp [other]

theorem short_iff (n : Nat) : c.Short n ↔ ¬ c.Full n := by
  have other := (backdate_ne (c.now n)).symm
  rw [full_iff_hasRetry, Short, before, afterCheck_lastCheckMs, Check.base, ← backdateMs]
  cases hasRetry (c.before n) (c.outcome n).s_heapRefused (c.outcome n).s_readFailed <;> simp [other]

/-- The full wait follows where nothing failed, and where six checks with the same
failure came right before. -/
theorem full_iff (n : Nat) :
    c.Full n ↔ c.outcome n = .neither ∨ kOtaHeapRetryMax ≤ c.inARow (c.outcome n) n := by
  obtain ⟨heap, read⟩ := c.before_retries n
  rw [full_iff_hasRetry, hasRetry, heap, read]
  cases c.outcome n <;> simp [Outcome.s_heapRefused, Outcome.s_readFailed, Nat.le_min]

/-- The short waits are bounded exactly where among any thirteen checks in a row one
had no failure, or six with the same failure right before it. -/
theorem bounded_iff :
    c.Bounded ↔ ∀ n, ∃ k, k ≤ 2 * kOtaHeapRetryMax ∧
      (c.outcome (n + k) = .neither ∨ kOtaHeapRetryMax ≤ c.inARow (c.outcome (n + k)) (n + k)) := by
  simp only [Bounded, full_iff]

theorem le_inARow {kind : Outcome} {n m : Nat} (same : ∀ j, j < m → c.outcome (n + j) = kind) :
    m ≤ c.inARow kind (n + m) := by
  induction m with
  | zero => exact Nat.zero_le _
  | succ m ih =>
      have row := ih fun j below => same j (Nat.lt_succ_of_lt below)
      rw [← Nat.add_assoc, inARow, if_pos (same m (Nat.lt_succ_self m))]
      exact Nat.succ_le_succ row

/-- One kind of failure alone is bounded. -/
theorem bounded_of_one_kind {kind : Outcome} (only : ∀ n, c.outcome n = kind ∨ c.outcome n = .neither) :
    c.Bounded := by
  rw [bounded_iff]
  intro n
  by_cases passed : ∃ k, k ≤ 2 * kOtaHeapRetryMax ∧ c.outcome (n + k) = .neither
  · obtain ⟨k, near, neither⟩ := passed
    exact ⟨k, near, .inl neither⟩
  · have same : ∀ k, k ≤ 2 * kOtaHeapRetryMax → c.outcome (n + k) = kind := fun k near =>
      (only (n + k)).resolve_right fun neither => passed ⟨k, near, neither⟩
    have row := c.le_inARow (n := n) (m := kOtaHeapRetryMax) fun j below => same j (by omega)
    refine ⟨kOtaHeapRetryMax, by decide, .inr ?_⟩
    rwa [same kOtaHeapRetryMax (by decide)]

/-- The two failures in turn. -/
def alternating : Checks where
  outcome n := if n % 2 = 0 then .heapRefused else .readFailed
  now n := 600000 * n.toUInt32

theorem alternating_inARow (n : Nat) :
    alternating.inARow (alternating.outcome n) n = 0 := by
  cases n with
  | zero => rfl
  | succ n =>
      have other : alternating.outcome n ≠ alternating.outcome (n + 1) := by
        rcases Nat.mod_two_eq_zero_or_one n with even | odd
        · have next : (n + 1) % 2 = 1 := by omega
          simp [alternating, even, next]
        · have next : (n + 1) % 2 = 0 := by omega
          simp [alternating, odd, next]
      rw [inARow, if_neg other]

theorem alternating_short (n : Nat) : alternating.Short n := by
  rw [short_iff, full_iff, alternating_inARow]
  rintro (neither | row)
  · simp only [alternating] at neither
    split at neither <;> cases neither
  · exact absurd row (by decide)

/-- They keep the short wait for ever. -/
theorem alternating_unbounded : ¬ alternating.Bounded := by
  intro bounded
  obtain ⟨k, -, full⟩ := bounded 0
  exact (alternating.short_iff _).mp (alternating_short _) full

end Checks

end FryFirmware.Ota
