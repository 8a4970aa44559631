import Mathlib.Algebra.Ring.Nat
import Mathlib.Order.Monotone.Basic
import Mathlib.Tactic.Common

/-!
# Waiting with a bound

A loop looks until something no longer holds it, with a delay between two looks. One that
nothing holds at its limit ends, at the first look that does not hold it.
-/

set_option autoImplicit false

namespace FryFirmware.Lib

/-- The first look, from number `n` on, that does not hold the loop. -/
def waitFrom (holds : Nat → Bool) : Nat → Nat → Option Nat
  | 0, _ => none
  | fuel + 1, n => if holds n then waitFrom holds fuel (n + 1) else some n

theorem waitFrom_eq_some_iff {holds : Nat → Bool} {fuel n k : Nat} :
    waitFrom holds fuel n = some k ↔
      n ≤ k ∧ k < n + fuel ∧ holds k = false ∧ ∀ j, n ≤ j → j < k → holds j = true := by
  induction fuel generalizing n with
  | zero =>
      simp only [waitFrom, reduceCtorEq, false_iff]
      omega
  | succ fuel ih =>
      rw [waitFrom]
      by_cases held : holds n = true
      · rw [if_pos held, ih]
        constructor
        · rintro ⟨low, high, free, earlier⟩
          refine ⟨by omega, by omega, free, fun j from_n before => ?_⟩
          rcases Nat.eq_or_lt_of_le from_n with rfl | later
          · exact held
          · exact earlier j later before
        · rintro ⟨low, high, free, earlier⟩
          have past : n ≠ k := by
            rintro rfl
            rw [held] at free
            cases free
          exact ⟨by omega, by omega, free, fun j from_n before => earlier j (by omega) before⟩
      · rw [if_neg held, Option.some.injEq]
        constructor
        · rintro rfl
          exact ⟨Nat.le_refl _, by omega, Bool.eq_false_iff.mpr held, fun j _ _ => by omega⟩
        · rintro ⟨low, -, -, earlier⟩
          rcases Nat.eq_or_lt_of_le low with same | later
          · exact same
          · exact absurd (earlier n (Nat.le_refl _) later) held

theorem exists_waitFrom {holds : Nat → Bool} {fuel n m : Nat} (low : n ≤ m) (high : m < n + fuel)
    (free : holds m = false) : ∃ k, waitFrom holds fuel n = some k ∧ k ≤ m := by
  induction fuel generalizing n with
  | zero => omega
  | succ fuel ih =>
      rw [waitFrom]
      by_cases held : holds n = true
      · have past : n ≠ m := by
          rintro rfl
          rw [held] at free
          cases free
        rw [if_pos held]
        exact ih (by omega) (by omega)
      · rw [if_neg held]
        exact ⟨n, rfl, low⟩

/-! ## The times of the looks -/

/-- Looks at least `least` apart, each less than `most` behind the one before it, and the first
of them less than `most` behind the start. -/
structure Polled (least most start : Nat) (time : Nat → Nat) : Prop where
  first : start ≤ time 0 ∧ time 0 < start + most
  apart : ∀ n, time n + least ≤ time (n + 1)
  near : ∀ n, time (n + 1) < time n + most

namespace Polled

variable {least most start : Nat} {time : Nat → Nat}

theorem elapsed (polled : Polled least most start time) (n : Nat) : start + n * least ≤ time n := by
  induction n with
  | zero =>
      have := polled.first
      omega
  | succ n ih =>
      have := polled.apart n
      rw [Nat.succ_mul]
      omega

theorem started (polled : Polled least most start time) (n : Nat) : start ≤ time n :=
  Nat.le_trans (Nat.le_add_right _ _) (polled.elapsed n)

theorem ordered (polled : Polled least most start time) {m n : Nat} (later : m ≤ n) :
    time m ≤ time n :=
  monotone_nat_of_le_succ (fun j => Nat.le_trans (Nat.le_add_right _ _) (polled.apart j)) later

/-- When the looks before it were inside the bound, a look is not far behind the bound. -/
theorem soon (polled : Polled least most start time) {limit n : Nat}
    (inside : ∀ j, j < n → time j < start + limit) : time n < start + limit + most := by
  cases n with
  | zero =>
      have := polled.first
      omega
  | succ n =>
      have := polled.near n
      have := inside n (Nat.lt_succ_self n)
      omega

end Polled

section

variable {holds : Nat → Bool} {least most start limit : Nat} {time : Nat → Nat}

/-- A loop that nothing holds any more at the limit is in it only inside the limit. -/
theorem held_inside (polled : Polled least most start time)
    (bounded : ∀ n, start + limit ≤ time n → time n < start + limit + most → holds n = false)
    {n : Nat} (held : ∀ j, j < n → holds j = true) : ∀ j, j < n → time j < start + limit := by
  intro j before
  induction j using Nat.strong_induction_on with
  | _ j ih =>
      have soon := polled.soon fun i earlier => ih i earlier (Nat.lt_trans earlier before)
      by_contra late
      have free := bounded j (Nat.not_lt.mp late) soon
      rw [held j before] at free
      cases free

/-- Such a loop ends, within as many looks as the limit has room for. -/
theorem wait_ends (polled : Polled least most start time)
    (bounded : ∀ n, start + limit ≤ time n → time n < start + limit + most → holds n = false)
    (last : Nat) (room : limit ≤ last * least) :
    ∃ k, waitFrom holds (last + 1) 0 = some k := by
  have reached : ∃ m, m < last + 1 ∧ holds m = false := by
    by_contra none_free
    have held : ∀ j, j < last + 1 → holds j = true := fun j before =>
      Bool.of_not_eq_false fun free => none_free ⟨j, before, free⟩
    have inside := held_inside polled bounded held last (Nat.lt_succ_self last)
    have elapsed := polled.elapsed last
    omega
  obtain ⟨m, inside, free⟩ := reached
  have early : m < 0 + (last + 1) := by omega
  obtain ⟨k, found, -⟩ := exists_waitFrom (Nat.zero_le m) early free
  exact ⟨k, found⟩

end

end FryFirmware.Lib
