import FryFirmware.Strikes.Bound
import Mathlib.Data.List.Basic
import Mathlib.Tactic.Common

/-!
# The strikes under power losses

Where power is lost at a safe point the strikes are still the failures. The pending
version is forgotten after the strike, so a loss between the two enters it again.
-/

set_option autoImplicit false

namespace FryFirmware.Strikes

open Lib
open Config (Text text)

/-- Every failure has one strike, and nothing else has one. -/
theorem strikes_exact (p : Platform) (x : Text) (build : Build) (b : Board) (fresh : Fresh b)
    (events : List (Event × List Fate)) (names : ∀ event ∈ events, event.1.Names x)
    (meets : ∀ step ∈ stepsAll p build b events, Meets p step)
    (running : (runAll p build b events).position = .running) :
    strikesOf x (runAll p build b events).store =
      strikesOf x b.store + failures p x (runAll p build b events) := by
  obtain ⟨-, accounted⟩ := runAll_accounted build names (fresh_accounted fresh) meets
  exact (accounted.running running).even

/-- The new version crashes, and power is lost before the strike and after it. -/
def interruptedCrash : List (Event × List Fate) :=
  [done .boot, done updateCheck, done .boot, done .crash, (.boot, []), (.boot, [.done, .done, .done]), done .boot]

theorem strikes_exact_interrupted :
    strikesOf newVersion.val (runAll (.esp32 true) prodBuild shipped interruptedCrash).store =
      strikesOf newVersion.val shipped.store +
        failures (.esp32 true) newVersion.val (runAll (.esp32 true) prodBuild shipped interruptedCrash) :=
  strikes_exact (.esp32 true) newVersion.val prodBuild shipped shipped_fresh interruptedCrash
    (by decide +kernel) (by decide +kernel) (by decide +kernel)

/-- The new version crashes, and power is lost between the strike and the removal of the
pending version. -/
def strikeTwice : List (Event × List Fate) :=
  [done .boot, done updateCheck, done .boot, done .crash, (.boot, [.done, .done]), done .boot]

/-- One crash, two strikes. -/
theorem strike_counted_twice :
    Fresh shipped ∧ (∀ event ∈ strikeTwice, event.1.Names newVersion.val) ∧
      (∀ step ∈ stepsAll (.esp32 true) prodBuild shipped strikeTwice, step.ending ≠ .lost) ∧
      (runAll (.esp32 true) prodBuild shipped strikeTwice).position = .running ∧
      failures (.esp32 true) newVersion.val (runAll (.esp32 true) prodBuild shipped strikeTwice) = 1 ∧
      strikesOf newVersion.val shipped.store = 0 ∧
      strikesOf newVersion.val (runAll (.esp32 true) prodBuild shipped strikeTwice).store = 2 :=
  ⟨shipped_fresh, by decide +kernel, by decide +kernel, by decide +kernel, by decide +kernel, by decide +kernel,
    by decide +kernel⟩

end FryFirmware.Strikes
