import FryFirmware.Wireguard.Client
import FryFirmware.Wireguard.RoutesProperties
import Mathlib.Algebra.Ring.Nat
import Mathlib.Data.List.Basic
import Mathlib.Data.List.Chain
import Mathlib.Tactic.Common

/-!
# When the client tries again

The bounds of every delay, what a pass does, and the runs in which the attempts keep
their distance.
-/

set_option autoImplicit false

namespace FryFirmware.Wireguard

open Lib Config

/-! ## Delays -/

/-- Every delay is between five seconds and a day. -/
def InBounds (delayMs : UInt32) : Prop := 5000 ≤ delayMs.toNat ∧ delayMs.toNat ≤ 86400000

instance (delayMs : UInt32) : Decidable (InBounds delayMs) := inferInstanceAs (Decidable (_ ∧ _))

theorem noClock_inBounds (attemptNumber retryAfterHeaderS : UInt32) :
    InBounds (wgRetryDelayMs .noClock attemptNumber retryAfterHeaderS) := by
  have doubled (shift : Nat) (small : shift ≤ 4) :
      InBounds (if (5000 : UInt32) <<< UInt32.ofNat shift > 60000 then 60000
        else 5000 <<< UInt32.ofNat shift) := by
    interval_cases shift <;> decide
  unfold wgRetryDelayMs
  by_cases early : attemptNumber < 4
  · simp only [if_pos early]
    have small := UInt32.lt_iff_toNat_lt.mp early
    rw [← UInt32.ofNat_toNat (x := attemptNumber)]
    exact doubled attemptNumber.toNat (Nat.le_of_lt small)
  · simp only [if_neg early]
    exact doubled 4 (Nat.le_refl 4)

theorem transient_inBounds (attemptNumber retryAfterHeaderS : UInt32) :
    InBounds (wgRetryDelayMs .transientError attemptNumber retryAfterHeaderS) := by
  have doubled (shift : Nat) (small : shift ≤ 32) :
      InBounds (if (30000 : UInt64) <<< (UInt32.ofNat shift).toUInt64 > 1800000 ||
          UInt32.ofNat shift = 32 then 1800000
        else (30000 : UInt64) <<< (UInt32.ofNat shift).toUInt64).toUInt32 := by
    interval_cases shift <;> decide
  unfold wgRetryDelayMs
  by_cases late : attemptNumber > 32
  · simp only [if_pos late]
    exact doubled 32 (Nat.le_refl 32)
  · simp only [if_neg late]
    have small := UInt32.le_iff_toNat_le.mp (UInt32.not_lt.mp late)
    rw [← UInt32.ofNat_toNat (x := attemptNumber)]
    exact doubled attemptNumber.toNat small

theorem retryAfter_inBounds (attemptNumber retryAfterHeaderS : UInt32) :
    InBounds (wgRetryDelayMs .conflict409 attemptNumber retryAfterHeaderS) := by
  unfold wgRetryDelayMs
  by_cases given : retryAfterHeaderS > 0
  · simp only [if_pos given]
    generalize retryAfterHeaderS.toUInt64 * 1000 = ms
    by_cases short : ms < 60000
    · rw [if_pos short]
      decide
    · rw [if_neg short]
      by_cases long : ms > 86400000
      · rw [if_pos long]
        decide
      · rw [if_neg long]
        have low := UInt64.le_iff_toNat_le.mp (UInt64.not_lt.mp short)
        have high := UInt64.le_iff_toNat_le.mp (UInt64.not_lt.mp long)
        simp only [UInt64.reduceToNat] at low high
        have same : ms.toUInt32.toNat = ms.toNat := by
          rw [UInt64.toNat_toUInt32]
          exact Nat.mod_eq_of_lt (by omega)
        rw [InBounds, same]
        omega
  · simp only [if_neg given]
    decide

theorem wgRetryDelayMs_inBounds (outcome : WgFetchOutcome) (attemptNumber retryAfterHeaderS : UInt32) :
    InBounds (wgRetryDelayMs outcome attemptNumber retryAfterHeaderS) := by
  cases outcome with
  | noClock => exact noClock_inBounds attemptNumber retryAfterHeaderS
  | transientError => exact transient_inBounds attemptNumber retryAfterHeaderS
  | serverError5xx => exact transient_inBounds attemptNumber retryAfterHeaderS
  | ok => exact transient_inBounds attemptNumber retryAfterHeaderS
  | conflict409 => exact retryAfter_inBounds attemptNumber retryAfterHeaderS
  | rateLimited429 => exact retryAfter_inBounds attemptNumber retryAfterHeaderS
  | noToken => exact (by decide : InBounds 60000)
  | noHeap => exact (by decide : InBounds 60000)
  | unauthorized401 => exact (by decide : InBounds 900000)
  | forbidden403 => exact (by decide : InBounds 21600000)
  | otherClientError4xx => exact (by decide : InBounds 21600000)

/-! ## One pass -/

/-- The deadline holds the pass back. -/
def Client.Shut (c : Client) (now : UInt32) : Prop := c.nextAttemptMs ≠ 0 ∧ now < c.nextAttemptMs

instance (c : Client) (now : UInt32) : Decidable (c.Shut now) := inferInstanceAs (Decidable (_ ∧ _))

theorem planResponse_total (cfg : WgProvisionConfig) (sta : Station) :
    ∃ plan, planResponse cfg sta = some plan := by
  unfold planResponse
  cases read : (some cfg.addressCidr).bind readCidr with
  | none => exact ⟨_, planWgRoutes_unreadable read _ sta⟩
  | some route => exact ⟨_, planWgRoutes_eq read _ sta⟩

/-- Only the keys are written before the response is there. -/
theorem fetch_hasVpnConfig (store : Vpn) (on : Circumstances) :
    (fetch store on).1.hasVpnConfig = store.hasVpnConfig := by
  have keys {kept : Vpn} (ensured : ensureKeypair store on = some kept) :
      kept.hasVpnConfig = store.hasVpnConfig := by
    unfold ensureKeypair at ensured
    split at ensured
    · rw [Option.some.inj ensured]
    · obtain ⟨pair, -, rfl⟩ := Option.map_eq_some_iff.mp ensured
      rfl
  unfold fetch
  split
  · cases ensured : ensureKeypair store on with
    | none => rfl
    | some kept =>
        simp only
        split
        · exact keys ensured
        · split <;> exact keys ensured
  · rfl

theorem tick_cases (c : Client) (now : UInt32) (on : Circumstances) :
    ∃ did c', tick c now on = some (did, c') ∧
      ((c.store.hasVpnConfig = true ∧ did = .configured ∧ c' = c) ∨
        (c.store.hasVpnConfig = false ∧ c.Shut now ∧ did = .waiting ∧ c' = c) ∨
        (c.store.hasVpnConfig = false ∧ ¬ c.Shut now ∧ ∃ response, did = .provisioned response ∧
          c'.nextAttemptMs = 0) ∨
        (c.store.hasVpnConfig = false ∧ ¬ c.Shut now ∧ ∃ outcome retryAfterS,
          did = .deferred (wgRetryDelayMs outcome c.attemptNumber retryAfterS) ∧
          c'.nextAttemptMs = now + wgRetryDelayMs outcome c.attemptNumber retryAfterS ∧
          c'.store.hasVpnConfig = false)) := by
  have kept := fetch_hasVpnConfig c.store on
  unfold tick
  generalize fetch c.store on = fetched at kept
  cases configured : c.store.hasVpnConfig with
  | true => exact ⟨.configured, c, rfl, .inl ⟨rfl, rfl, rfl⟩⟩
  | false =>
      simp only [Bool.false_eq_true, if_false]
      by_cases shut : c.Shut now
      · have guard : (decide (c.nextAttemptMs ≠ 0) && decide (now < c.nextAttemptMs)) = true := by
          simpa [Client.Shut] using shut
        rw [if_pos guard]
        exact ⟨.waiting, c, rfl, .inr (.inl ⟨trivial, shut, rfl, rfl⟩)⟩
      · have guard : ¬ (decide (c.nextAttemptMs ≠ 0) && decide (now < c.nextAttemptMs)) = true := by
          simpa [Client.Shut] using shut
        rw [if_neg guard]
        obtain ⟨store, httpStatus, accepted, retryAfterS⟩ := fetched
        cases accepted with
        | some cfg =>
            obtain ⟨plan, planned⟩ := planResponse_total cfg on.station
            simp only [planned, Option.map_some]
            exact ⟨_, _, rfl, .inr (.inr (.inl ⟨trivial, shut, _, rfl, rfl⟩))⟩
        | none =>
            exact ⟨_, _, rfl, .inr (.inr (.inr ⟨trivial, shut, _, _, rfl, rfl, kept.trans configured⟩))⟩

/-! ## Runs -/

/-- A call of `tick` in real time. -/
structure Call where
  time : Nat
  on : Circumstances

/-- What the call at a time did. -/
structure Visit where
  time : Nat
  did : Pass
  deriving DecidableEq, Repr

/-- A run from a state; the counter has 32 bits. -/
def runTicks : Client → List Call → Option (List Visit)
  | _, [] => some []
  | c, call :: rest =>
      (tick c (UInt32.ofNat call.time) call.on).bind fun (did, c) =>
        (runTicks c rest).map (⟨call.time, did⟩ :: ·)

def Pass.attempts : Pass → Bool
  | .configured => false
  | .waiting => false
  | .provisioned _ => true
  | .deferred _ => true

/-- When the delay that the last attempt scheduled is over, if it scheduled one. -/
def dueAfter (due : Option Nat) (visit : Visit) : Option Nat :=
  match visit.did with
  | .configured => due
  | .waiting => due
  | .provisioned _ => none
  | .deferred delayMs => some (visit.time + delayMs.toNat)

/-- At every visit after a scheduled delay, this holds of the end of that delay. -/
def EveryVisit (holds : Nat → Visit → Prop) : Option Nat → List Visit → Prop
  | _, [] => True
  | due, visit :: rest =>
      (∀ d ∈ due, holds d visit) ∧ EveryVisit holds (dueAfter due visit) rest

/-- The visit attempts exactly when the delay is over, which is at most a second ago. -/
structure OnTime (due : Nat) (visit : Visit) : Prop where
  attempts : visit.did.attempts = true ↔ due ≤ visit.time
  prompt : visit.time ≤ due + 1000

/-- The counter wraps neither between the visit and the end of the delay nor at that
end. -/
structure SameSpan (due : Nat) (visit : Visit) : Prop where
  span : visit.time / 2 ^ 32 = due / 2 ^ 32
  nonzero : due % 2 ^ 32 ≠ 0

/-- The next call comes within a second. -/
def Near (time next : Nat) : Prop := time ≤ next ∧ next ≤ time + 1000

/-- The client has a delay to keep, and was called last at this time. -/
structure Waits (c : Client) (last due : Nat) : Prop where
  unconfigured : c.store.hasVpnConfig = false
  next : c.nextAttemptMs = UInt32.ofNat due
  ahead : last < due
  near : due ≤ last + 86400000
  wrapped : due % 2 ^ 32 = 0 → last + 1000 < due

theorem Waits.shut_iff {c : Client} {last due : Nat} (waits : Waits c last due) (time : Nat) :
    c.Shut (UInt32.ofNat time) ↔ due % 2 ^ 32 ≠ 0 ∧ time % 2 ^ 32 < due % 2 ^ 32 := by
  rw [Client.Shut, waits.next, UInt32.lt_iff_toNat_lt, UInt32.toNat_ofNat', UInt32.toNat_ofNat',
    Ne, ← UInt32.toNat_inj, UInt32.toNat_ofNat']
  rfl

/-- A pass goes beyond the deadline just when the delay is over, exactly in the same
span of the counter. -/
theorem Waits.sameSpan_iff {c : Client} {last due : Nat} (waits : Waits c last due) {visit : Visit}
    (soon : Near last visit.time)
    (attempts : visit.did.attempts = true ↔ ¬ c.Shut (UInt32.ofNat visit.time)) :
    SameSpan due visit ↔ OnTime due visit := by
  have ahead := waits.ahead
  have near := waits.near
  have wrapped := waits.wrapped
  obtain ⟨later, soon⟩ := soon
  rw [waits.shut_iff] at attempts
  constructor
  · rintro ⟨span, nonzero⟩
    exact ⟨by rw [attempts]; omega, by omega⟩
  · rintro ⟨exact, -⟩
    rw [attempts] at exact
    exact ⟨by omega, by omega⟩

theorem ofNat_add_delay (time : Nat) (delayMs : UInt32) :
    UInt32.ofNat time + delayMs = UInt32.ofNat (time + delayMs.toNat) := by
  rw [UInt32.ofNat_add, UInt32.ofNat_toNat]

/-- The client waits from the moment of a deferral on. -/
theorem waits_deferred {c : Client} {time : Nat} {delayMs : UInt32} (bounds : InBounds delayMs)
    (next : c.nextAttemptMs = UInt32.ofNat time + delayMs)
    (unconfigured : c.store.hasVpnConfig = false) : Waits c time (time + delayMs.toNat) := by
  obtain ⟨low, high⟩ := bounds
  exact ⟨unconfigured, next.trans (ofNat_add_delay time delayMs), by omega, by omega, fun _ => by omega⟩

theorem waits_waiting {c : Client} {last due time : Nat} (waits : Waits c last due)
    (later : last ≤ time) (ahead : time < due) (shut : c.Shut (UInt32.ofNat time)) :
    Waits c time due where
  unconfigured := waits.unconfigured
  next := waits.next
  ahead := ahead
  near := by
    have near := waits.near
    omega
  wrapped := fun zero => absurd zero ((waits.shut_iff time).mp shut).1

theorem runTicks_cons {c c' : Client} {call : Call} {did : Pass} (rest : List Call)
    (passed : tick c (UInt32.ofNat call.time) call.on = some (did, c')) :
    runTicks c (call :: rest) = (runTicks c' rest).map (⟨call.time, did⟩ :: ·) := by
  rw [runTicks, passed]
  rfl

theorem runTicks_total (c : Client) (calls : List Call) : ∃ log, runTicks c calls = some log := by
  induction calls generalizing c with
  | nil => exact ⟨[], rfl⟩
  | cons call rest ih =>
      obtain ⟨did, c', passed, -⟩ := tick_cases c (UInt32.ofNat call.time) call.on
      obtain ⟨log, ran⟩ := ih c'
      exact ⟨⟨call.time, did⟩ :: log, by rw [runTicks_cons rest passed, ran, Option.map_some]⟩

/-- From any state, with the delay that the client keeps if it keeps one. -/
theorem everyVisit_iff {calls : List Call} {c : Client} {due : Option Nat} {last : Nat}
    {log : List Visit} (waits : ∀ d ∈ due, Waits c last d)
    (often : (last :: calls.map (·.time)).IsChain Near) (ran : runTicks c calls = some log) :
    EveryVisit SameSpan due log ↔ EveryVisit OnTime due log := by
  induction calls generalizing c due last log with
  | nil =>
      cases ran
      exact Iff.rfl
  | cons call rest ih =>
      rw [List.map_cons, List.isChain_cons_cons] at often
      obtain ⟨soon, often⟩ := often
      obtain ⟨did, c', passed, cases⟩ := tick_cases c (UInt32.ofNat call.time) call.on
      rw [runTicks_cons rest passed] at ran
      obtain ⟨log, rested, rfl⟩ := Option.map_eq_some_iff.mp ran
      rw [EveryVisit, EveryVisit]
      have here (attempts : ∀ d ∈ due, did.attempts = true ↔ ¬ c.Shut (UInt32.ofNat call.time)) :
          (∀ d ∈ due, SameSpan d ⟨call.time, did⟩) ↔ ∀ d ∈ due, OnTime d ⟨call.time, did⟩ :=
        forall₂_congr fun d known => (waits d known).sameSpan_iff soon (attempts d known)
      rcases cases with ⟨configured, rfl, rfl⟩ | ⟨-, shut, rfl, rfl⟩ | ⟨-, free, response, rfl, -⟩ |
        ⟨-, free, outcome, retryAfterS, rfl, next, unconfigured⟩
      · -- a configuration: there is no delay to keep
        have idle : due = none := Option.eq_none_iff_forall_not_mem.mpr fun d known => by
          rw [(waits d known).unconfigured] at configured
          cases configured
        subst idle
        exact and_congr (by simp) (ih (fun d known => by cases known) often rested)
      · rw [here fun d _ => iff_of_false Bool.false_ne_true (not_not_intro shut)]
        refine and_congr_right fun onTime => ih (fun d known => ?_) often rested
        have ahead : ¬ d ≤ call.time := fun passed => by
          have attempted := (onTime d known).attempts.mpr passed
          cases attempted
        exact waits_waiting (waits d known) soon.1 (by omega) shut
      · rw [here fun d _ => iff_of_true rfl free]
        exact and_congr_right fun _ => ih (by simp [dueAfter]) often rested
      · rw [here fun d _ => iff_of_true rfl free]
        refine and_congr_right fun _ => ih (fun d known => ?_) often rested
        obtain rfl := Option.some.inj known
        exact waits_deferred (wgRetryDelayMs_inBounds _ _ _) next unconfigured

/-! ## Successive attempts -/

/-- Two successive attempts are at least the delay apart that the first one scheduled,
and at most a second more. -/
def Paced (log : List Visit) : Prop :=
  ∀ front first between next back, log = front ++ first :: (between ++ next :: back) →
    ∀ delayMs, first.did = .deferred delayMs → (∀ visit ∈ between, visit.did.attempts = false) →
      next.did.attempts = true → first.time + delayMs.toNat ≤ next.time ∧
        next.time ≤ first.time + delayMs.toNat + 1000

theorem everyVisit_append {holds : Nat → Visit → Prop} {due : Option Nat} {front back : List Visit} :
    EveryVisit holds due (front ++ back) ↔
      EveryVisit holds due front ∧ EveryVisit holds (front.foldl dueAfter due) back := by
  induction front generalizing due with
  | nil => exact (and_iff_right trivial).symm
  | cons visit front ih =>
      rw [List.cons_append, EveryVisit, EveryVisit, ih, List.foldl_cons, and_assoc]

theorem foldl_dueAfter_quiet {between : List Visit} (due : Option Nat)
    (quiet : ∀ visit ∈ between, visit.did.attempts = false) : between.foldl dueAfter due = due := by
  induction between with
  | nil => rfl
  | cons visit between ih =>
      have still : dueAfter due visit = due := by
        have none := quiet visit List.mem_cons_self
        unfold dueAfter
        cases did : visit.did with
        | configured => rfl
        | waiting => rfl
        | provisioned => simp [did, Pass.attempts] at none
        | deferred => simp [did, Pass.attempts] at none
      rw [List.foldl_cons, still]
      exact ih fun visit later => quiet visit (List.mem_cons_of_mem _ later)

theorem paced_of_onTime {log : List Visit} (onTime : EveryVisit OnTime none log) : Paced log := by
  rintro front first between next back rfl delayMs deferred quiet attempts
  have later := (everyVisit_append.mp onTime).2.2
  have due : dueAfter (front.foldl dueAfter none) first = some (first.time + delayMs.toNat) := by
    rw [dueAfter, deferred]
  rw [everyVisit_append, due, foldl_dueAfter_quiet _ quiet] at later
  obtain ⟨exact, prompt⟩ := later.2.1 _ rfl
  exact ⟨exact.mp attempts, prompt⟩

/-- Runs of calls at most a second apart, from the start: the attempts are paced as
long as no call after a scheduled delay is in another span of the counter than the end
of that delay, or that end is where the counter reads 0. The calls on which this fails
are those at which the client attempts too early or not when it should. -/
theorem tick_paced (store : Vpn) (calls : List Call) (often : (calls.map (·.time)).IsChain Near) :
    ∃ log, runTicks { store } calls = some log ∧ (EveryVisit SameSpan none log → Paced log) ∧
      (EveryVisit SameSpan none log ↔ EveryVisit OnTime none log) := by
  obtain ⟨log, ran⟩ := runTicks_total { store } calls
  have start : ((calls.map (·.time)).headD 0 :: calls.map (·.time)).IsChain Near := by
    cases calls with
    | nil => exact List.isChain_singleton _
    | cons call rest =>
        rw [List.map_cons, List.headD_cons, List.isChain_cons_cons]
        exact ⟨⟨Nat.le_refl _, Nat.le_add_right _ _⟩, often⟩
  have same : EveryVisit SameSpan none log ↔ EveryVisit OnTime none log :=
    everyVisit_iff (fun d known => by cases known) start ran
  exact ⟨log, ran, fun span => paced_of_onTime (same.mp span), same⟩

def tokenless : Circumstances where
  hasToken := false
  heapOk := true
  clockOk := true
  keys := none
  privKept := true
  pubKept := true
  begins := true
  posted := -1
  retryAfterS := 0
  body := none
  station := ⟨0, 0, 0⟩
  epochS := 0
  fates := []

/-- Two calls in the last second before the counter wraps. -/
def lastCalls : List Call := [⟨2 ^ 32 - 1000, tokenless⟩, ⟨2 ^ 32 - 500, tokenless⟩]

theorem tick_paced_lastCalls :
    ∃ log, runTicks { store := {} } lastCalls = some log ∧ (EveryVisit SameSpan none log → Paced log) ∧
      (EveryVisit SameSpan none log ↔ EveryVisit OnTime none log) :=
  tick_paced {} lastCalls (by
    rw [lastCalls, List.map_cons, List.map_singleton, List.isChain_pair]
    exact ⟨by decide, by decide⟩)

/-- The second call tries again after half a second instead of a minute. -/
theorem lastCalls_unpaced : ∃ log, runTicks { store := {} } lastCalls = some log ∧ ¬ Paced log := by
  have ran : runTicks { store := {} } lastCalls =
      some [⟨4294966296, .deferred 60000⟩, ⟨4294966796, .deferred 60000⟩] := by decide +kernel
  refine ⟨_, ran, fun paced => ?_⟩
  have apart := (paced [] _ [] _ [] rfl 60000 rfl nofun rfl).1
  exact absurd apart (by decide)

end FryFirmware.Wireguard
