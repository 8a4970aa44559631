import FryFirmware.Reports.Pacing

/-!
# What the schedule comes to

In real time and in closed form: when a pass registers, samples and reports, after any
history of answers. A failed registration is repeated after a minute, and after twice as
long with each further failure, up to an hour.
-/

set_option autoImplicit false

namespace FryFirmware.Reports

open Lib Lib.OrderedTrace
open Boot (Chip)
open Identity (RegClass)

/-! ## What was done -/

def registrationTimes (trace : List Done) : List Nat :=
  trace.filterMap fun
    | .registration time _ => some time
    | _ => none

def endings (trace : List Done) : List Registered :=
  trace.filterMap fun
    | .registration _ how => some how
    | _ => none

def samples (trace : List Done) : List Nat :=
  trace.filterMap fun
    | .sample time => some time
    | _ => none

def reports (trace : List Done) : List Nat :=
  trace.filterMap fun
    | .report time => some time
    | _ => none

/-! ## The delay in closed form -/

/-- The server, or the network on the way to it, has spoken. -/
def Registered.settled : Registered → Bool
  | .failed _ | .registered => true
  | _ => false

def Registered.isFailed : Registered → Bool
  | .failed _ => true
  | _ => false

def Registered.isSkipped : Registered → Bool
  | .skipped => true
  | _ => false

/-- How many registrations failed since the last one that did not. -/
def failuresInARow (endings : List Registered) : Nat :=
  ((endings.filter Registered.settled).rtakeWhile Registered.isFailed).length

def backoff (cls : RegClass) (failures : Nat) : Nat :=
  if cls = .unreachable then min (60000 * 2 ^ (failures - 1)) 3600000 else 3600000

/-- How long the next registration waits, behind registrations that ended so. -/
def scheduledDelay (endings : List Registered) : Nat :=
  match (endings.filter fun how => !how.isSkipped).getLast? with
  | none | some .skipped | some .registered => 3600000
  | some (.deferred gateMs) => (gateMs + 250).toNat
  | some (.failed cls) => backoff cls (failuresInARow endings)

theorem failuresInARow_concat (endings : List Registered) (how : Registered) :
    failuresInARow (endings ++ [how]) =
      match how with
      | .deferred _ | .skipped => failuresInARow endings
      | .failed _ => failuresInARow endings + 1
      | .registered => 0 := by
  rw [failuresInARow, List.filter_append]
  cases how with
  | deferred | skipped => simp [Registered.settled, failuresInARow]
  | failed cls =>
      simp only [List.filter_cons, Registered.settled, if_true, List.filter_nil]
      rw [List.rtakeWhile_concat_pos _ _ _ rfl, List.length_append, failuresInARow]
      rfl
  | registered =>
      simp only [List.filter_cons, Registered.settled, if_true, List.filter_nil]
      rw [List.rtakeWhile_concat_neg _ _ _ (by simp [Registered.isFailed])]
      rfl

theorem scheduledDelay_concat (endings : List Registered) (how : Registered) :
    scheduledDelay (endings ++ [how]) =
      match how with
      | .deferred gateMs => (gateMs + 250).toNat
      | .skipped => scheduledDelay endings
      | .failed cls => backoff cls (failuresInARow endings + 1)
      | .registered => 3600000 := by
  have counted := failuresInARow_concat endings how
  rw [scheduledDelay, List.filter_append]
  cases how with
  | skipped =>
      rw [counted]
      simp [Registered.isSkipped, scheduledDelay]
  | failed cls => simp [Registered.isSkipped, counted]
  | deferred | registered => simp [Registered.isSkipped]

theorem backoff_of_many {cls : RegClass} {failures : Nat} (many : 7 ≤ failures) :
    backoff cls failures = 3600000 := by
  rw [backoff]
  split
  · have large : 2 ^ 6 ≤ 2 ^ (failures - 1) := Nat.pow_le_pow_right (by decide) (by omega)
    omega
  · rfl

/-- The delay of the code, which never shifts by more than six bits. -/
theorem toNat_nextRegisterDelayMs (cls : RegClass) {failures : UInt32} (some_failed : failures ≠ 0) :
    (nextRegisterDelayMs cls failures).toNat = backoff cls failures.toNat := by
  rw [nextRegisterDelayMs]
  by_cases unreachable : cls = .unreachable
  · rw [if_neg (by simpa using unreachable)]
    simp only [if_neg some_failed]
    split
    · next many =>
      have := UInt32.lt_iff_toNat_lt.mp many
      rw [backoff_of_many]
      · rfl
      · simp only [UInt32.reduceToNat] at this
        omega
    · next few =>
      have low := UInt32.le_iff_toNat_le.mp (UInt32.not_lt.mp few)
      have positive : failures.toNat ≠ 0 := fun zero => some_failed (UInt32.toNat_inj.mp zero)
      simp only [UInt32.reduceToNat] at low
      have small : failures.toNat < 8 := by omega
      generalize number : failures.toNat = n at small positive
      obtain rfl : failures = UInt32.ofNat n := by rw [← number, UInt32.ofNat_toNat]
      rw [unreachable]
      clear low few number some_failed
      revert positive
      revert n
      decide
  · rw [if_pos (by simpa using unreachable), backoff, if_neg unreachable]
    rfl

/-! ## What the schedule remembers -/

/-- When the last registration began that the schedule knows of; zero for none. -/
def lastRegistration (chip : Chip) (started : Nat) (atBoot : Registered) (trace : List Done) : Nat :=
  (registrationTimes trace).getLast?.getD
    (if chip = .esp8266 ∧ atBoot = .registered then
      if counter started ≠ 0 then started else started + 1
    else 0)

def lastSample (trace : List Done) : Nat := (samples trace).getLast?.getD 0

def lastReport (trace : List Done) : Nat := (reports trace).getLast?.getD 0

/-- The timers are the readings of those times, and the delay is that of the endings so far. -/
structure Reached (chip : Chip) (started : Nat) (atBoot : Registered) (s : Schedule)
    (trace : List Done) : Prop where
  registered : s.lastRegisterAttemptMs = counter (lastRegistration chip started atBoot trace)
  failures : s.regFailures.toNat = min (failuresInARow (atBoot :: endings trace)) (2 ^ 32 - 1)
  delay : s.nextRegisterDelayMs.toNat = scheduledDelay (atBoot :: endings trace)
  sampled : s.telemetryLastMs = counter (lastSample trace)
  reported : s.lastPocMs = counter (lastReport trace)

/-- What one ending makes of the failures and of the delay. -/
theorem registerInstallation_spec {s : Schedule} (before : List Registered) (how : Registered)
    (failures : s.regFailures.toNat = min (failuresInARow before) (2 ^ 32 - 1))
    (delay : s.nextRegisterDelayMs.toNat = scheduledDelay before) :
    (registerInstallation s how).regFailures.toNat =
        min (failuresInARow (before ++ [how])) (2 ^ 32 - 1) ∧
      (registerInstallation s how).nextRegisterDelayMs.toNat = scheduledDelay (before ++ [how]) := by
  rw [failuresInARow_concat, scheduledDelay_concat]
  cases how with
  | deferred gateMs => exact ⟨failures, rfl⟩
  | skipped => exact ⟨failures, delay⟩
  | registered => exact ⟨rfl, rfl⟩
  | failed cls =>
      have counted : (if s.regFailures < 0xFFFFFFFF then s.regFailures + 1 else s.regFailures).toNat =
          min (failuresInARow before + 1) (2 ^ 32 - 1) := by
        have small := s.regFailures.toNat_lt
        split
        · next more =>
          have := UInt32.lt_iff_toNat_lt.mp more
          simp only [UInt32.reduceToNat] at this
          rw [UInt32.toNat_add, UInt32.toNat_one, Nat.mod_eq_of_lt (by omega)]
          omega
        · next full =>
          have := UInt32.le_iff_toNat_le.mp (UInt32.not_lt.mp full)
          simp only [UInt32.reduceToNat] at this
          omega
      have some_failed :
          (if s.regFailures < 0xFFFFFFFF then s.regFailures + 1 else s.regFailures) ≠ 0 := by
        intro zero
        rw [zero] at counted
        simp only [UInt32.toNat_zero] at counted
        omega
      refine ⟨counted, ?_⟩
      simp only [registerInstallation]
      rw [toNat_nextRegisterDelayMs cls some_failed, counted]
      rcases Nat.le_total (failuresInARow before + 1) (2 ^ 32 - 1) with few | many
      · rw [Nat.min_eq_left few]
      · rw [Nat.min_eq_right many, backoff_of_many (by omega), backoff_of_many (by omega)]

theorem registerInstallation_frame (s : Schedule) (how : Registered) :
    (registerInstallation s how).lastRegisterAttemptMs = s.lastRegisterAttemptMs ∧
      (registerInstallation s how).lastPocMs = s.lastPocMs ∧
      (registerInstallation s how).telemetryLastMs = s.telemetryLastMs := by
  cases how <;> exact ⟨rfl, rfl, rfl⟩

theorem registerNow_reached (chip : Chip) (started : Nat) (atBoot : Registered) :
    Reached chip started atBoot (registerNow chip {} started atBoot) [] := by
  obtain ⟨failures, delay⟩ :=
    registerInstallation_spec (s := {}) [] atBoot rfl rfl
  obtain ⟨kept, poc, telemetry⟩ := registerInstallation_frame {} atBoot
  rw [registerNow]
  split
  · next recorded =>
    refine ⟨?_, failures, delay, telemetry, poc⟩
    simp only [lastRegistration, registrationTimes, List.filterMap_nil, List.getLast?_nil,
      Option.getD_none, if_pos recorded]
    split
    · rfl
    · next wrapped =>
      have zero : counter started = 0 := by simpa using wrapped
      have reading := toNat_counter started
      rw [zero] at reading
      refine UInt32.toNat_inj.mp ?_
      rw [toNat_counter, UInt32.toNat_one]
      simp only [UInt32.toNat_zero] at reading
      omega
  · next unrecorded =>
    refine ⟨?_, failures, delay, telemetry, poc⟩
    simp only [lastRegistration, registrationTimes, List.filterMap_nil, List.getLast?_nil,
      Option.getD_none, if_neg unrecorded]
    exact kept

section

variable {chip : Chip} {started : Nat} {atBoot : Registered} {s : Schedule} {trace : List Done} {p : Pass}

theorem Reached.registerWhenDue (reached : Reached chip started atBoot s trace) :
    Reached chip started atBoot (registerWhenDue s p).1 (trace ++ (registerWhenDue s p).2) := by
  rw [Reports.registerWhenDue]
  split
  · obtain ⟨failures, delay⟩ := registerInstallation_spec
      (s := { s with lastRegisterAttemptMs := counter p.time }) _ p.registering reached.failures
      reached.delay
    obtain ⟨kept, poc, telemetry⟩ := registerInstallation_frame
      { s with lastRegisterAttemptMs := counter p.time } p.registering
    refine ⟨?_, ?_, ?_, ?_, ?_⟩
    · rw [kept]
      simp [lastRegistration, registrationTimes]
    · rw [failures]
      simp [endings]
    · rw [delay]
      simp [endings]
    · rw [telemetry]
      simpa [lastSample, samples] using reached.sampled
    · rw [poc]
      simpa [lastReport, reports] using reached.reported
  · rwa [List.append_nil]

theorem Reached.telemetryTick (reached : Reached chip started atBoot s trace) :
    Reached chip started atBoot (telemetryTick chip s p).1 (trace ++ (telemetryTick chip s p).2) := by
  rw [Reports.telemetryTick]
  split
  · rwa [List.append_nil]
  · split
    · rwa [List.append_nil]
    · simp only
      split
      · rwa [List.append_nil]
      · constructor
        · simpa [lastRegistration, registrationTimes] using reached.registered
        · simpa [endings] using reached.failures
        · simpa [endings] using reached.delay
        · simp [lastSample, samples]
        · simpa [lastReport, reports] using reached.reported

theorem Reached.reportWhenDue (reached : Reached chip started atBoot s trace) :
    Reached chip started atBoot (reportWhenDue chip s p).1 (trace ++ (reportWhenDue chip s p).2) := by
  rw [Reports.reportWhenDue]
  split
  · split
    · rwa [List.append_nil]
    · constructor
      · simpa [lastRegistration, registrationTimes] using reached.registered
      · simpa [endings] using reached.failures
      · simpa [endings] using reached.delay
      · simpa [lastSample, samples] using reached.sampled
      · simp [lastReport, reports]
  · rwa [List.append_nil]

theorem Reached.tick (reached : Reached chip started atBoot s trace) :
    Reached chip started atBoot (tick chip s p).1 (trace ++ (tick chip s p).2) := by
  rw [Reports.tick]
  split
  · rwa [List.append_nil]
  · have all := (reached.registerWhenDue (p := p)).telemetryTick (p := p) |>.reportWhenDue (p := p)
    simpa only [List.append_assoc] using all

end

theorem afterPasses_reached (chip : Chip) (started : Nat) (atBoot : Registered) (passes : List Pass) :
    Reached chip started atBoot (afterPasses chip started atBoot passes).1
      (afterPasses chip started atBoot passes).2 :=
  run_invariant (registerNow_reached chip started atBoot) (fun _ _ _ reached => reached.tick) passes

/-! ## What one pass does -/

/-- What a pass may do, and when. -/
def Pass.Does (p : Pass) (d : Done) : Prop :=
  d = .registration p.time p.registering ∨ d = .sample p.telemetryTime ∨ d = .report p.time

section

variable (chip : Chip) (s : Schedule) (p : Pass)

theorem registerWhenDue_spec :
    (registerWhenDue s p).1.telemetryLastMs = s.telemetryLastMs ∧
      (registerWhenDue s p).1.lastPocMs = s.lastPocMs ∧
      (registerWhenDue s p).2 =
        if s.lastRegisterAttemptMs = 0 ∨
            counter p.time - s.lastRegisterAttemptMs ≥ s.nextRegisterDelayMs then
          [.registration p.time p.registering] else [] := by
  obtain ⟨-, poc, telemetry⟩ := registerInstallation_frame
    { s with lastRegisterAttemptMs := counter p.time } p.registering
  rw [registerWhenDue]
  split
  · exact ⟨telemetry, poc, rfl⟩
  · exact ⟨rfl, rfl, rfl⟩

theorem telemetryTick_spec :
    (telemetryTick chip s p).1.lastPocMs = s.lastPocMs ∧
      (telemetryTick chip s p).2 =
        if p.stillConnected = true ∧ ¬ (chip = .esp8266 ∧ p.telemetryGateMs ≠ 0) ∧
            (s.telemetryLastMs = 0 ∨
              counter p.telemetryTime - s.telemetryLastMs ≥ TELEMETRY_INTERVAL_MS) then
          [.sample p.telemetryTime] else [] := by
  rw [telemetryTick]
  split
  · next lost => exact ⟨rfl, by rw [if_neg]; simp_all⟩
  · next still =>
    split
    · next gated => exact ⟨rfl, by rw [if_neg]; exact fun all => all.2.1 gated⟩
    · next allowed =>
      simp only
      split
      · next early =>
        refine ⟨rfl, (if_neg ?_).symm⟩
        rintro ⟨-, -, zero | late⟩
        · exact early.1 zero
        · exact absurd early.2 (UInt32.not_lt.mpr late)
      · next due =>
        refine ⟨rfl, (if_pos ⟨by simpa using still, allowed, ?_⟩).symm⟩
        refine or_iff_not_imp_left.mpr fun stamped => ?_
        exact UInt32.not_lt.mp fun early => due ⟨stamped, early⟩

theorem reportWhenDue_spec :
    (reportWhenDue chip s p).2 =
      if ¬ (chip = .esp8266 ∧ p.pocGateMs ≠ 0) ∧ counter p.time - s.lastPocMs ≥ POC_INTERVAL_MS then
        [.report p.time] else [] := by
  rw [reportWhenDue]
  split
  · next due =>
    split
    · next gated => rw [if_neg fun both => both.1 gated]
    · next allowed => rw [if_pos ⟨allowed, due⟩]
  · next early => rw [if_neg fun both => early both.2]

/-- Everything a pass does, by the timers in front of it. -/
theorem tick_done (d : Done) :
    d ∈ (tick chip s p).2 ↔ p.connected = true ∧
      (d = .registration p.time p.registering ∧ (s.lastRegisterAttemptMs = 0 ∨
          counter p.time - s.lastRegisterAttemptMs ≥ s.nextRegisterDelayMs) ∨
        d = .sample p.telemetryTime ∧ p.stillConnected = true ∧
          ¬ (chip = .esp8266 ∧ p.telemetryGateMs ≠ 0) ∧ (s.telemetryLastMs = 0 ∨
            counter p.telemetryTime - s.telemetryLastMs ≥ TELEMETRY_INTERVAL_MS) ∨
        d = .report p.time ∧ ¬ (chip = .esp8266 ∧ p.pocGateMs ≠ 0) ∧
          counter p.time - s.lastPocMs ≥ POC_INTERVAL_MS) := by
  obtain ⟨telemetry, poc, registers⟩ := registerWhenDue_spec s p
  obtain ⟨poc', samples⟩ := telemetryTick_spec chip (registerWhenDue s p).1 p
  have reports := reportWhenDue_spec chip (telemetryTick chip (registerWhenDue s p).1 p).1 p
  rw [poc', poc] at reports
  rw [telemetry] at samples
  rw [tick]
  split
  · next lost => simp_all
  · next connected =>
    have on : p.connected = true := by simpa using connected
    simp only [on, true_and, List.mem_append, registers, samples, reports, or_assoc]
    have member_if : ∀ (q : Prop) [Decidable q] (x : Done), d ∈ (if q then [x] else []) ↔ d = x ∧ q := by
      intro q _ x
      split <;> simp_all
    rw [member_if, member_if, member_if]

end

/-- What was done, some pass did at its time. -/
theorem afterPasses_does (chip : Chip) (started : Nat) (atBoot : Registered) (passes : List Pass) :
    ∀ d ∈ (afterPasses chip started atBoot passes).2, ∃ p ∈ passes, p.Does d := by
  induction passes using List.reverseRecOn with
  | nil => nofun
  | append_singleton passes p ih =>
      intro d member
      rw [afterPasses, run_concat, advance, List.mem_append] at member
      rcases member with earlier | now
      · obtain ⟨x, inside, does⟩ := ih d earlier
        exact ⟨x, List.mem_append_left _ inside, does⟩
      · refine ⟨p, by simp, ?_⟩
        obtain ⟨-, registered | sampled | reported⟩ := (tick_done chip _ p d).mp now
        · exact .inl registered.1
        · exact .inr (.inl sampled.1)
        · exact .inr (.inr reported.1)

/-! ## Every run -/

/-- The passes in the order of time, behind the registration at boot. -/
structure Timely (started : Nat) (passes : List Pass) : Prop where
  booted : ∀ p ∈ passes, started < p.time
  ordered : passes.Pairwise fun p later => p.time ≤ later.time
  telemetry : passes.Pairwise fun p later => p.telemetryTime ≤ later.telemetryTime

section

variable {chip : Chip} {started : Nat} {atBoot : Registered} {passes : List Pass} {p : Pass}

theorem Timely.earlier (timely : Timely started (passes ++ [p])) :
    ∀ x ∈ passes, x.time ≤ p.time ∧ x.telemetryTime ≤ p.telemetryTime := fun x member =>
  ⟨(List.pairwise_append.mp timely.ordered).2.2 x member p (by simp),
    (List.pairwise_append.mp timely.telemetry).2.2 x member p (by simp)⟩

/-- The last time of one kind is not behind a bound on all of them. -/
theorem last_le {pick : Done → Option Nat} {first bound : Nat} (low : first ≤ bound)
    (each : ∀ x ∈ passes, ∀ d, x.Does d → ∀ time ∈ pick d, time ≤ bound) :
    ((afterPasses chip started atBoot passes).2.filterMap pick).getLast?.getD first ≤ bound := by
  cases last : ((afterPasses chip started atBoot passes).2.filterMap pick).getLast? with
  | none => exact low
  | some time =>
      obtain ⟨d, member, same⟩ := List.mem_filterMap.mp (List.mem_of_getLast? last)
      obtain ⟨x, inside, does⟩ := afterPasses_does chip started atBoot passes d member
      exact each x inside d does time same

theorem lastRegistration_le (timely : Timely started (passes ++ [p])) :
    lastRegistration chip started atBoot (afterPasses chip started atBoot passes).2 ≤ p.time := by
  have booted := timely.booted p (by simp)
  refine last_le ?_ ?_
  · split
    · split <;> omega
    · exact Nat.zero_le _
  · rintro x inside d (rfl | rfl | rfl) time ⟨⟩
    exact (timely.earlier x inside).1

/-- A pass registers only when the delay of the endings so far is over since the last registration,
and it does so unless the counter has gone round since; a reading of zero counts as none. -/
theorem registrations_paced (timely : Timely started (passes ++ [p])) :
    let reached := afterPasses chip started atBoot passes
    let last := lastRegistration chip started atBoot reached.2
    let delay := scheduledDelay (atBoot :: endings reached.2)
    (.registration p.time p.registering ∈ (tick chip reached.1 p).2 →
      p.connected = true ∧ (counter last = 0 ∨ last + delay ≤ p.time)) ∧
    (p.connected = true → (counter last = 0 ∨ last + delay ≤ p.time) → p.time < last + 2 ^ 32 →
      .registration p.time p.registering ∈ (tick chip reached.1 p).2) := by
  intro reached last delay
  have state := afterPasses_reached chip started atBoot passes
  have past : last ≤ p.time := lastRegistration_le timely
  rw [tick_done, state.registered]
  simp only [true_and, reduceCtorEq, false_and, or_false]
  constructor
  · rintro ⟨connected, zero | late⟩
    · exact ⟨connected, .inl zero⟩
    · refine ⟨connected, .inr ?_⟩
      have passed := passed_of_elapsed past late
      rwa [state.delay] at passed
  · rintro connected (zero | late) recent
    · exact ⟨connected, .inl zero⟩
    · refine ⟨connected, .inr ((elapsed_iff past recent).mpr ?_)⟩
      rwa [state.delay]

end

/-- A pass on a connected board whose server cannot be reached. -/
def strandedPass (time : Nat) : Pass :=
  { time, connected := true, registering := .failed .unreachable, stillConnected := true,
    telemetryGateMs := 0, telemetryTime := time, pocGateMs := 0 }

theorem strandedPass_timely :
    Timely 5000 ([strandedPass 20000, strandedPass 80000] ++ [strandedPass 200000]) :=
  ⟨by decide, by simp [strandedPass], by simp [strandedPass]⟩

theorem registrations_paced_stranded :
    .registration 200000 (.failed .unreachable) ∈
      (tick .esp8266 (afterPasses .esp8266 5000 (.failed .unreachable)
        [strandedPass 20000, strandedPass 80000]).1 (strandedPass 200000)).2 :=
  (registrations_paced strandedPass_timely).2 rfl (by decide) (by decide)

end FryFirmware.Reports
