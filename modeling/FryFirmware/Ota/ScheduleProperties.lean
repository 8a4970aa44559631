import FryFirmware.Ota.Schedule
import FryFirmware.Lib.Machine
import Mathlib.Data.List.Basic
import Mathlib.Tactic.Common

/-!
# The update schedule over whole runs

`s_lastCheckMs` holds the first tick while no check ran, the start of the last
check afterwards, and that start less 21,000 s when the check earned a short
retry. `Tracks` says which of these it is in every state of every run, and
`dueTick_starts_iff` compares what a due tick does with it.
-/

set_option autoImplicit false

namespace FryFirmware.Ota

/-! ## One tick -/

/-- How far `afterCheck` moves `s_lastCheckMs` back for a short retry. -/
def backdateMs : UInt32 := OTA_CHECK_MS - kOtaHeapRetryMs

/-- The value `afterCheck` leaves in `s_lastCheckMs`. -/
def Check.base (c : Check) : UInt32 := if c.early then c.start - backdateMs else c.start

theorem otaNextCheckDelayMs_wait (refused : Bool) (retries : Nat) :
    (otaNextCheckDelayMs refused retries OTA_CHECK_MS).1 =
      if refused && decide (retries < kOtaHeapRetryMax) then kOtaHeapRetryMs else OTA_CHECK_MS := by
  cases refused with
  | false => rfl
  | true =>
      by_cases spent : retries < kOtaHeapRetryMax
      · have unspent : ¬ retries ≥ kOtaHeapRetryMax := by omega
        simp [otaNextCheckDelayMs, spent, unspent]
        decide
      · have exhausted : retries ≥ kOtaHeapRetryMax := by omega
        simp [otaNextCheckDelayMs, spent, exhausted]

theorem afterCheck_lastCheckMs (s : Scheduler) (now : UInt32) (heapRefused readFailed : Bool) :
    (afterCheck s now heapRefused readFailed).lastCheckMs =
      Check.base ⟨now, hasRetry s heapRefused readFailed⟩ := by
  have shorter : kOtaHeapRetryMs < OTA_CHECK_MS := by decide
  have notShorter : ¬ OTA_CHECK_MS < kOtaHeapRetryMs := by decide
  simp only [afterCheck, otaNextCheckDelayMs_wait, Check.base, hasRetry, backdateMs]
  by_cases heapEarly : (heapRefused && decide (s.heapRetries < kOtaHeapRetryMax)) = true
  · by_cases readEarly : (readFailed && decide (s.readRetries < kOtaHeapRetryMax)) = true
    · simp [heapEarly, readEarly]
    · simp [heapEarly, readEarly, notShorter]
  · by_cases readEarly : (readFailed && decide (s.readRetries < kOtaHeapRetryMax)) = true
    · simp [heapEarly, readEarly, shorter]
    · simp [heapEarly, readEarly]

@[simp]
theorem check_firstCheckDone (s : Scheduler) (i : Tick) : (check s i).firstCheckDone = true := by
  simp only [check, afterCheck]

theorem check_lastCheckMs (s : Scheduler) (i : Tick) :
    (check s i).lastCheckMs = Check.base ⟨i.now, hasRetry s i.heapRefused i.readFailed⟩ := by
  rw [check, afterCheck_lastCheckMs]
  rfl

/-- The first tick that `tick` counts from before the first check. -/
def firstTickMs (s : Scheduler) (now : UInt32) : UInt32 :=
  if s.lastCheckMs = 0 then now else s.lastCheckMs

/-- The gates before a check that are not about `s_lastCheckMs`. -/
structure Open (s : Scheduler) (i : Tick) : Prop where
  connected : otaFirstCheckAfterConnectWaitMs i.now i.anchor = 0
  tls : tlsConnectWaitMs i.gateNow i.anchor = 0
  released : (holdForTimeWait s.hold i).2 = false

theorem open_iff (s : Scheduler) (i : Tick) :
    (otaFirstCheckAfterConnectWaitMs i.now i.anchor = 0 ∧ tlsConnectWaitMs i.gateNow i.anchor = 0 ∧
      (holdForTimeWait s.hold i).2 = false) ↔ Open s i :=
  ⟨fun ⟨connected, tls, released⟩ => ⟨connected, tls, released⟩,
    fun opened => ⟨opened.connected, opened.tls, opened.released⟩⟩

instance (s : Scheduler) (i : Tick) : Decidable (Open s i) :=
  decidable_of_iff _ (open_iff s i)

theorem tick_eq_first {s : Scheduler} (i : Tick) (first : s.firstCheckDone = false) :
    tick s i =
      let seeded := { s with lastCheckMs := firstTickMs s i.now }
      if otaFirstCheckWaitMs i.now (firstTickMs s i.now) ≠ 0 then (seeded, false)
      else if otaFirstCheckAfterConnectWaitMs i.now i.anchor ≠ 0 then (seeded, false)
      else if tlsConnectWaitMs i.gateNow i.anchor ≠ 0 then (seeded, false)
      else
        let released := { seeded with hold := (holdForTimeWait s.hold i).1 }
        if (holdForTimeWait s.hold i).2 then (released, false) else (check released i, true) := by
  have seeded : (if s.lastCheckMs = 0 then { s with lastCheckMs := i.now } else s) =
      { s with lastCheckMs := firstTickMs s i.now } := by
    unfold firstTickMs
    split <;> rfl
  unfold tick
  rw [if_pos (by rw [first]; rfl), seeded]

theorem tick_eq_scheduled {s : Scheduler} (i : Tick) (done : s.firstCheckDone = true) :
    tick s i =
      if i.now - s.lastCheckMs < OTA_CHECK_MS then (s, false)
      else
        let released := { s with hold := (holdForTimeWait s.hold i).1 }
        if (holdForTimeWait s.hold i).2 then (released, false) else (check released i, true) := by
  unfold tick
  rw [if_neg (by rw [done]; decide)]

/-- A tick before the first check either starts it, or remembers the first tick. -/
theorem tick_first {s : Scheduler} (i : Tick) (first : s.firstCheckDone = false) :
    ((tick s i).2 = true ∧ otaFirstCheckWaitMs i.now (firstTickMs s i.now) = 0 ∧
        (tick s i).1.firstCheckDone = true ∧
        (tick s i).1.lastCheckMs = Check.base ⟨i.now, hasRetry s i.heapRefused i.readFailed⟩) ∨
      ((tick s i).2 = false ∧ (tick s i).1.firstCheckDone = false ∧
        (tick s i).1.lastCheckMs = firstTickMs s i.now) := by
  rw [tick_eq_first i first]
  dsimp only
  split
  · exact Or.inr ⟨rfl, first, rfl⟩
  split
  · exact Or.inr ⟨rfl, first, rfl⟩
  split
  · exact Or.inr ⟨rfl, first, rfl⟩
  split
  · exact Or.inr ⟨rfl, first, rfl⟩
  rename_i waited _ _ _
  exact Or.inl ⟨rfl, not_ne_iff.mp waited, check_firstCheckDone _ _, check_lastCheckMs _ _⟩

theorem tick_scheduled {s : Scheduler} (i : Tick) (done : s.firstCheckDone = true) :
    ((tick s i).2 = true ∧ OTA_CHECK_MS ≤ i.now - s.lastCheckMs ∧
        (tick s i).1.firstCheckDone = true ∧
        (tick s i).1.lastCheckMs = Check.base ⟨i.now, hasRetry s i.heapRefused i.readFailed⟩) ∨
      ((tick s i).2 = false ∧ (tick s i).1.firstCheckDone = true ∧
        (tick s i).1.lastCheckMs = s.lastCheckMs) := by
  rw [tick_eq_scheduled i done]
  dsimp only
  split
  · exact Or.inr ⟨rfl, done, rfl⟩
  split
  · exact Or.inr ⟨rfl, done, rfl⟩
  rename_i elapsed _
  exact Or.inl ⟨rfl, UInt32.not_lt.mp elapsed, check_firstCheckDone _ _, check_lastCheckMs _ _⟩

theorem tick_first_starts {s : Scheduler} {i : Tick} (first : s.firstCheckDone = false)
    (opened : Open s i) :
    (tick s i).2 = true ↔ otaFirstCheckWaitMs i.now (firstTickMs s i.now) = 0 := by
  rw [tick_eq_first i first, opened.connected, opened.tls, opened.released]
  by_cases waited : otaFirstCheckWaitMs i.now (firstTickMs s i.now) = 0
  · simp [waited]
  · simp [waited]

theorem tick_scheduled_starts {s : Scheduler} {i : Tick} (done : s.firstCheckDone = true)
    (opened : Open s i) :
    (tick s i).2 = true ↔ OTA_CHECK_MS ≤ i.now - s.lastCheckMs := by
  rw [tick_eq_scheduled i done, opened.released]
  by_cases elapsed : i.now - s.lastCheckMs < OTA_CHECK_MS
  · rw [if_pos elapsed]
    exact iff_of_false Bool.false_ne_true (UInt32.not_le.mpr elapsed)
  · rw [if_neg elapsed]
    exact iff_of_true rfl (UInt32.not_lt.mp elapsed)

/-- The first check waits for 20 s of uptime and for the 32-bit sum of the first
tick and 10 s. -/
theorem otaFirstCheckWaitMs_eq_zero (now first : UInt32) :
    otaFirstCheckWaitMs now first = 0 ↔
      20000 ≤ now.toNat ∧ (first.toNat + 10000) % 2 ^ 32 ≤ now.toNat := by
  have uptime : kOtaFirstCheckMinUptimeMs.toNat = 20000 := rfl
  have afterTick : (first + kOtaFirstCheckAfterFirstTickMs).toNat =
      (first.toNat + 10000) % 2 ^ 32 := UInt32.toNat_add _ _
  have reached (earliest : UInt32) :
      (if now ≥ earliest then 0 else earliest - now) = (0 : UInt32) ↔
        earliest.toNat ≤ now.toNat := by
    split
    case isTrue passed => exact iff_of_true rfl (UInt32.le_iff_toNat_le.mp passed)
    case isFalse pending =>
      have later : now.toNat < earliest.toNat :=
        Nat.lt_of_not_le fun ordered => pending (UInt32.le_iff_toNat_le.mpr ordered)
      refine iff_of_false (fun zero => ?_) (by omega)
      have equal := congrArg UInt32.toNat zero
      rw [UInt32.toNat_sub_of_le _ _ (UInt32.le_iff_toNat_le.mpr (Nat.le_of_lt later))] at equal
      have : (0 : UInt32).toNat = 0 := rfl
      omega
  simp only [otaFirstCheckWaitMs, reached]
  split
  case isTrue small =>
    have small := UInt32.lt_iff_toNat_lt.mp small
    omega
  case isFalse large =>
    have large : ¬ (first + kOtaFirstCheckAfterFirstTickMs).toNat < kOtaFirstCheckMinUptimeMs.toNat :=
      fun below => large (UInt32.lt_iff_toNat_lt.mpr below)
    omega

/-! ## What `s_lastCheckMs` holds in a run -/

/-- The meaning of `s_lastCheckMs` and `s_firstCheckDone` after ticks up to `bound`. -/
structure Tracks (w : History) (bound : UInt32) : Prop where
  anchoredNonzero : w.anchored ≠ some 0
  resumedNonzero : w.resumed ≠ some 0
  rearmedChecked : w.rearmed = true → w.last.isSome
  unchecked : w.last = none →
    w.scheduler.firstCheckDone = false ∧ w.scheduler.lastCheckMs = w.anchored.getD 0
  started : ∀ c, w.last = some c → kOtaFirstCheckMinUptimeMs ≤ c.start ∧ c.start ≤ bound
  scheduled : ∀ c, w.last = some c → w.rearmed = false →
    w.scheduler.firstCheckDone = true ∧ w.scheduler.lastCheckMs = c.base
  rearmed : ∀ c, w.last = some c → w.rearmed = true →
    w.scheduler.firstCheckDone = false ∧
      w.scheduler.lastCheckMs = if c.base = 0 then w.resumed.getD 0 else c.base

theorem tracks_init : Tracks {} 0 where
  anchoredNonzero := by simp
  resumedNonzero := by simp
  rearmedChecked impossible := by cases impossible
  unchecked _ := ⟨rfl, rfl⟩
  started _ impossible := by cases impossible
  scheduled _ impossible := by cases impossible
  rearmed _ impossible := by cases impossible

/-- A tick that starts a check does so at 20 s of uptime or later. -/
theorem Tracks.starts_late {w : History} {bound : UInt32} (tracks : Tracks w bound) {i : Tick}
    (ordered : bound ≤ i.now) (starts : (tick w.scheduler i).2 = true) :
    kOtaFirstCheckMinUptimeMs ≤ i.now := by
  cases done : w.scheduler.firstCheckDone with
  | false =>
      obtain ⟨-, waited, -, -⟩ | ⟨idle, -, -⟩ := tick_first i done
      · exact UInt32.le_iff_toNat_le.mpr ((otaFirstCheckWaitMs_eq_zero _ _).mp waited).1
      · rw [idle] at starts
        cases starts
  | true =>
      cases last : w.last with
      | none =>
          rw [(tracks.unchecked last).1] at done
          cases done
      | some c =>
          obtain ⟨late, past⟩ := tracks.started c last
          exact UInt32.le_trans late (UInt32.le_trans past ordered)

theorem or_ne_some_zero {earlier : Option UInt32} {now : UInt32} (nonzero : earlier ≠ some 0) :
    earlier.or (if now = 0 then none else some now) ≠ some 0 := by
  cases earlier with
  | some value => simpa using nonzero
  | none =>
      split
      · simp
      · simpa

/-- `firstTickMs` keeps the first nonzero tick. -/
theorem getD_or_now {earlier : Option UInt32} {now : UInt32} (nonzero : earlier ≠ some 0) :
    (if earlier.getD 0 = 0 then now else earlier.getD 0) =
      (earlier.or (if now = 0 then none else some now)).getD 0 := by
  cases earlier with
  | some value =>
      have : value ≠ 0 := fun zero => nonzero (by rw [zero])
      simp [this]
  | none =>
      by_cases zero : now = 0
      · simp [zero]
      · simp [zero]

theorem Tracks.start {w : History} {bound : UInt32} (tracks : Tracks w bound) {i : Tick}
    (ordered : bound ≤ i.now) (starts : (tick w.scheduler i).2 = true) :
    Tracks (w.tickStep i) i.now := by
  have after : (tick w.scheduler i).1.firstCheckDone = true ∧
      (tick w.scheduler i).1.lastCheckMs =
        Check.base ⟨i.now, hasRetry w.scheduler i.heapRefused i.readFailed⟩ := by
    cases done : w.scheduler.firstCheckDone with
    | false =>
        obtain ⟨-, -, after⟩ | ⟨idle, -, -⟩ := tick_first i done
        · exact after
        · rw [idle] at starts
          cases starts
    | true =>
        obtain ⟨-, -, after⟩ | ⟨idle, -, -⟩ := tick_scheduled i done
        · exact after
        · rw [idle] at starts
          cases starts
  have late := tracks.starts_late ordered starts
  unfold History.tickStep
  dsimp only
  rw [if_pos starts]
  refine ⟨or_ne_some_zero tracks.anchoredNonzero, by simp, by simp, by simp, ?_, ?_, ?_⟩
  · intro c last
    cases last
    exact ⟨late, UInt32.le_refl _⟩
  · intro c last _
    cases last
    exact after
  · intro c _ impossible
    cases impossible

theorem Tracks.idle {w : History} {bound : UInt32} (tracks : Tracks w bound) {i : Tick}
    (ordered : bound ≤ i.now) (waits : (tick w.scheduler i).2 = false) :
    Tracks (w.tickStep i) i.now := by
  have first (unset : w.scheduler.firstCheckDone = false) :
      (tick w.scheduler i).1.firstCheckDone = false ∧
        (tick w.scheduler i).1.lastCheckMs = firstTickMs w.scheduler i.now := by
    obtain ⟨starts, -⟩ | ⟨-, after⟩ := tick_first i unset
    · rw [starts] at waits
      cases waits
    · exact after
  have nonzero (rearmed : w.rearmed = true) : i.now ≠ 0 := by
    obtain ⟨c, last⟩ := Option.isSome_iff_exists.mp (tracks.rearmedChecked rearmed)
    obtain ⟨late, past⟩ := tracks.started c last
    intro zero
    rw [zero] at ordered
    have impossible := UInt32.le_trans late (UInt32.le_trans past ordered)
    revert impossible
    decide
  unfold History.tickStep
  dsimp only
  rw [if_neg (by rw [waits]; decide)]
  refine ⟨or_ne_some_zero tracks.anchoredNonzero, ?_, tracks.rearmedChecked, ?_, ?_, ?_, ?_⟩
  · dsimp only
    split
    case isTrue rearmed =>
      have kept := @or_ne_some_zero _ i.now tracks.resumedNonzero
      rwa [if_neg (nonzero rearmed)] at kept
    case isFalse => simp
  · intro last
    obtain ⟨unset, value⟩ := tracks.unchecked last
    obtain ⟨unset', value'⟩ := first unset
    refine ⟨unset', ?_⟩
    rw [value', firstTickMs, value]
    exact getD_or_now tracks.anchoredNonzero
  · intro c last
    obtain ⟨late, past⟩ := tracks.started c last
    exact ⟨late, UInt32.le_trans past ordered⟩
  · intro c last calm
    obtain ⟨done, value⟩ := tracks.scheduled c last calm
    obtain ⟨starts, -⟩ | ⟨-, done', value'⟩ := tick_scheduled i done
    · rw [starts] at waits
      cases waits
    · exact ⟨done', value'.trans value⟩
  · intro c last rearmed
    obtain ⟨unset, value⟩ := tracks.rearmed c last rearmed
    obtain ⟨unset', value'⟩ := first unset
    refine ⟨unset', ?_⟩
    dsimp only at rearmed ⊢
    rw [value', firstTickMs, value, if_pos rearmed]
    by_cases zero : c.base = 0
    · have kept := @getD_or_now _ i.now tracks.resumedNonzero
      rw [if_neg (nonzero rearmed)] at kept
      rw [if_pos zero, if_pos zero, kept]
    · rw [if_neg zero, if_neg zero, if_neg zero]

theorem Tracks.tickStep {w : History} {bound : UInt32} (tracks : Tracks w bound) {i : Tick}
    (ordered : bound ≤ i.now) : Tracks (w.tickStep i) i.now := by
  cases outcome : (tick w.scheduler i).2 with
  | true => exact tracks.start ordered outcome
  | false => exact tracks.idle ordered outcome

theorem Tracks.markValid {w : History} {bound : UInt32} (tracks : Tracks w bound) :
    Tracks (w.step .markValid) bound := by
  unfold History.step
  dsimp only
  refine ⟨tracks.anchoredNonzero, ?_, fun checked => checked, ?_, tracks.started, ?_, ?_⟩
  · dsimp only
    split
    · exact tracks.resumedNonzero
    · simp
  · intro last
    exact ⟨rfl, (tracks.unchecked last).2⟩
  · intro c last calm
    dsimp only at last calm
    rw [last] at calm
    cases calm
  · intro c last _
    refine ⟨rfl, ?_⟩
    cases rearmed : w.rearmed with
    | true => exact (tracks.rearmed c last rearmed).2
    | false =>
        have value := (tracks.scheduled c last rearmed).2
        dsimp only [Ota.markValid]
        rw [value]
        split
        case isTrue zero => simpa using zero
        case isFalse => rfl

/-- `tryMarkValid` changes nothing or is the event `markValid`. -/
theorem tryMarkValid_cases (s : Scheduler) (anyResponse : Bool) (now : UInt32) :
    tryMarkValid s anyResponse now = s ∨ tryMarkValid s anyResponse now = Ota.markValid s := by
  unfold tryMarkValid
  split
  · exact Or.inl rfl
  split
  · exact Or.inl rfl
  · exact Or.inr rfl

/-! ## Due ticks -/

/-- A check is due: six hours after the start of the last one, or, before any,
at 20 s of uptime and 10 s after the first tick. -/
def Due (w : History) (now : UInt32) : Prop :=
  (w.last = none → 20000 ≤ now.toNat ∧ ∃ first ∈ w.firstTick, first.toNat + 10000 ≤ now.toNat) ∧
    ∀ c ∈ w.last, c.start.toNat + 21600000 ≤ now.toNat

/-- Ten seconds after `first` have passed at `now`, or are past the end of the
counter. -/
def Passed (first now : UInt32) : Prop :=
  first.toNat + 10000 ≤ now.toNat ∨ 2 ^ 32 ≤ first.toNat + 10000

/-- A check that earned a short retry, re-armed by `tryMarkValid`, is repeated at
`now`: its start less 21,000 s is a time after boot, or wraps to one that lies in
the past. -/
def RearmedInTime (c : Check) (resumed : Option UInt32) (now : UInt32) : Prop :=
  21000000 < c.start.toNat ∨
    (c.start.toNat = 21000000 ∧ Passed (resumed.getD now) now) ∨
    (20990000 ≤ c.start.toNat ∧ c.start.toNat < 21000000) ∨
    (c.start.toNat < 20990000 ∧ 2 ^ 32 ≤ now.toNat + (20990000 - c.start.toNat))

/-- The condition under which a due tick starts a check. -/
def KeepsSchedule (w : History) (now : UInt32) : Prop :=
  (w.last = none → Passed (w.anchored.getD now) now) ∧
    ∀ c ∈ w.last, c.early = true →
      if w.rearmed then RearmedInTime c w.resumed now
      else now.toNat - c.start.toNat + 21000000 < 2 ^ 32

instance (first now : UInt32) : Decidable (Passed first now) :=
  inferInstanceAs (Decidable (_ ∨ _))

instance (c : Check) (resumed : Option UInt32) (now : UInt32) :
    Decidable (RearmedInTime c resumed now) :=
  inferInstanceAs (Decidable (_ ∨ _))

instance (w : History) (now : UInt32) : Decidable (Due w now) :=
  inferInstanceAs (Decidable (_ ∧ _))

instance (w : History) (now : UInt32) : Decidable (KeepsSchedule w now) :=
  inferInstanceAs (Decidable (_ ∧ _))

theorem firstCheckWait_passed {now first : UInt32} (uptime : 20000 ≤ now.toNat) :
    otaFirstCheckWaitMs now first = 0 ↔ Passed first now := by
  rw [otaFirstCheckWaitMs_eq_zero, Passed]
  have small := first.toNat_lt
  have bound := now.toNat_lt
  omega

theorem base_toNat_early {c : Check} (early : c.early = true) :
    c.base.toNat = (2 ^ 32 - 21000000 + c.start.toNat) % 2 ^ 32 := by
  have amount : backdateMs.toNat = 21000000 := by decide
  rw [Check.base, if_pos early, UInt32.toNat_sub, amount]

theorem base_of_not_early {c : Check} (usual : c.early = false) : c.base = c.start := by
  rw [Check.base, usual]
  rfl

/-- A due tick after a check that is still scheduled. -/
theorem scheduled_due_iff {c : Check} {now : UInt32}
    (due : c.start.toNat + 21600000 ≤ now.toNat) :
    OTA_CHECK_MS ≤ now - c.base ↔
      (c.early = true → now.toNat - c.start.toNat + 21000000 < 2 ^ 32) := by
  have period : OTA_CHECK_MS.toNat = 21600000 := by decide
  have bound := now.toNat_lt
  rw [UInt32.le_iff_toNat_le, UInt32.toNat_sub, period]
  cases early : c.early with
  | true =>
      rw [base_toNat_early early]
      simp only [forall_const]
      omega
  | false =>
      rw [base_of_not_early early]
      simp only [Bool.false_eq_true, false_imp_iff, iff_true]
      omega

/-- A due tick after a check that `tryMarkValid` re-armed. -/
theorem rearmed_due_iff {c : Check} {now : UInt32} {resumed : Option UInt32}
    (late : 20000 ≤ c.start.toNat) (due : c.start.toNat + 21600000 ≤ now.toNat) :
    otaFirstCheckWaitMs now (if c.base = 0 then resumed.getD now else c.base) = 0 ↔
      (c.early = true → RearmedInTime c resumed now) := by
  have bound := now.toNat_lt
  have isZero : c.base = 0 ↔ c.base.toNat = 0 := UInt32.toNat_inj.symm
  rw [firstCheckWait_passed (by omega)]
  cases early : c.early with
  | true =>
      have value := base_toNat_early early
      simp only [forall_const, RearmedInTime]
      by_cases zero : c.base = 0
      · rw [if_pos zero]
        have exact : c.start.toNat = 21000000 := by
          have := isZero.mp zero
          omega
        simp [exact]
      · rw [if_neg zero]
        have differs : c.start.toNat ≠ 21000000 := by
          intro equal
          exact zero (isZero.mpr (by omega))
        simp only [differs, false_and, false_or, Passed]
        omega
  | false =>
      have value := base_of_not_early early
      simp only [Bool.false_eq_true, false_imp_iff, iff_true]
      have nonzero : c.base ≠ 0 := by
        intro zero
        have := isZero.mp zero
        rw [value] at this
        omega
      rw [if_neg nonzero, value]
      exact Or.inl (by omega)

theorem getD_zero_else {earlier : Option UInt32} {now : UInt32} (nonzero : earlier ≠ some 0) :
    (if earlier.getD 0 = 0 then now else earlier.getD 0) = earlier.getD now := by
  cases earlier with
  | none => rfl
  | some value =>
      have : value ≠ 0 := fun zero => nonzero (by rw [zero])
      simp [this]

/-- A due tick with the other gates open starts a check exactly when it keeps the
schedule. -/
theorem Tracks.due_iff {w : History} {bound : UInt32} (tracks : Tracks w bound) {i : Tick}
    (due : Due w i.now) (opened : Open w.scheduler i) :
    (tick w.scheduler i).2 = true ↔ KeepsSchedule w i.now := by
  cases last : w.last with
  | none =>
      obtain ⟨unset, value⟩ := tracks.unchecked last
      obtain ⟨uptime, -⟩ := due.1 last
      rw [tick_first_starts unset opened, firstTickMs, value,
        getD_zero_else tracks.anchoredNonzero, firstCheckWait_passed uptime]
      simp [KeepsSchedule, last]
  | some c =>
      have elapsed := due.2 c last
      have keeps : KeepsSchedule w i.now ↔ (c.early = true →
          if w.rearmed then RearmedInTime c w.resumed i.now
          else i.now.toNat - c.start.toNat + 21000000 < 2 ^ 32) := by
        simp [KeepsSchedule, last]
      rw [keeps]
      cases rearmed : w.rearmed with
      | false =>
          obtain ⟨done, value⟩ := tracks.scheduled c last rearmed
          rw [tick_scheduled_starts done opened, value, scheduled_due_iff elapsed]
          simp
      | true =>
          obtain ⟨unset, value⟩ := tracks.rearmed c last rearmed
          have late := UInt32.le_iff_toNat_le.mp (tracks.started c last).1
          have counted : firstTickMs w.scheduler i.now =
              if c.base = 0 then w.resumed.getD i.now else c.base := by
            rw [firstTickMs, value]
            by_cases zero : c.base = 0
            · rw [if_pos zero, if_pos zero, getD_zero_else tracks.resumedNonzero]
            · rw [if_neg zero, if_neg zero, if_neg zero]
          rw [tick_first_starts unset opened, counted, rearmed_due_iff late elapsed]
          simp

/-- `holds` at every tick of a run, in the state the tick finds. -/
def EveryTick (holds : History → Tick → Prop) : History → List Event → Prop
  | _, [] => True
  | w, .tick i :: rest => holds w i ∧ EveryTick holds (w.step (.tick i)) rest
  | w, .markValid :: rest => EveryTick holds (w.step .markValid) rest

instance EveryTick.decidable (holds : History → Tick → Prop) [∀ w i, Decidable (holds w i)] :
    ∀ (w : History) (events : List Event), Decidable (EveryTick holds w events)
  | _, [] => isTrue trivial
  | w, .tick i :: rest =>
      let _ := EveryTick.decidable holds (w.step (.tick i)) rest
      inferInstanceAs (Decidable (holds w i ∧ EveryTick holds (w.step (.tick i)) rest))
  | w, .markValid :: rest => EveryTick.decidable holds (w.step .markValid) rest

/-- Every due tick of the run that finds the gates open starts a check. -/
def NeverSilent (events : List Event) : Prop :=
  EveryTick (fun w i => Due w i.now → Open w.scheduler i → (tick w.scheduler i).2 = true) {} events

/-- Every due tick of the run that finds the gates open keeps the schedule. -/
def AlwaysKeepsSchedule (events : List Event) : Prop :=
  EveryTick (fun w i => Due w i.now → Open w.scheduler i → KeepsSchedule w i.now) {} events

instance (events : List Event) : Decidable (NeverSilent events) :=
  inferInstanceAs (Decidable (EveryTick _ _ _))

instance (events : List Event) : Decidable (AlwaysKeepsSchedule events) :=
  inferInstanceAs (Decidable (EveryTick _ _ _))

theorem everyTick_congr {holds holds' : History → Tick → Prop}
    (agree : ∀ w bound i, Tracks w bound → (holds w i ↔ holds' w i)) (events : List Event)
    {w : History} {bound : UInt32} (tracks : Tracks w bound)
    (ordered : (bound :: times events).Pairwise (· ≤ ·)) :
    EveryTick holds w events ↔ EveryTick holds' w events := by
  induction events generalizing w bound with
  | nil => exact Iff.rfl
  | cons event rest ih =>
      cases event with
      | tick i =>
          obtain ⟨first, tail⟩ := List.pairwise_cons.mp ordered
          have step := tracks.tickStep (first i.now (by simp [times]))
          exact and_congr (agree w bound i tracks) (ih step tail)
      | markValid => exact ih tracks.markValid ordered

/-- In every run with a clock that never goes back, no due tick is silent if and
only if each of them keeps the schedule. -/
theorem run_neverSilent_iff (events : List Event) (ordered : (times events).Pairwise (· ≤ ·)) :
    NeverSilent events ↔ AlwaysKeepsSchedule events := by
  have fromZero : ((0 : UInt32) :: times events).Pairwise (· ≤ ·) :=
    List.pairwise_cons.mpr ⟨fun _ _ => UInt32.zero_le, ordered⟩
  refine everyTick_congr ?_ events tracks_init fromZero
  intro w bound i tracks
  constructor
  · intro starts due opened
    exact (tracks.due_iff due opened).mp (starts due opened)
  · intro keeps due opened
    exact (tracks.due_iff due opened).mpr (keeps due opened)

/-- A tick with nothing closing, the connect 20 s behind and a roomy heap. -/
def openTick (now : UInt32) (heapRefused : Bool) : Tick :=
  { now := now
    anchor := some (now - 20000)
    gateNow := now
    timeWaitPcbs := 0
    closingPcbs := 0
    freeHeap := 45000
    maxFreeBlock := 40000
    heapRefused := heapRefused
    readFailed := false }

/-- Two refused checks in the first eleven minutes, `tryMarkValid`, and a tick six
hours after the second check. -/
def rearmedRun : List Event :=
  [.tick (openTick 6000 false), .tick (openTick 20000 true), .tick (openTick 620000 true), .markValid,
    .tick (openTick 22220000 false)]

/-- The tick after six hours finds its time wrapped to 49 days of uptime. -/
theorem rearmedRun_silent : (times rearmedRun).Pairwise (· ≤ ·) ∧ ¬ NeverSilent rearmedRun := by
  decide +kernel

/-- The same run without `tryMarkValid` is not silent. -/
theorem run_neverSilent_iff_unarmed :
    NeverSilent
      [.tick (openTick 6000 false), .tick (openTick 20000 true), .tick (openTick 620000 true),
        .tick (openTick 22220000 false)] :=
  (run_neverSilent_iff _ (by decide +kernel)).mpr (by decide +kernel)

end FryFirmware.Ota
