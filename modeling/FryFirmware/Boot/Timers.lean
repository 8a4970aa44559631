import FryFirmware.Lib.Clock
import FryFirmware.Lib.OrderedTrace
import FryFirmware.Lib.Stretch
import Mathlib.Data.List.Basic
import Mathlib.Tactic.Common

/-!
# What waits for a condition to last

The reset button (`lib/fry_core/reset_button.cpp`, with `pollFactoryResetButton` of
`src/main.cpp`), the release of the BLE stack (`ble_idle.cpp`, with `tick` of
`src/esp32/ble_provisioning.cpp`) and the log throttle (`log_throttle.cpp`). Each of
them measures on the 32-bit millisecond counter.
-/

set_option autoImplicit false

namespace FryFirmware.Boot

open Lib
open Lib.Stretch

/-! ## The reset button -/

def kFactoryResetHoldMs : UInt32 := 10000

structure ResetButton where
  holdMs : UInt32 := kFactoryResetHoldMs
  pressedAtMs : UInt32 := 0
  pressed : Bool := false
  fired : Bool := false
  deriving DecidableEq, Repr

namespace ResetButton

/-- The button after a sample of it, and whether the reset fires. -/
def update (b : ResetButton) (pressed : Bool) (nowMs : UInt32) : ResetButton × Bool :=
  if !pressed then ({ b with pressed := false, fired := false }, false)
  else if !b.pressed then ({ b with pressed := true, pressedAtMs := nowMs, fired := false }, false)
  else if b.fired then (b, false)
  else if nowMs - b.pressedAtMs ≥ b.holdMs then ({ b with fired := true }, true)
  else (b, false)

def heldMs (b : ResetButton) (nowMs : UInt32) : UInt32 :=
  if !b.pressed then 0 else nowMs - b.pressedAtMs

end ResetButton

/-- The statics of `main.cpp` that belong to the button. -/
structure Panel where
  button : ResetButton := {}
  lastResetHintMs : UInt32 := 0
  deriving DecidableEq, Repr

inductive Shown where
  | nothing
  | factoryReset
  | hint (held : UInt32)
  deriving DecidableEq, Repr

def pollFactoryResetButton (p : Panel) (pressed : Bool) (now : UInt32) : Panel × Shown :=
  let (button, fires) := p.button.update pressed now
  if fires then ({ p with button }, .factoryReset)
  else
    let held := button.heldMs now
    if held ≥ 1000 ∧ now - p.lastResetHintMs ≥ 1000 then
      ({ button, lastResetHintMs := now }, .hint held)
    else ({ p with button }, .nothing)

/-- A sample of the button, in real time. -/
structure Press where
  time : Nat
  pressed : Bool
  deriving DecidableEq, Repr

def panelAfter (samples : List Press) : Panel :=
  samples.foldl (fun p s => (pollFactoryResetButton p s.pressed (counter s.time)).1) {}

def shows (before : List Press) (now : Press) : Shown :=
  (pollFactoryResetButton (panelAfter before) now.pressed (counter now.time)).2

/-! ## The BLE stack -/

def kBleIdleGraceMs : UInt32 := 30000

structure BleIdleTimer where
  idle : Bool := false
  sinceMs : UInt32 := 0
  deriving DecidableEq, Repr

def BleIdleTimer.poll (t : BleIdleTimer) (up connected : Bool) (centrals : Nat) (nowMs graceMs : UInt32) :
    BleIdleTimer × Bool :=
  if !up || !connected || centrals > 0 then ({ t with idle := false }, false)
  else if !t.idle then ({ idle := true, sinceMs := nowMs }, false)
  else (t, nowMs - t.sinceMs ≥ graceMs)

/-- `s_bleUp` with the timer. -/
structure BleStack where
  up : Bool
  timer : BleIdleTimer := {}
  deriving DecidableEq, Repr

/-- What one `tick` finds. -/
structure Visit where
  time : Nat
  connected : Bool
  centrals : Nat
  deriving DecidableEq, Repr

/-- The board is done, and nobody is attached. -/
def Visit.unused (v : Visit) : Bool := v.connected && v.centrals = 0

/-- `tick`, and whether it releases the stack. -/
def BleStack.tick (s : BleStack) (v : Visit) : BleStack × Bool :=
  let centrals := if s.up then v.centrals else 0
  let (timer, release) := s.timer.poll s.up v.connected centrals (counter v.time) kBleIdleGraceMs
  (if release then { up := false, timer } else { s with timer }, release)

/-- The stack after `init` and these calls of `tick`. -/
def stackAfter (visits : List Visit) : BleStack :=
  visits.foldl (fun s v => (s.tick v).1) { up := true }

def releases (before : List Visit) (now : Visit) : Bool := ((stackAfter before).tick now).2

/-! ## The log throttle -/

structure LogThrottle where
  everLogged : Bool := false
  lastState : Int32 := 0
  lastMs : UInt32 := 0
  deriving DecidableEq, Repr

def shouldLogState (throttle : LogThrottle) (state : Int32) (nowMs minIntervalMs : UInt32) :
    LogThrottle × Bool :=
  let due := minIntervalMs ≠ 0 ∧ nowMs - throttle.lastMs ≥ minIntervalMs
  if !throttle.everLogged ∨ state ≠ throttle.lastState ∨ due then
    ({ everLogged := true, lastState := state, lastMs := nowMs }, true)
  else (throttle, false)

/-- A call of it. -/
structure Report where
  time : Nat
  state : Int32
  minIntervalMs : UInt32
  deriving DecidableEq, Repr

def throttleAfter (calls : List Report) : LogThrottle :=
  calls.foldl (fun t c => (shouldLogState t c.state (counter c.time) c.minIntervalMs).1) {}

def logs (before : List Report) (now : Report) : Bool :=
  (shouldLogState (throttleAfter before) now.state (counter now.time) now.minIntervalMs).2

/-- The calls that were told to log. -/
def linesAmong (before : List Report) : List Report → List Report
  | [] => []
  | now :: calls =>
      if logs before now then now :: linesAmong (before ++ [now]) calls
      else linesAmong (before ++ [now]) calls

def lines (calls : List Report) : List Report := linesAmong [] calls

/-! ## A press of the button -/

section Button

variable {holdMs : UInt32} {before samples : List Press} {now : Press}

def ResetButton.after (holdMs : UInt32) (samples : List Press) : ResetButton :=
  samples.foldl (fun b s => (b.update s.pressed (counter s.time)).1) { holdMs }

theorem poll_button (p : Panel) (pressed : Bool) (time : UInt32) :
    (pollFactoryResetButton p pressed time).1.button = (p.button.update pressed time).1 ∧
      ((pollFactoryResetButton p pressed time).2 = .factoryReset ↔
        (p.button.update pressed time).2 = true) := by
  unfold pollFactoryResetButton
  cases fires : (p.button.update pressed time).2 with
  | true => simp [fires]
  | false =>
      simp only [fires, Bool.false_eq_true, if_false, iff_false]
      split <;> exact ⟨rfl, nofun⟩

theorem panelAfter_button (samples : List Press) :
    (panelAfter samples).button = ResetButton.after kFactoryResetHoldMs samples := by
  induction samples using List.reverseRecOn with
  | nil => rfl
  | append_singleton samples s ih =>
      simp only [panelAfter, ResetButton.after, List.foldl_append, List.foldl_cons, List.foldl_nil]
      rw [(poll_button _ _ _).1]
      exact congrArg (fun b : ResetButton => (b.update s.pressed (counter s.time)).1) ih

/-- What the button remembers of its samples. -/
structure Tracks (holdMs : UInt32) (samples : List Press) (b : ResetButton) : Prop where
  hold : b.holdMs = holdMs
  pressed : b.pressed = (since Press.pressed Press.time samples).isSome
  stamp : ∀ start ∈ since Press.pressed Press.time samples,
    b.pressedAtMs = counter start ∧
      (b.fired = true ↔ ∃ s ∈ samples.rtakeWhile Press.pressed, start + holdMs.toNat ≤ s.time)

theorem Tracks.update {b : ResetButton} (positive : 0 < holdMs.toNat)
    (tracks : Tracks holdMs before b)
    (steady : Steady Press.time (2 ^ 32 - holdMs.toNat) (before ++ [now])) :
    Tracks holdMs (before ++ [now]) (b.update now.pressed (counter now.time)).1 ∧
      ((b.update now.pressed (counter now.time)).2 = true ↔
        FirstDue Press.pressed Press.time holdMs.toNat before now) := by
  obtain ⟨hold, held, stamp⟩ := tracks
  unfold ResetButton.update
  cases on : now.pressed with
  | false =>
      have broken := @since_broken _ Press.pressed Press.time before now on
      exact ⟨⟨hold, by rw [broken]; rfl, by rw [broken]; nofun⟩,
        iff_of_false nofun (not_firstDue_off on)⟩
  | true =>
      have goes_on := @since_goes_on _ Press.pressed Press.time before now on
      have stretch := List.rtakeWhile_concat_pos Press.pressed before now on
      cases began : since Press.pressed Press.time before with
      | none =>
          rw [began] at held
          rw [began, Option.getD_none] at goes_on
          have first : b.pressed = false := held
          simp only [first, Bool.not_true, Bool.not_false, Bool.false_eq_true, if_true, if_false,
            false_iff]
          refine ⟨⟨hold, by rw [goes_on]; rfl, ?_⟩, not_firstDue_first positive began⟩
          rw [goes_on, stretch, since_eq_none_iff.mp began]
          rintro _ ⟨⟩
          refine ⟨rfl, iff_of_false nofun ?_⟩
          rintro ⟨s, inside, far⟩
          cases List.mem_singleton.mp inside
          omega
      | some start =>
          rw [began] at held
          rw [began, Option.getD_some] at goes_on
          obtain ⟨stamped, fires⟩ := stamp start began
          have pressed : b.pressed = true := held
          simp only [pressed, Bool.not_true, Bool.false_eq_true, if_false]
          by_cases fired : b.fired = true
          · have reached := fires.mp fired
            rw [if_pos fired]
            refine ⟨⟨hold, by rw [goes_on]; exact pressed, ?_⟩,
              iff_of_false nofun (not_firstDue_again began reached)⟩
            rw [goes_on, stretch]
            rintro _ ⟨⟩
            obtain ⟨s, inside, far⟩ := reached
            exact ⟨stamped, iff_of_true fired ⟨s, List.mem_append_left _ inside, far⟩⟩
          · have undue : ∀ s ∈ before.rtakeWhile Press.pressed, s.time < start + holdMs.toNat := by
              intro s inside
              by_contra far
              exact fired (fires.mpr ⟨s, inside, Nat.not_lt.mp far⟩)
            have due := steady.firstDue_iff on began undue
            rw [← stamped, ← hold] at due
            rw [if_neg fired]
            by_cases reached : counter now.time - b.pressedAtMs ≥ b.holdMs
            · rw [if_pos reached]
              have far := due.mpr reached
              refine ⟨⟨hold, by rw [goes_on]; rfl, ?_⟩, iff_of_true rfl (hold ▸ far)⟩
              rw [goes_on, stretch]
              rintro _ ⟨⟩
              obtain ⟨-, start', same, passed, -⟩ := far
              rw [goes_on] at same
              cases same
              exact ⟨stamped, iff_of_true rfl ⟨now, by simp, hold ▸ passed⟩⟩
            · rw [if_neg reached]
              have near := mt due.mp reached
              rw [hold] at near
              refine ⟨⟨hold, by rw [goes_on]; exact pressed, ?_⟩, iff_of_false nofun near⟩
              rw [goes_on, stretch]
              rintro _ ⟨⟩
              refine ⟨stamped, iff_of_false fired ?_⟩
              rintro ⟨s, inside, far⟩
              rcases List.mem_append.mp inside with earlier | last
              · exact absurd far (Nat.not_le.mpr (undue s earlier))
              · rw [List.mem_singleton.mp last] at far
                exact near ⟨on, start, goes_on, far, undue⟩

theorem after_tracks (positive : 0 < holdMs.toNat)
    (steady : Steady Press.time (2 ^ 32 - holdMs.toNat) samples) :
    Tracks holdMs samples (ResetButton.after holdMs samples) := by
  induction samples using List.reverseRecOn with
  | nil => exact ⟨rfl, rfl, by rw [since_nil]; nofun⟩
  | append_singleton samples now ih =>
      rw [ResetButton.after, List.foldl_append]
      exact ((ih steady.front).update positive steady).1

/-- While the button is sampled at least once in each round of the counter, the reset
fires exactly at the first sample of a press that is ten seconds after its first one:
once in every press that lasts so long, and in no other. -/
theorem factoryReset_once_per_press
    (steady : Steady Press.time (2 ^ 32 - kFactoryResetHoldMs.toNat) samples) :
    (∀ before now after, samples = before ++ now :: after →
      (shows before now = .factoryReset ↔
        FirstDue Press.pressed Press.time kFactoryResetHoldMs.toNat before now)) ∧
    (∀ before first between later after, samples = before ++ first :: between ++ later :: after →
      shows before first = .factoryReset →
      shows (before ++ first :: between) later = .factoryReset → ∃ s ∈ between, s.pressed = false) ∧
    (∀ start, since Press.pressed Press.time samples = some start →
      (∃ s ∈ samples.rtakeWhile Press.pressed, start + kFactoryResetHoldMs.toNat ≤ s.time) →
      ∃ before now after, samples = before ++ now :: after ∧ shows before now = .factoryReset ∧
        ∀ s ∈ after, s.pressed = true) := by
  have fires : ∀ before now after, samples = before ++ now :: after →
      (shows before now = .factoryReset ↔
        FirstDue Press.pressed Press.time kFactoryResetHoldMs.toNat before now) := by
    rintro before now after rfl
    rw [List.append_cons] at steady
    have tracks := after_tracks (by decide) steady.front.front
    rw [shows, (poll_button _ _ _).2, panelAfter_button]
    exact (tracks.update (by decide) steady.front).2
  refine ⟨fires, ?_, ?_⟩
  · intro before first between later after split once again
    have due := (fires before first (between ++ later :: after) (by simp [split])).mp once
    exact due.once ((fires _ later after split).mp again)
  · intro start began reached
    obtain ⟨before, now, after, split, due, lasts⟩ := exists_firstDue began reached
    exact ⟨before, now, after, split, (fires before now after split).mpr due, lasts⟩

theorem factoryReset_once_per_press_held :
    shows [⟨4294960000, true⟩, ⟨4294965000, true⟩] ⟨4294970000, true⟩ = .factoryReset ∧
      shows [⟨4294960000, true⟩, ⟨4294965000, true⟩, ⟨4294970000, true⟩] ⟨4294971000, true⟩ ≠
        .factoryReset := by
  have steady : Steady Press.time (2 ^ 32 - kFactoryResetHoldMs.toNat)
      [⟨4294960000, true⟩, ⟨4294965000, true⟩, ⟨4294970000, true⟩, ⟨4294971000, true⟩] := by
    simp only [Steady, List.isChain_cons_cons, List.isChain_singleton]
    decide
  obtain ⟨fires, once, -⟩ := factoryReset_once_per_press steady
  have now : shows [⟨4294960000, true⟩, ⟨4294965000, true⟩] ⟨4294970000, true⟩ = .factoryReset :=
    (fires _ _ [⟨4294971000, true⟩] rfl).mpr ⟨rfl, 4294960000, rfl, by decide, by decide⟩
  refine ⟨now, fun again => ?_⟩
  obtain ⟨s, inside, -⟩ := once _ _ [] _ [] rfl now again
  cases inside

end Button

/-! ## A stack that is no longer used -/

section Stack

variable {before visits : List Visit} {now : Visit}

/-- A stack that is up has seen no stretch get due. -/
structure Waits (visits : List Visit) (s : BleStack) : Prop where
  idle : s.timer.idle = (since Visit.unused Visit.time visits).isSome
  stamp : ∀ start ∈ since Visit.unused Visit.time visits, s.timer.sinceMs = counter start
  undue : ∀ start ∈ since Visit.unused Visit.time visits,
    ∀ v ∈ visits.rtakeWhile Visit.unused, v.time < start + kBleIdleGraceMs.toNat

theorem Waits.tick {s : BleStack} (up : s.up = true) (waits : Waits before s)
    (steady : Steady Visit.time (2 ^ 32 - kBleIdleGraceMs.toNat) (before ++ [now])) :
    ((s.tick now).2 = true ↔ FirstDue Visit.unused Visit.time kBleIdleGraceMs.toNat before now) ∧
      (s.tick now).1.up = !(s.tick now).2 ∧
      ((s.tick now).2 = false → Waits (before ++ [now]) (s.tick now).1) := by
  obtain ⟨idle, stamp, undue⟩ := waits
  have free : (!now.connected || decide (now.centrals > 0)) = !now.unused := by
    rw [Visit.unused, Bool.not_and]
    congr 1
    simp [Nat.pos_iff_ne_zero]
  have small := kBleIdleGraceMs.toNat_lt
  unfold BleStack.tick BleIdleTimer.poll
  simp only [up, if_true, Bool.not_true, Bool.false_or, free, Bool.not_eq_true']
  cases on : now.unused with
  | false =>
      have broken := @since_broken _ Visit.unused Visit.time before now on
      simp only [if_true, Bool.false_eq_true, if_false, false_iff, Bool.not_false]
      refine ⟨not_firstDue_off on, trivial, fun _ => ?_⟩
      exact ⟨by rw [broken]; rfl, by rw [broken]; nofun, by rw [broken]; nofun⟩
  | true =>
      have goes_on := @since_goes_on _ Visit.unused Visit.time before now on
      have stretch := List.rtakeWhile_concat_pos Visit.unused before now on
      simp only [Bool.true_eq_false, if_false]
      cases began : since Visit.unused Visit.time before with
      | none =>
          rw [began] at idle
          rw [began, Option.getD_none] at goes_on
          have first : s.timer.idle = false := idle
          simp only [first, if_true, Bool.false_eq_true, if_false, false_iff, Bool.not_false]
          refine ⟨not_firstDue_first (by decide) began, trivial, fun _ => ⟨?_, ?_, ?_⟩⟩
          · rw [goes_on]
            rfl
          · rw [goes_on]
            rintro _ ⟨⟩
            rfl
          · rw [goes_on, stretch, since_eq_none_iff.mp began]
            rintro _ ⟨⟩
            simp
            decide
      | some start =>
          rw [began] at idle
          rw [began, Option.getD_some] at goes_on
          have lasts : s.timer.idle = true := idle
          have due := steady.firstDue_iff on began (undue start began)
          rw [← stamp start began] at due
          simp only [lasts, Bool.true_eq_false, if_false, decide_eq_true_eq, ge_iff_le]
          by_cases reached : kBleIdleGraceMs ≤ counter now.time - s.timer.sinceMs
          · rw [if_pos reached, decide_eq_true reached]
            exact ⟨due.symm, rfl, nofun⟩
          · rw [if_neg reached, decide_eq_false reached]
            refine ⟨due.symm, rfl, fun _ => ⟨?_, ?_, ?_⟩⟩
            · rw [goes_on]
              exact lasts
            · rw [goes_on]
              rintro _ ⟨⟩
              exact stamp start began
            · rw [goes_on, stretch]
              rintro _ ⟨⟩ v inside
              rcases List.mem_append.mp inside with earlier | last
              · exact undue start began v earlier
              · rw [List.mem_singleton.mp last]
                by_contra far
                exact reached (due.mp ⟨on, start, goes_on, Nat.not_lt.mp far, undue start began⟩)

/-- A stack is up until the first release. -/
theorem stackAfter_up (steady : Steady Visit.time (2 ^ 32 - kBleIdleGraceMs.toNat) visits) :
    ((stackAfter visits).up = true ↔
      ∀ front v back, visits = front ++ v :: back → releases front v = false) ∧
    ((stackAfter visits).up = true → Waits visits (stackAfter visits)) := by
  induction visits using List.reverseRecOn with
  | nil => exact ⟨iff_of_true rfl (by simp), fun _ => ⟨rfl, by simp, by simp⟩⟩
  | append_singleton before now ih =>
      obtain ⟨ups, waits⟩ := ih steady.front
      have next : stackAfter (before ++ [now]) = ((stackAfter before).tick now).1 := by
        simp [stackAfter]
      rw [next, OrderedTrace.forall_concat (p := fun front v => releases front v = false), ← ups]
      by_cases up : (stackAfter before).up = true
      · obtain ⟨-, after, later⟩ := (waits up).tick up steady
        rw [after, ← releases]
        exact ⟨by simp [up], fun kept => later (by simpa [releases] using kept)⟩
      · have down : (stackAfter before).up = false := by simpa using up
        have stays : ((stackAfter before).tick now).1.up = false := by
          simp [BleStack.tick, BleIdleTimer.poll, down]
        rw [stays]
        exact ⟨by simp [down], nofun⟩

/-- While `tick` is called at least once in each round of the counter, the stack is
released exactly once, at the first call where the board has been connected with nobody
attached, at every call, for thirty seconds. -/
theorem bleStack_released (steady : Steady Visit.time (2 ^ 32 - kBleIdleGraceMs.toNat) visits) :
    ∀ before now after, visits = before ++ now :: after →
      (releases before now = true ↔
        (∀ front v back, before = front ++ v :: back → releases front v = false) ∧
          FirstDue Visit.unused Visit.time kBleIdleGraceMs.toNat before now) := by
  rintro before now after rfl
  rw [List.append_cons] at steady
  obtain ⟨ups, waits⟩ := stackAfter_up steady.front.front
  rw [← ups]
  by_cases up : (stackAfter before).up = true
  · rw [releases, ((waits up).tick up steady.front).1]
    simp [up]
  · have down : (stackAfter before).up = false := by simpa using up
    simp [releases, BleStack.tick, BleIdleTimer.poll, down]

theorem bleStack_released_connected :
    releases [⟨1000, true, 1⟩, ⟨6000, true, 0⟩, ⟨20000, true, 0⟩] ⟨36000, true, 0⟩ = true := by
  have steady : Steady Visit.time (2 ^ 32 - kBleIdleGraceMs.toNat)
      [⟨1000, true, 1⟩, ⟨6000, true, 0⟩, ⟨20000, true, 0⟩, ⟨36000, true, 0⟩] := by
    simp only [Steady, List.isChain_cons_cons, List.isChain_singleton]
    decide
  have whole : Steady Visit.time (2 ^ 32 - kBleIdleGraceMs.toNat)
      ([⟨1000, true, 1⟩, ⟨6000, true, 0⟩, ⟨20000, true, 0⟩] ++ [⟨36000, true, 0⟩]) := steady
  have earlier := whole.front
  exact (bleStack_released steady _ _ [] rfl).mpr
    ⟨(stackAfter_up earlier).1.mp rfl, rfl, 6000, rfl, by decide, by decide⟩

end Stack

/-! ## A throttled log -/

section Throttle

variable {before calls : List Report} {now : Report}

@[simp] theorem linesAmong_append (before front back : List Report) :
    linesAmong before (front ++ back) =
      linesAmong before front ++ linesAmong (before ++ front) back := by
  induction front generalizing before with
  | nil => simp [linesAmong]
  | cons now front ih =>
      simp only [List.cons_append, linesAmong, ih, List.append_assoc, List.nil_append]
      split <;> rfl

theorem lines_concat (calls : List Report) (now : Report) :
    lines (calls ++ [now]) = lines calls ++ if logs calls now then [now] else [] := by
  rw [lines, linesAmong_append, ← lines, List.nil_append]
  rfl

/-- What the throttle remembers: the state of the last call, and when the last line was
written, which was one of that state. -/
structure Remembers (calls : List Report) (t : LogThrottle) : Prop where
  ever : t.everLogged = !calls.isEmpty
  state : ∀ last ∈ calls.getLast?, t.lastState = last.state
  line : ∀ last ∈ calls.getLast?, ∃ line ∈ (lines calls).getLast?,
    line.state = last.state ∧ t.lastMs = counter line.time

theorem shouldLogState_eq {t : LogThrottle} (remembers : Remembers before t) (now : Report) :
    (shouldLogState t now.state (counter now.time) now.minIntervalMs =
        ({ everLogged := true, lastState := now.state, lastMs := counter now.time }, true) ∧
      ∀ last ∈ before.getLast?, last.state ≠ now.state ∨
        (now.minIntervalMs ≠ 0 ∧ now.minIntervalMs ≤ counter now.time - t.lastMs)) ∨
    (shouldLogState t now.state (counter now.time) now.minIntervalMs = (t, false) ∧
      ∃ last ∈ before.getLast?, last.state = now.state ∧
        ¬ (now.minIntervalMs ≠ 0 ∧ now.minIntervalMs ≤ counter now.time - t.lastMs)) := by
  obtain ⟨ever, state, -⟩ := remembers
  unfold shouldLogState
  simp only [ge_iff_le]
  split
  · next logged =>
      refine .inl ⟨rfl, fun last final => ?_⟩
      have known : t.everLogged = true := by
        cases before with
        | nil => cases final
        | cons _ _ => simp [ever]
      rw [known, state last final] at logged
      simpa [eq_comm] using logged
  · next kept =>
      simp only [not_or, Bool.not_eq_true', Bool.not_eq_false, not_not] at kept
      cases before using List.reverseRecOn with
      | nil => simp [ever] at kept
      | append_singleton front last =>
          have final : last ∈ (front ++ [last]).getLast? := by simp
          exact .inr ⟨rfl, last, final, by rw [kept.2.1, state last final], kept.2.2⟩

theorem throttleAfter_remembers (calls : List Report) : Remembers calls (throttleAfter calls) := by
  induction calls using List.reverseRecOn with
  | nil => exact ⟨rfl, by simp, by simp⟩
  | append_singleton before now ih =>
      have next : throttleAfter (before ++ [now]) =
          (shouldLogState (throttleAfter before) now.state (counter now.time) now.minIntervalMs).1 := by
        simp [throttleAfter]
      rw [next]
      rcases shouldLogState_eq ih now with ⟨logged, -⟩ | ⟨kept, last, final, same, -⟩
      · have written : logs before now = true := by rw [logs, logged]
        rw [logged]
        refine ⟨by simp, by simp, ?_⟩
        rw [lines_concat, written]
        simp
      · have silent : logs before now = false := by rw [logs, kept]
        rw [kept]
        refine ⟨?_, ?_, ?_⟩
        · rw [ih.ever]
          cases before with
          | nil => cases final
          | cons _ _ => rfl
        · simpa [← same] using ih.state last final
        · rw [lines_concat, silent]
          simpa [← same] using ih.line last final

theorem lines_sublist (calls : List Report) : (lines calls).Sublist calls := by
  induction calls using List.reverseRecOn with
  | nil => exact List.Sublist.refl []
  | append_singleton before now ih =>
      rw [lines_concat]
      refine List.Sublist.append ih ?_
      split
      · exact List.Sublist.refl _
      · exact List.nil_sublist _

theorem logs_iff (ordered : ∀ c ∈ before, c.time ≤ now.time) :
    logs before now = true ↔ ∀ last ∈ before.getLast?, last.state ≠ now.state ∨
      (now.minIntervalMs ≠ 0 ∧ ∀ line ∈ (lines before).getLast?,
        now.minIntervalMs.toNat ≤ (now.time - line.time) % 2 ^ 32) := by
  have remembers := throttleAfter_remembers before
  have due : ∀ last ∈ before.getLast?,
      (now.minIntervalMs ≤ counter now.time - (throttleAfter before).lastMs ↔
        ∀ line ∈ (lines before).getLast?,
          now.minIntervalMs.toNat ≤ (now.time - line.time) % 2 ^ 32) := by
    intro last final
    obtain ⟨line, final_line, -, stamped⟩ := remembers.line last final
    have past := ordered line ((lines_sublist before).subset (List.mem_of_getLast? final_line))
    rw [stamped, UInt32.le_iff_toNat_le, toNat_elapsed past]
    rw [Option.mem_def] at final_line
    simp [final_line]
  rcases shouldLogState_eq remembers now with ⟨logged, changed⟩ | ⟨kept, last, final, same, early⟩
  · rw [logs, logged]
    refine iff_of_true rfl fun last final => ?_
    rw [← due last final]
    exact changed last final
  · rw [logs, kept]
    refine iff_of_false nofun fun changed => ?_
    have late := changed last final
    rw [← due last final] at late
    exact late.elim (fun differs => differs same) early

/-- The calls that log are the first one, every one with another state than the call
before it, and those that come, on the counter, their interval after the last line; so
two lines in a row with one state are that interval apart. -/
theorem throttled_lines (ordered : calls.Pairwise fun x y => x.time ≤ y.time) :
    (∀ before now after, calls = before ++ now :: after →
      (logs before now = true ↔ ∀ last ∈ before.getLast?, last.state ≠ now.state ∨
        (now.minIntervalMs ≠ 0 ∧ ∀ line ∈ (lines before).getLast?,
          now.minIntervalMs.toNat ≤ (now.time - line.time) % 2 ^ 32))) ∧
    (lines calls).IsChain fun x y => x.state ≠ y.state ∨
      (y.minIntervalMs ≠ 0 ∧ x.time + y.minIntervalMs.toNat ≤ y.time) := by
  constructor
  · rintro before now after rfl
    exact logs_iff fun c inside =>
      (List.pairwise_append.mp ordered).2.2 c inside now List.mem_cons_self
  · induction calls using List.reverseRecOn with
    | nil => exact List.isChain_nil
    | append_singleton before now ih =>
        obtain ⟨sorted, -, past⟩ := List.pairwise_append.mp ordered
        have latest : ∀ c ∈ before, c.time ≤ now.time := fun c inside =>
          past c inside now (List.mem_singleton.mpr rfl)
        rw [lines_concat]
        split
        · next written =>
            refine (ih sorted).append (List.isChain_singleton now) ?_
            rintro line final _ ⟨⟩
            have inside := (lines_sublist before).subset (List.mem_of_getLast? final)
            obtain ⟨last, final_call⟩ : ∃ last, before.getLast? = some last := by
              cases before using List.reverseRecOn with
              | nil => cases inside
              | append_singleton front last => exact ⟨last, by simp⟩
            obtain ⟨line', final', same, -⟩ := (throttleAfter_remembers before).line last final_call
            rw [Option.mem_def] at final final'
            rw [final] at final'
            cases final'
            rcases (logs_iff latest).mp written last final_call with differs | ⟨some_time, due⟩
            · exact .inl fun equal => differs (same.symm.trans equal)
            · have passed := due line final
              have shorter := Nat.mod_le (now.time - line.time) (2 ^ 32)
              have before_now := latest line inside
              exact .inr ⟨some_time, by omega⟩
        · rw [List.append_nil]
          exact ih sorted

theorem throttled_lines_polled :
    logs [⟨1000, 1, 600000⟩] ⟨6000, 1, 600000⟩ = false ∧
      logs [⟨1000, 1, 600000⟩, ⟨6000, 1, 600000⟩] ⟨601000, 1, 600000⟩ = true := by
  have ordered : ([⟨1000, 1, 600000⟩, ⟨6000, 1, 600000⟩, ⟨601000, 1, 600000⟩] : List Report).Pairwise
      fun x y => x.time ≤ y.time := by simp
  obtain ⟨exactly, -⟩ := throttled_lines ordered
  rw [← Bool.not_eq_true, exactly [⟨1000, 1, 600000⟩] _ [⟨601000, 1, 600000⟩] rfl,
    exactly _ ⟨601000, 1, 600000⟩ [] rfl]
  decide

end Throttle

end FryFirmware.Boot
