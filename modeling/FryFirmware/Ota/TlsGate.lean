import FryFirmware.Ota.Schedule
import Mathlib.Data.List.Basic
import Mathlib.Tactic.Common

/-!
# The boot TLS gate over unbounded time

The link-up stamps of `src/esp8266/wifi_connect.cpp`, `connectAnchorMs` of
`lib/fry_core/tls_boot_gate.cpp`, and the two waits counted from its anchor. Time
is a natural number of milliseconds, and `millis()` its value modulo `2 ^ 32`.
-/

set_option autoImplicit false

namespace FryFirmware.Ota

def millis (time : Nat) : UInt32 := UInt32.ofNat time

/-! ## Link-up stamps -/

structure LinkStamps where
  assocMs : UInt32 := 0
  detectMs : UInt32 := 0
  haveAssoc : Bool := false
  haveDetect : Bool := false
  deriving DecidableEq, Repr

/-- A link-up as the board notices it: the association callback, and the address seen
by `connect` or `maintain`. -/
inductive LinkUp where
  | associated (time : Nat)
  | detected (time : Nat)
  deriving DecidableEq, Repr

def LinkUp.time : LinkUp → Nat
  | associated time => time
  | detected time => time

def LinkStamps.stamp (stamps : LinkStamps) : LinkUp → LinkStamps
  | .associated time =>
      { stamps with assocMs := millis time, haveAssoc := true, haveDetect := false }
  | .detected time => { stamps with detectMs := millis time, haveDetect := true }

/-- The comparison of the two stamps, as a signed difference. -/
def detectedLater (detectMs assocAnchor : UInt32) : Bool := (detectMs - assocAnchor).toNat < 2 ^ 31

def connectAnchorMs (stamps : LinkStamps) : Option UInt32 :=
  let assocAnchor := stamps.assocMs + kAssocToDetectLeadMs
  if stamps.haveDetect && stamps.haveAssoc then
    some (if detectedLater stamps.detectMs assocAnchor then stamps.detectMs else assocAnchor)
  else if stamps.haveDetect then some stamps.detectMs
  else if stamps.haveAssoc then some assocAnchor
  else none

/-! ## The times behind the stamps -/

/-- When the stamps that are in force were taken. -/
structure LinkTimes where
  assoc : Option Nat := none
  detect : Option Nat := none
  deriving DecidableEq, Repr

def LinkTimes.note (times : LinkTimes) : LinkUp → LinkTimes
  | .associated time => { assoc := some time, detect := none }
  | .detected time => { times with detect := some time }

/-- The time of the anchor: that of the stamp which `connectAnchorMs` takes, with the
lead added to an association. -/
def LinkTimes.anchor (times : LinkTimes) : Option Nat :=
  match times.detect, times.assoc with
  | some detect, some assoc =>
      some (if detectedLater (millis detect) (millis assoc + kAssocToDetectLeadMs) then detect
        else assoc + 2500)
  | some detect, none => some detect
  | none, some assoc => some (assoc + 2500)
  | none, none => none

def stampsAfter (events : List LinkUp) : LinkStamps := events.foldl LinkStamps.stamp {}

def timesAfter (events : List LinkUp) : LinkTimes := events.foldl LinkTimes.note {}

/-- What is left at a time of a window that begins at the anchor. -/
def timeLeft (window anchor time : Nat) : Nat := anchor + window - time

/-! ## Anchors -/

/-- The stamps are the counter's values at those times, none later than `limit`. -/
structure Stamped (limit : Nat) (stamps : LinkStamps) (times : LinkTimes) : Prop where
  assoc : if stamps.haveAssoc then
      ∃ time ≤ limit, times.assoc = some time ∧ stamps.assocMs = millis time
    else times.assoc = none
  detect : if stamps.haveDetect then
      ∃ time ≤ limit, times.detect = some time ∧ stamps.detectMs = millis time
    else times.detect = none

theorem Stamped.next {limit : Nat} {stamps : LinkStamps} {times : LinkTimes}
    (stamped : Stamped limit stamps times) {event : LinkUp} (past : event.time ≤ limit) :
    Stamped limit (stamps.stamp event) (times.note event) := by
  cases event with
  | associated time => exact ⟨⟨time, past, rfl, rfl⟩, rfl⟩
  | detected time => exact ⟨stamped.assoc, ⟨time, past, rfl, rfl⟩⟩

theorem Stamped.after {limit : Nat} {stamps : LinkStamps} {times : LinkTimes} {events : List LinkUp}
    (stamped : Stamped limit stamps times) (past : ∀ event ∈ events, event.time ≤ limit) :
    Stamped limit (events.foldl LinkStamps.stamp stamps) (events.foldl LinkTimes.note times) := by
  induction events generalizing stamps times with
  | nil => exact stamped
  | cons event events ih =>
      rw [List.forall_mem_cons] at past
      exact ih (stamped.next past.1) past.2

theorem stampsAfter_stamped {limit : Nat} {events : List LinkUp}
    (past : ∀ event ∈ events, event.time ≤ limit) :
    Stamped limit (stampsAfter events) (timesAfter events) :=
  Stamped.after ⟨rfl, rfl⟩ past

theorem millis_add_lead (time : Nat) : millis time + kAssocToDetectLeadMs = millis (time + 2500) := by
  simp only [millis, UInt32.ofNat_add]
  rfl

/-- The anchor is the counter's value at the anchor's time, at most the lead of an
association ahead. -/
theorem Stamped.anchor {limit : Nat} {stamps : LinkStamps} {times : LinkTimes}
    (stamped : Stamped limit stamps times) :
    connectAnchorMs stamps = times.anchor.map millis ∧
      ∀ anchor ∈ times.anchor, anchor ≤ limit + 2500 := by
  obtain ⟨assocMs, detectMs, haveAssoc, haveDetect⟩ := stamps
  obtain ⟨assoc, detect⟩ := times
  obtain ⟨first, second⟩ := stamped
  cases haveAssoc with
  | false =>
      cases first
      cases haveDetect with
      | false =>
          cases second
          exact ⟨rfl, nofun⟩
      | true =>
          obtain ⟨time, early, rfl, rfl⟩ := second
          refine ⟨rfl, ?_⟩
          rintro _ ⟨⟩
          omega
  | true =>
      obtain ⟨time, early, rfl, rfl⟩ := first
      cases haveDetect with
      | false =>
          cases second
          refine ⟨congrArg some (millis_add_lead time), ?_⟩
          rintro _ ⟨⟩
          omega
      | true =>
          obtain ⟨later, soon, rfl, rfl⟩ := second
          simp only [connectAnchorMs, LinkTimes.anchor, millis_add_lead, Option.map_some]
          cases takes : detectedLater (millis later) (millis (time + 2500)) with
          | false =>
              refine ⟨by simp, ?_⟩
              rintro _ ⟨⟩
              simp only [Bool.false_eq_true, if_false]
              omega
          | true =>
              refine ⟨by simp, ?_⟩
              rintro _ ⟨⟩
              simp only [if_true]
              omega

/-- With both stamps in force it is the later of the address and the association with
its lead, unless the address took half the counter's range to come. -/
theorem anchor_later {assoc detect : Nat} (ordered : assoc ≤ detect)
    (soon : detect < assoc + 2500 + 2 ^ 31) :
    (LinkTimes.mk (some assoc) (some detect)).anchor = some (max detect (assoc + 2500)) := by
  have apart : (millis detect - millis (assoc + 2500)).toNat =
      (4294967296 - (assoc + 2500) % 4294967296 + detect % 4294967296) % 4294967296 :=
    UInt32.toNat_sub _ _
  simp only [LinkTimes.anchor, millis_add_lead, detectedLater, apart, decide_eq_true_eq]
  split
  · next later => exact congrArg some (by omega)
  · next earlier => exact congrArg some (by omega)

/-! ## The waits -/

theorem anchorAhead_iff {ahead : UInt32} :
    anchorAhead ahead = true ↔ 0 < ahead.toNat ∧ ahead.toNat ≤ 2500 := by
  have lead : kAssocToDetectLeadMs.toNat = 2500 := rfl
  have zero : ahead = 0 ↔ ahead.toNat = 0 := UInt32.toNat_inj.symm
  simp only [anchorAhead, Bool.and_eq_true, decide_eq_true_eq, ne_eq, zero, UInt32.le_iff_toNat_le, lead]
  omega

/-- One wait is the time left up to shortly before the counter comes round, and from
then on in every round but for the window and the lead before it. -/
theorem waitAfterConnect_iff {window : UInt32} (some_time : 0 < window.toNat)
    (short : window.toNat ≤ 13100) {anchor time : Nat} (near : anchor ≤ time + 2500) :
    (waitAfterConnect window (millis time) (some (millis anchor))).toNat =
        timeLeft window.toNat anchor time ↔
      time < anchor + (2 ^ 32 - 2500) ∨
        (window.toNat ≤ (time - anchor) % 2 ^ 32 ∧ (time - anchor) % 2 ^ 32 < 2 ^ 32 - 2500) := by
  have ahead : (millis anchor - millis time).toNat =
      (4294967296 - time % 4294967296 + anchor % 4294967296) % 4294967296 := UInt32.toNat_sub _ _
  have elapsed : (millis time - millis anchor).toNat =
      (4294967296 - anchor % 4294967296 + time % 4294967296) % 4294967296 := UInt32.toNat_sub _ _
  simp only [waitAfterConnect, timeLeft, Nat.reducePow]
  by_cases before : anchorAhead (millis anchor - millis time) = true
  · rw [if_pos before, UInt32.toNat_add]
    rw [anchorAhead_iff] at before
    omega
  · rw [if_neg before]
    rw [anchorAhead_iff] at before
    by_cases past : millis time - millis anchor ≥ window
    · rw [if_pos past, UInt32.toNat_zero]
      rw [ge_iff_le, UInt32.le_iff_toNat_le] at past
      omega
    · rw [if_neg past]
      have less : millis time - millis anchor ≤ window := UInt32.le_of_lt (UInt32.not_le.mp past)
      rw [UInt32.toNat_sub_of_le _ _ less]
      rw [ge_iff_le, UInt32.le_iff_toNat_le] at past
      omega

/-- For the anchor of any link-ups, and any later time: both waits are exactly the time
left if and only if the counter has not come round to shortly before the anchor, or is
in no later round's window or the lead before it. -/
theorem waits_iff {events : List LinkUp} {time anchor : Nat}
    (past : ∀ event ∈ events, event.time ≤ time)
    (anchored : (timesAfter events).anchor = some anchor) :
    (tlsConnectWaitMs (millis time) (connectAnchorMs (stampsAfter events))).toNat =
        timeLeft 9000 anchor time ∧
      (otaFirstCheckAfterConnectWaitMs (millis time) (connectAnchorMs (stampsAfter events))).toNat =
        timeLeft 13100 anchor time ↔
    time < anchor + (2 ^ 32 - 2500) ∨
      (13100 ≤ (time - anchor) % 2 ^ 32 ∧ (time - anchor) % 2 ^ 32 < 2 ^ 32 - 2500) := by
  obtain ⟨same, near⟩ := (stampsAfter_stamped past).anchor
  have ahead := near anchor anchored
  have tls := @waitAfterConnect_iff kBootAsyncEventDoneMs (by decide) (by decide) anchor time ahead
  have ota := @waitAfterConnect_iff (kBootAsyncEventDoneMs + kOtaFirstCheckRegSlotMs) (by decide)
    (by decide) anchor time ahead
  have first : kBootAsyncEventDoneMs.toNat = 9000 := rfl
  have second : (kBootAsyncEventDoneMs + kOtaFirstCheckRegSlotMs).toNat = 13100 := rfl
  rw [first] at tls
  rw [second] at ota
  rw [same, anchored, Option.map_some, tlsConnectWaitMs, otaFirstCheckAfterConnectWaitMs, tls, ota]
  omega

theorem waits_iff_connected :
    (tlsConnectWaitMs (millis 16000)
        (connectAnchorMs (stampsAfter [.associated 5000, .detected 10000]))).toNat =
      timeLeft 9000 10000 16000 ∧
    (otaFirstCheckAfterConnectWaitMs (millis 16000)
        (connectAnchorMs (stampsAfter [.associated 5000, .detected 10000]))).toNat =
      timeLeft 13100 10000 16000 :=
  (@waits_iff [.associated 5000, .detected 10000] 16000 10000 (by decide) (by decide)).mpr
    (.inl (by decide))

/-- One round of the counter after an anchor the gate closes again. -/
theorem gate_closes_again :
    ¬ ∀ (events : List LinkUp) (time anchor : Nat), (∀ event ∈ events, event.time ≤ time) →
      (timesAfter events).anchor = some anchor → anchor + 9000 ≤ time →
      tlsConnectWaitMs (millis time) (connectAnchorMs (stampsAfter events)) = 0 := by
  intro opens
  have closed := opens [.associated 5000, .detected 10000] (10000 + 2 ^ 32) 10000 (by decide)
    (by decide) (by decide)
  exact absurd closed (by decide)

end FryFirmware.Ota
