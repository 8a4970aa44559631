import FryFirmware.Lib.Wait
import FryFirmware.Lib.Clock
import Mathlib.Data.List.Basic
import Mathlib.Tactic.Common

/-!
# Waiting for the heap to settle

`lib/fry_core/ota_settle.cpp`, and the loops of `src/core/ota_client.cpp` that ask it on
the ESP8266: after the session of the manifest, after a followed redirect, and before a
check starts.
-/

set_option autoImplicit false

namespace FryFirmware.Ota

open Lib

def kOtaSettleMaxMs : UInt32 := 5000

def kOtaSettlePollMs : UInt32 := 20

def kOtaSettleSlackBytes : UInt32 := 64

def kOtaCheckStartStableMs : UInt32 := 1000

inductive SettleHold where
  | proceed
  | hold
  deriving DecidableEq, Repr

/-- The block that counts as back, for a block that was there before. -/
def settleWant (before slackBytes : UInt32) : UInt32 :=
  if before > slackBytes then before - slackBytes else 0

def decideHeapSettle (blkNow blkBefore slackBytes heldMs maxHoldMs : UInt32) : SettleHold :=
  if blkNow ≥ settleWant blkBefore slackBytes then .proceed
  else if heldMs ≥ maxHoldMs then .proceed
  else .hold

def decideClosingSettle (closingPcbs heldMs maxHoldMs : UInt32) : SettleHold :=
  if closingPcbs == 0 then .proceed
  else if heldMs ≥ maxHoldMs then .proceed
  else .hold

def decideCheckStartSettle (blkNow baseline slackBytes heldMs stableMs maxHoldMs : UInt32) :
    SettleHold :=
  if heldMs ≥ maxHoldMs then .proceed
  else if baseline == 0 then
    if stableMs ≥ kOtaCheckStartStableMs then .proceed else .hold
  else if blkNow ≥ settleWant baseline slackBytes then .proceed
  else .hold

def nextCheckStartBaseline (baseline blkAtProceed : UInt32) (boundReached : Bool) : UInt32 :=
  if boundReached && blkAtProceed < baseline then blkAtProceed
  else if blkAtProceed > baseline then blkAtProceed
  else baseline

/-- A line of the log: whether the block was back, and the numbers in it. -/
structure SettleLine where
  settled : Bool
  waited : UInt32
  blk : UInt32
  start : UInt32
  deriving DecidableEq, Repr

/-! ## After a session -/

/-- What one look of the loop reads, and when: the clock for the heap, the clock for the
closing connections, and the clock behind the loop. -/
structure Look where
  blk : UInt32
  heapTime : Nat
  closingPcbs : UInt32
  closingTime : Nat
  doneTime : Nat
  deriving DecidableEq, Repr

def heldAfterSession (blkBefore : UInt32) (t0 : Nat) (look : Look) : Bool :=
  decideHeapSettle look.blk blkBefore kOtaSettleSlackBytes (counter look.heapTime - counter t0)
      kOtaSettleMaxMs == .hold ||
    decideClosingSettle look.closingPcbs (counter look.closingTime - counter t0)
      kOtaSettleMaxMs == .hold

/-- The loop that `settleAfterHop` and `settleAfterManifest` share: the look it ends with. -/
def settleLoop (blkBefore : UInt32) (t0 : Nat) (looks : Nat → Look) (fuel : Nat) : Option Look :=
  (waitFrom (fun n => heldAfterSession blkBefore t0 (looks n)) fuel 0).map looks

def settleAfterHop (blkBaseline : UInt32) (t0 : Nat) (looks : Nat → Look) (fuel : Nat) :
    Option (UInt32 × Option SettleLine) := do
  let look ← settleLoop blkBaseline t0 looks fuel
  let waited := counter look.doneTime - counter t0
  if look.blk + kOtaSettleSlackBytes < blkBaseline then
    return (waited, some { settled := false, waited, blk := look.blk, start := blkBaseline })
  return (waited, none)

def settleAfterManifest (blkBefore : UInt32) (t0 : Nat) (looks : Nat → Look) (fuel : Nat) :
    Option (Option SettleLine) := do
  let look ← settleLoop blkBefore t0 looks fuel
  let waited := counter look.doneTime - counter t0
  if waited == 0 then return none
  let back := look.blk + kOtaSettleSlackBytes ≥ blkBefore
  return some { settled := back, waited, blk := look.blk, start := blkBefore }

/-! ## Before a check -/

/-- A look before a check: the largest block, and the clock behind it. -/
structure StartLook where
  blk : UInt32
  time : Nat
  deriving DecidableEq, Repr

/-- The variables of `settleBeforeCheck`. -/
structure StartWait where
  blk : UInt32
  last : UInt32
  changedAt : UInt32
  held : UInt32
  stable : UInt32
  deriving DecidableEq, Repr

/-- A check as it begins: the clock and the block before the loop, and the looks of the loop. -/
structure CheckStart where
  t0 : Nat
  blk : UInt32
  looks : Nat → StartLook

namespace CheckStart

def begin (c : CheckStart) : StartWait :=
  { blk := c.blk, last := c.blk, changedAt := counter c.t0, held := 0, stable := 0 }

/-- One turn of the loop, behind its delay. -/
def turn (c : CheckStart) (w : StartWait) (look : StartLook) : StartWait :=
  let now := counter look.time
  let (last, changedAt) := if look.blk != w.last then (look.blk, now) else (w.last, w.changedAt)
  { blk := look.blk, last, changedAt, held := now - counter c.t0, stable := now - changedAt }

/-- The variables after so many turns. -/
def waitAfter (c : CheckStart) : Nat → StartWait
  | 0 => c.begin
  | n + 1 => c.turn (c.waitAfter n) (c.looks n)

def heldBefore (c : CheckStart) (base : UInt32) (n : Nat) : Bool :=
  let w := c.waitAfter n
  decideCheckStartSettle w.blk base kOtaSettleSlackBytes w.held w.stable kOtaSettleMaxMs == .hold

/-- The variables when the loop ends. -/
def startLoop (c : CheckStart) (base : UInt32) (fuel : Nat) : Option StartWait :=
  (waitFrom (c.heldBefore base) fuel 0).map c.waitAfter

end CheckStart

/-- The new `s_blkSettledBase`, the variables the check goes on with, and the line. -/
def settleBeforeCheck (base : UInt32) (c : CheckStart) (fuel : Nat) :
    Option (UInt32 × StartWait × Option SettleLine) := do
  let w ← c.startLoop base fuel
  let back := base == 0 || w.blk + kOtaSettleSlackBytes ≥ base
  let next := nextCheckStartBaseline base w.blk (w.held ≥ kOtaSettleMaxMs)
  if w.held == 0 then return (next, w, none)
  return (next, w, some { settled := back, waited := w.held, blk := w.blk, start := base })

/-- As many looks as a loop can need, and one. -/
def settleLooks : Nat := kOtaSettleMaxMs.toNat / kOtaSettlePollMs.toNat + 1

/-- The waits of one boot, in order, and what `s_blkSettledBase` is after them. -/
def settleChecks : UInt32 → List CheckStart → Option (UInt32 × List StartWait)
  | base, [] => some (base, [])
  | base, c :: checks => do
      let (base', w, _) ← settleBeforeCheck base c settleLooks
      let (final, ws) ← settleChecks base' checks
      return (final, w :: ws)

end FryFirmware.Ota
