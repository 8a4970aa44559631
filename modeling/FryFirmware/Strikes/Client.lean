import FryFirmware.Strikes.Board
import Mathlib.Data.List.Basic
import Mathlib.Tactic.Common

/-!
# The update client

`src/core/ota_client.cpp` as far as the keys of `fry_ota` go: `init`, the check of a
manifest with the end of `downloadAndApply`, `tryMarkValid`, `loopGuard`,
`notePlannedRestart` and `manualRollback`. The reset at the end of an operation is
its last write: power may be lost before it.
-/

set_option autoImplicit false

namespace FryFirmware.Strikes

open Lib
open Lib.Program (get put tell)
open Config (Text)
open Ota (kMarkValidSettleMs)

abbrev Prog (α : Type) : Type := Program Board Action α

/-- The channel and the deadline of the build. -/
structure Build where
  channel : Text
  verifyDeadlineMs : UInt32

/-! ## `fry_config` -/

def setOtaPending (version : Text) : Prog Unit := do let _ ← put (.putPending version)
def clearOtaPending : Prog Unit := do let _ ← put .removePending
def setOtaBootFails (count : Nat) : Prog Unit := do let _ ← put (.putBootFails count)
def clearOtaBootFails : Prog Unit := do let _ ← put .removeBootFails

def setOtaPlannedRestart (planned : Bool) : Prog Unit := do
  let _ ← put (if planned then .putPlanned else .removePlanned)

def setOtaRolledBack (rolledBack : Bool) : Prog Unit := do
  let _ ← put (if rolledBack then .putRolledBack else .removeRolledBack)

def setOtaStrikes (version : Text) (strikes : Nat) : Prog Unit := do
  if version ≠ [] then
    let _ ← put (.putBadVer version)
    let _ ← put (.putBadN strikes)
  else
    let _ ← put .removeBadVer
    let _ ← put .removeBadN

def espRestart : Prog Unit := do let _ ← put (.reset false)

/-! ## The start -/

/-- There is another slot to boot into. -/
def Board.hasOther (p : Platform) (b : Board) : Bool := p ≠ .esp8266 && b.other.isSome

/-- `esp_ota_get_last_invalid_partition`. -/
def Board.lastInvalid (p : Platform) (b : Board) : Bool :=
  p ≠ .esp8266 && (b.running.state = .invalid || b.other.any fun other => other.state = .invalid)

/-- There is an image to roll back to. -/
def Board.canRollBack (p : Platform) (b : Board) : Bool :=
  p ≠ .esp8266 && b.other.any fun other => other.state ≠ .invalid

/-- The running image is `PENDING_VERIFY`. -/
def Board.isPendingVerify (p : Platform) (b : Board) : Bool :=
  p ≠ .esp8266 && b.running.state = .pendingVerify

def manualRollback (p : Platform) : Prog Unit := do
  let b ← get
  if b.hasOther p then
    setOtaRolledBack true
    let _ ← put .setBoot
  else clearOtaPending
  clearOtaBootFails
  espRestart

def recordStrike (pending : Text) (plannedRestart : Bool) : Prog Unit := do
  let b ← get
  let (strikes, changed) :=
    nextStrikeCount b.store.getBadVer b.store.getBadN pending plannedRestart
  if changed then
    setOtaStrikes pending strikes
    let b ← get
    tell (.setRam { b.ram with firstCheckAfterRollback := true })

/-- `init` where the pending version runs; whether it returns. -/
def awaitConfirmation (p : Platform) : Prog Bool := do
  let b ← get
  tell (.setRam { b.ram with confirmPending := true })
  let fails := incrementByte b.store.getBootFails
  setOtaBootFails fails
  if shouldRollBack fails OTA_BOOT_FAIL_LIMIT then
    manualRollback p
    return false
  return true

/-- `init` where another version runs than the pending one. -/
def settleStrikes (p : Platform) (pending : Text) : Prog Unit := do
  let b ← get
  let version := b.running.image.version.val
  let rolledBack := b.ram.rolledBack || b.ram.counterRolledBack
  if shouldRecordBadVersion pending version rolledBack then
    recordStrike pending b.ram.plannedRestart
  if p = .esp8266 && shouldRejectManifestVersion pending version rolledBack b.ram.plannedRestart then
    recordStrike pending false
  clearOtaPending
  clearOtaBootFails

/-- The flags that `init` takes from the boot data and the two markers. -/
def readMarkers (p : Platform) : Prog Unit := do
  let b ← get
  let ram : Ram :=
    { b.ram with
      rolledBack := b.lastInvalid p
      pendingVerify := b.isPendingVerify p
      confirmPending := b.isPendingVerify p
      plannedRestart := b.store.planrst
      counterRolledBack := b.store.rbk }
  tell (.setRam ram)
  if ram.plannedRestart then setOtaPlannedRestart false
  if ram.counterRolledBack then setOtaRolledBack false

/-- Whether it returns. -/
def init (p : Platform) : Prog Bool := do
  readMarkers p
  let b ← get
  let pending := b.store.getPending
  if pending = [] then return true
  if pending = b.running.image.version.val then awaitConfirmation p
  else
    settleStrikes p pending
    return true

def boot (p : Platform) : Prog Unit := do
  tell .bootloader
  let returns ← init p
  if returns then tell .started

/-! ## The manifest -/

structure Manifest where
  firmwareVersion : Text
  channel : Text
  url : Text
  sha256 : Text
  deriving DecidableEq, Repr

/-- The decision on a manifest that parses: whether to update. -/
def evaluateManifest (build : Build) (manifest : Manifest) (inRollout : Bool) : Prog Bool := do
  let b ← get
  let badver := b.store.getBadVer
  let badn := if badver ≠ [] then b.store.getBadN else 0
  let resets := strikesReset manifest.firmwareVersion badver
  if resets then setOtaStrikes [] 0
  let badver := if resets then [] else badver
  let badn := if resets then 0 else badn
  let skip := skipBadVersion manifest.firmwareVersion badver badn b.ram.firstCheckAfterRollback
  let after ← get
  tell (.setRam { after.ram with firstCheckAfterRollback := false })
  return decideOtaUpdate manifest.channel build.channel manifest.firmwareVersion
    b.running.image.version.val (if skip then badver else []) manifest.url manifest.sha256
    inRollout = .update

/-- `downloadAndApply` from a verified download on. -/
def applyImage (p : Platform) (image : Image) (newVersion : Text) : Prog Unit := do
  let ended ← put (if p = .esp8266 then .stage image else .install image)
  if ended then
    setOtaPending newVersion
    espRestart

/-- A check: what was fetched and parsed, if anything, and the version of the image if the
download succeeds. -/
def checkNow (p : Platform) (build : Build) (fetched : Option Manifest) (inRollout : Bool)
    (downloaded : Option Version) : Prog Unit := do
  let b ← get
  if b.ram.pendingVerify then return
  match fetched with
  | none => return
  | some manifest =>
      let updates ← evaluateManifest build manifest inRollout
      if updates then
        tell .fetch
        match downloaded with
        | none => return
        | some version => applyImage p ⟨version, some manifest.firmwareVersion⟩ manifest.firmwareVersion

/-! ## Confirmation -/

def confirmGood : Prog Unit := do
  let b ← get
  if b.store.getPending ≠ [] then
    clearOtaPending
    clearOtaBootFails

/-- `marked`: whether the boot data takes the mark. -/
def tryMarkValid (heartbeatSeen : Bool) (uptimeMs : UInt32) (marked : Bool) : Prog Unit := do
  let b ← get
  if !decideMarkValid b.ram.confirmPending heartbeatSeen uptimeMs kMarkValidSettleMs then return
  if b.ram.pendingVerify && !marked then return
  if b.ram.pendingVerify then
    tell .markValid
    tell (.setRam { b.ram with pendingVerify := false })
  confirmGood
  let b ← get
  tell (.setRam { b.ram with confirmPending := false })

/-- The rollback at the deadline, of `loopGuard`. -/
def loopGuard (p : Platform) (build : Build) (heartbeatSeen : Bool) (verifyMs : UInt32) : Prog Unit := do
  let b ← get
  if b.ram.rollbackFailed then return
  if decideRollbackGuard b.ram.pendingVerify heartbeatSeen verifyMs build.verifyDeadlineMs ≠ .rollback then
    return
  if b.canRollBack p then
    tell .markInvalid
    tell (.reset false)
  else tell (.setRam { b.ram with rollbackFailed := true })

def notePlannedRestart : Prog Unit := do
  let b ← get
  if b.ram.confirmPending then setOtaPlannedRestart true

def restartToApply : Prog Unit := do
  notePlannedRestart
  tell (.reset true)

/-! ## Runs -/

inductive Event where
  | boot
  | check (fetched : Option Manifest) (inRollout : Bool) (downloaded : Option Version)
  | tryMarkValid (heartbeatSeen : Bool) (uptimeMs : UInt32) (marked : Bool)
  | loopGuard (heartbeatSeen : Bool) (verifyMs : UInt32)
  | restartToApply
  | crash
  | powerLoss
  deriving DecidableEq

/-- Everything but a boot happens to a board that runs. -/
def whileRunning (program : Prog Unit) : Prog Unit := do
  let b ← get
  if b.position = .running then program

def Event.serve (p : Platform) (build : Build) : Event → Prog Unit
  | .boot => do
      let b ← get
      if b.position = .off then Strikes.boot p
  | .check fetched inRollout downloaded => whileRunning (checkNow p build fetched inRollout downloaded)
  | .tryMarkValid heartbeatSeen uptimeMs marked =>
      whileRunning (Strikes.tryMarkValid heartbeatSeen uptimeMs marked)
  | .loopGuard heartbeatSeen verifyMs => whileRunning (Strikes.loopGuard p build heartbeatSeen verifyMs)
  | .restartToApply => whileRunning Strikes.restartToApply
  | .crash => whileRunning (tell (.reset false))
  | .powerLoss => whileRunning (tell .powerLoss)

def runAll (p : Platform) (build : Build) (b : Board) (events : List (Event × List Fate)) : Board :=
  serveAll (Action.apply p) (Event.serve p build) Board.cutOff b events

def stepsAll (p : Platform) (build : Build) (b : Board) (events : List (Event × List Fate)) :
    List (Step Board Action) :=
  stepsOf (Action.apply p) (Event.serve p build) Board.cutOff b events

end FryFirmware.Strikes
