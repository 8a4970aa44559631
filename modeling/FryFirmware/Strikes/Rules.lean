import FryFirmware.Ota.Schedule
import FryFirmware.Ota.Semver
import Mathlib.Data.List.Basic
import Mathlib.Tactic.Common

/-!
# Rules of the strikes

`lib/fry_core/ota_health.cpp`, `ota_version_guard.h` and `ota_boot_counter.cpp`: when a
version gets a strike, when a manifest check skips it, and when an image is kept or
given up. The counters are saturating bytes.
-/

set_option autoImplicit false

namespace FryFirmware.Strikes

open Config (Text text)
open Ota (isNewerVersionOta kMarkValidSettleMs)

def kOtaPermanentStrikes : Nat := 3
def OTA_BOOT_FAIL_LIMIT : Nat := 3
def kOtaVerifyDeadlineProdMs : UInt32 := 1200000
def kOtaVerifyDeadlineTestMs : UInt32 := 120000

/-! ## The boot counter -/

def incrementByte (count : Nat) : Nat := if count < 255 then count + 1 else count

def shouldRollBack (count limit : Nat) : Bool := count ≥ limit

/-! ## The running image -/

inductive GuardAction where
  | none
  | rollback
  deriving DecidableEq, Repr

def decideRollbackGuard (pendingVerify heartbeatSeen : Bool) (uptimeMs deadlineMs : UInt32) :
    GuardAction :=
  if !pendingVerify || heartbeatSeen then .none
  else if uptimeMs ≥ deadlineMs then .rollback
  else .none

def decideMarkValid (pending heartbeatSeen : Bool) (uptimeMs settleMs : UInt32) : Bool :=
  pending && heartbeatSeen && uptimeMs ≥ settleMs

/-! ## Strikes -/

def shouldRecordBadVersion (pending running : Text) (lastInvalidPartition : Bool) : Bool :=
  if pending = [] || !lastInvalidPartition then false else pending ≠ running

def shouldRejectManifestVersion (pending running : Text) (rolledBack plannedRestart : Bool) : Bool :=
  if pending = [] then false
  else if running = [] then false
  else if rolledBack || plannedRestart then false
  else pending ≠ running

/-- The new count, and whether it is to be stored. -/
def nextStrikeCount (badver : Text) (badn : Nat) (rolledBackFrom : Text) (plannedRestart : Bool) :
    Nat × Bool :=
  if rolledBackFrom = [] || plannedRestart then (badn, false)
  else if badver ≠ [] && badver = rolledBackFrom then (incrementByte badn, true)
  else (1, true)

def isSkippedBadVersion (candidate badver : Text) : Bool :=
  if candidate = [] || badver = [] then false else candidate = badver

def skipBadVersion (latest badver : Text) (badn : Nat) (firstCheckAfterRollback : Bool) : Bool :=
  if !isSkippedBadVersion latest badver then false
  else badn ≥ kOtaPermanentStrikes || firstCheckAfterRollback

def strikesReset (latest badver : Text) : Bool :=
  if latest = [] || badver = [] then false else latest ≠ badver

/-! ## The manifest -/

inductive OtaDecision where
  | update
  | notNewer
  | wrongChannel
  | badVersion
  | noBuild
  | notInRollout
  deriving DecidableEq, Repr

def otaChannelAccepted (manifestChannel ownChannel : Text) : Bool :=
  (if manifestChannel = [] then text "prod" else manifestChannel) =
    if ownChannel = [] then text "prod" else ownChannel

def decideOtaUpdate (manifestChannel ownChannel latest current badver url sha256 : Text)
    (inRollout : Bool) : OtaDecision :=
  if !otaChannelAccepted manifestChannel ownChannel then .wrongChannel
  else if latest = [] || !isNewerVersionOta latest current then .notNewer
  else if isSkippedBadVersion latest badver then .badVersion
  else if !inRollout then .notInRollout
  else if url = [] || sha256 = [] then .noBuild
  else .update

/-- An update is newer than what runs, and not a version that is skipped. -/
theorem decideOtaUpdate_update {manifestChannel ownChannel latest current badver url sha256 : Text}
    {inRollout : Bool}
    (updates : decideOtaUpdate manifestChannel ownChannel latest current badver url sha256
      inRollout = .update) :
    latest ≠ [] ∧ isNewerVersionOta latest current = true ∧
      isSkippedBadVersion latest badver = false := by
  unfold decideOtaUpdate at updates
  split at updates
  · cases updates
  · split at updates
    · cases updates
    · next newer =>
      split at updates
      · cases updates
      · next skipped =>
        simp only [Bool.or_eq_true, decide_eq_true_eq, Bool.not_eq_true', not_or,
          Bool.not_eq_false] at newer
        exact ⟨newer.1, newer.2, by simpa using skipped⟩

/-- It is another version than the one that runs. -/
theorem newer_ne {latest current : Text} (newer : isNewerVersionOta latest current = true) :
    latest ≠ current := by
  rintro rfl
  rw [Ota.isNewerVersionOta_self] at newer
  cases newer

end FryFirmware.Strikes
