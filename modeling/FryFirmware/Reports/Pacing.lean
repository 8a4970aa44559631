import FryFirmware.Boot.Loop
import FryFirmware.Lib.Clock
import FryFirmware.Lib.OrderedTrace
import Mathlib.Data.List.DropRight

/-!
# When the board reports

The schedule in `tick` of `src/core/hardwareapi_client.cpp`, with `registerAtBoot`, what
`registerInstallation` leaves of it, `nextRegisterDelayMs` of `reg_result.cpp`, and the
interval of `telemetry.cpp`. Every timer of it is a reading of the 32-bit counter, and
two of them take the reading zero for "not yet".
-/

set_option autoImplicit false

namespace FryFirmware.Reports

open Lib Lib.OrderedTrace
open Boot (Chip)
open Identity (RegClass)

def POC_INTERVAL_MS : UInt32 := 600000

def INSTALL_HEARTBEAT_MS : UInt32 := 3600000

def TELEMETRY_INTERVAL_MS : UInt32 := 600000

def kFirstBackoffMs : UInt32 := 60000

def kMaxBackoffMs : UInt32 := 3600000

def nextRegisterDelayMs (c : RegClass) (consecutiveFailures : UInt32) : UInt32 :=
  if c ≠ .unreachable then kMaxBackoffMs
  else
    let n := if consecutiveFailures = 0 then 1 else consecutiveFailures
    if n > 7 then kMaxBackoffMs
    else
      let d := kFirstBackoffMs <<< (n - 1)
      if d > kMaxBackoffMs then kMaxBackoffMs else d

structure Schedule where
  lastRegisterAttemptMs : UInt32 := 0
  nextRegisterDelayMs : UInt32 := INSTALL_HEARTBEAT_MS
  regFailures : UInt32 := 0
  lastPocMs : UInt32 := 0
  telemetryLastMs : UInt32 := 0
  deriving DecidableEq, Repr

/-- How `registerInstallation` ends: put off by the boot TLS gate, without memory or a key, with
the class of the last answer, or registered (by an answer or by the heal). -/
inductive Registered where
  | deferred (gateMs : UInt32)
  | skipped
  | failed (cls : RegClass)
  | registered
  deriving DecidableEq, Repr

def registerInstallation (s : Schedule) : Registered → Schedule
  | .deferred gateMs => { s with nextRegisterDelayMs := gateMs + 250 }
  | .skipped => s
  | .failed cls =>
      let regFailures := if s.regFailures < 0xFFFFFFFF then s.regFailures + 1 else s.regFailures
      { s with regFailures, nextRegisterDelayMs := Reports.nextRegisterDelayMs cls regFailures }
  | .registered => { s with regFailures := 0, nextRegisterDelayMs := INSTALL_HEARTBEAT_MS }

/-- What one pass of the loop finds: the time, whether there is a connection, how a registration
would end, and what the telemetry finds behind it. -/
structure Pass where
  time : Nat
  connected : Bool
  registering : Registered
  stillConnected : Bool
  telemetryGateMs : UInt32
  telemetryTime : Nat
  pocGateMs : UInt32
  deriving DecidableEq, Repr

/-- What a pass did, and when. -/
inductive Done where
  | registration (time : Nat) (how : Registered)
  | sample (time : Nat)
  | report (time : Nat)
  deriving DecidableEq, Repr

/-- `fry_telemetry::tick`, up to the sample. -/
def telemetryTick (chip : Chip) (s : Schedule) (p : Pass) : Schedule × List Done :=
  if !p.stillConnected then (s, [])
  else if chip = .esp8266 ∧ p.telemetryGateMs ≠ 0 then (s, [])
  else
    let now := counter p.telemetryTime
    if s.telemetryLastMs ≠ 0 ∧ now - s.telemetryLastMs < TELEMETRY_INTERVAL_MS then (s, [])
    else ({ s with telemetryLastMs := now }, [.sample p.telemetryTime])

/-- The part of `tick` up to the telemetry. -/
def registerWhenDue (s : Schedule) (p : Pass) : Schedule × List Done :=
  let now := counter p.time
  let dueForAttempt :=
    s.lastRegisterAttemptMs = 0 ∨ now - s.lastRegisterAttemptMs ≥ s.nextRegisterDelayMs
  if dueForAttempt then
    (registerInstallation { s with lastRegisterAttemptMs := now } p.registering,
      [.registration p.time p.registering])
  else (s, [])

/-- The part of `tick` behind the telemetry. -/
def reportWhenDue (chip : Chip) (s : Schedule) (p : Pass) : Schedule × List Done :=
  let now := counter p.time
  if now - s.lastPocMs ≥ POC_INTERVAL_MS then
    if chip = .esp8266 ∧ p.pocGateMs ≠ 0 then (s, [])
    else ({ s with lastPocMs := now }, [.report p.time])
  else (s, [])

def tick (chip : Chip) (s : Schedule) (p : Pass) : Schedule × List Done :=
  if !p.connected then (s, [])
  else
    let (s, registration) := registerWhenDue s p
    let (s, sample) := telemetryTick chip s p
    let (s, report) := reportWhenDue chip s p
    (s, registration ++ sample ++ report)

/-- `fry_trigger_register_now`; on the ESP8266 it is `registerAtBoot`. -/
def registerNow (chip : Chip) (s : Schedule) (started : Nat) (how : Registered) : Schedule :=
  let s := registerInstallation s how
  if chip = .esp8266 ∧ how = .registered then
    { s with lastRegisterAttemptMs := if counter started ≠ 0 then counter started else 1 }
  else s

/-- The schedule and what was done, after the registration at boot and these passes. -/
def afterPasses (chip : Chip) (started : Nat) (atBoot : Registered) (passes : List Pass) :
    Schedule × List Done :=
  run (tick chip) (registerNow chip {} started atBoot) passes

end FryFirmware.Reports
