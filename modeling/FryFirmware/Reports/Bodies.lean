import FryFirmware.Improv.Answers
import FryFirmware.Lib.JsonText
import FryFirmware.Lib.Memory
import Mathlib.Tactic.Common

/-!
# JSON bodies in fixed buffers

`buildTelemetryBody` of `lib/fry_core/telemetry_body.cpp`, `buildStatusJson` of
`device_status.cpp`, and `setDevStatusValue` of `src/esp32/ble_provisioning.cpp`,
which splices one more field into the status. Every write to a buffer is checked
against its end.
-/

set_option autoImplicit false

namespace FryFirmware.Reports

open FryFirmware.Config (Text text)
open FryFirmware.Improv (CString DeviceStatus stateCode statusLegacyErr statusDetailErr)
open FryFirmware.Lib
open Lib.Json (numberText)

def isJsonSafeToken : CString → Bool
  | none => false
  | some s => s.all fun c => !(c = 34 || c = 92) && !(c < 0x20)

/-- `snprintf` of a text into `size` bytes: what fits in front of the NUL, and the length
of the whole text, or -1 where an `int` does not hold it. -/
def snprintf {capacity : Nat} (out : Memory UInt8 capacity) (size : Nat) (whole : Text) :
    Option (Memory UInt8 capacity × Int) :=
  let n : Int := if whole.length < 2 ^ 31 then whole.length else -1
  if size = 0 then some (out, n)
  else (out.store? 0 (whole.take (size - 1) ++ [0])).map fun out => (out, n)

/-! ## Telemetry -/

structure TelemetrySample where
  uptimeS : UInt32
  heapFree : UInt32
  heapMaxBlock : UInt32
  stackHighWater : UInt32
  rssi : Int32
  chip : CString
  firmware : CString

/-- `%s` -/
def shown (s : CString) : Text := s.getD []

/-- `%lu` -/
def decimal (number : UInt32) : Text := numberText number.toNat

def telemetryText (sample : TelemetrySample) (minerCode installId isoTimestamp : CString) : Text :=
  text "\x7b\"miner_code\":\"" ++ shown minerCode ++ text "\",\"install_id\":\"" ++ shown installId ++
    text "\",\"measurement_type\":\"telemetry\",\"timestamp\":\"" ++ shown isoTimestamp ++
    text "\",\"value\":\x7b\"uptime_s\":" ++ decimal sample.uptimeS ++
    text ",\"heap_free\":" ++ decimal sample.heapFree ++
    text ",\"heap_max_block\":" ++ decimal sample.heapMaxBlock ++
    text ",\"stack_high_water\":" ++ decimal sample.stackHighWater ++
    text ",\"rssi\":" ++ numberText sample.rssi.toInt ++
    text ",\"chip\":\"" ++ shown sample.chip ++
    text "\",\"firmware\":\"" ++ shown sample.firmware ++ text "\"\x7d\x7d"

def buildTelemetryBody {capacity : Nat} (sample : TelemetrySample)
    (minerCode installId isoTimestamp : CString) (out : Option (Memory UInt8 capacity)) (outLen : Nat) :
    Option (Nat × Option (Memory UInt8 capacity)) :=
  match out with
  | none => some (0, none)
  | some out =>
      if outLen = 0 then some (0, some out)
      else
        (out.store? 0 [0]).bind fun out =>
          if !isJsonSafeToken minerCode || !isJsonSafeToken installId ||
              !isJsonSafeToken isoTimestamp || !isJsonSafeToken sample.chip ||
              !isJsonSafeToken sample.firmware then some (0, some out)
          else
            (snprintf out outLen (telemetryText sample minerCode installId isoTimestamp)).bind
              fun (out, n) =>
                if n < 0 ∨ n.toNat ≥ outLen then (out.store? 0 [0]).map fun out => (0, some out)
                else some (n.toNat, some out)

/-! ## Status -/

/-- `DeviceStatus`, with the field that only this body shows. -/
structure StatusSnapshot extends DeviceStatus where
  keyConfirmed : Bool := false

def kStatusJsonMax : Nat := 160

def flag (set : Bool) : Nat := if set then 1 else 0

def statusText (s : StatusSnapshot) : Text :=
  text "\x7b\"v\":1,\"proto\":2,\"caps\":[\"key_write\",\"error_reset\",\"errs_v2\"],\"s\":" ++
    numberText (stateCode s.state) ++ text ",\"e\":" ++ numberText (statusLegacyErr s.toDeviceStatus) ++
    text ",\"d\":" ++ numberText (statusDetailErr s.toDeviceStatus) ++
    text ",\"k\":" ++ numberText (flag s.keySet) ++ text ",\"kc\":" ++ numberText (flag s.keyConfirmed) ++
    text ",\"reg\":" ++ numberText s.regHttp.toInt ++ text ",\"hb\":" ++ numberText s.hbAgeS.toInt ++
    text ",\"fw\":\"" ++ shown s.fw ++ text "\",\"ota\":\"" ++ shown s.ota ++ text "\"\x7d"

def buildStatusJson {capacity : Nat} (s : StatusSnapshot) (out : Option (Memory UInt8 capacity))
    (outCap : Nat) : Option (Nat × Option (Memory UInt8 capacity)) :=
  match out with
  | none => some (0, none)
  | some out =>
      if outCap = 0 then some (0, some out)
      else
        (out.store? 0 [0]).bind fun out =>
          if !isJsonSafeToken s.fw || !isJsonSafeToken s.ota then some (0, some out)
          else
            (snprintf (Memory.filled (kStatusJsonMax + 1) 0) (kStatusJsonMax + 1) (statusText s)).bind
              fun (buf, n) =>
                if n ≤ 0 ∨ n.toNat > kStatusJsonMax ∨ n.toNat ≥ outCap then some (0, some out)
                else (out.store? 0 (buf.window 0 (n.toNat + 1))).map fun out => (n.toNat, some out)

/-! ## The published value -/

/-- `kEnc`, with its NUL. -/
def kEnc : Text := text ",\"enc\":0\x7d" ++ [0]

/-- The link state that is published: the argument, or the connected central's where that
is negative. -/
def encShown (enc : Int) (linkEncrypted : Bool) : Int :=
  if enc < 0 then (if linkEncrypted then 1 else 0) else enc

/-- The bytes handed to `setValue`. The buffer `json` holds anything at first. -/
def setDevStatusValue (status : StatusSnapshot) (json : Memory UInt8 (kStatusJsonMax + 16)) (enc : Int)
    (linkEncrypted : Bool) : Option Text :=
  let enc := encShown enc linkEncrypted
  (buildStatusJson status (some json) (kStatusJsonMax + 1)).bind fun (n, json) =>
    json.bind fun json =>
      if n ≥ 2 ∧ json.cells.getD (n - 1) 0 = 125 ∧ n - 1 + kEnc.length ≤ kStatusJsonMax + 16 then
        (json.store? (n - 1) kEnc).bind fun json =>
          (json.store? (n - 1 + 7) [if enc ≠ 0 then 49 else 48]).map fun json =>
            json.window 0 (n + (kEnc.length - 2))
      else some (json.window 0 n)

end FryFirmware.Reports
