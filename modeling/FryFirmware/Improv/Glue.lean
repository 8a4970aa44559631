import FryFirmware.Boot.Loop
import FryFirmware.Identity.ServerDetail
import FryFirmware.Improv.Answers
import FryFirmware.Improv.ScanList
import FryFirmware.Improv.Streams
import FryFirmware.Lib.Clock
import FryFirmware.Lib.OrderedTrace

/-!
# The Improv bridge

`src/core/improv_serial_glue.cpp` between the UART, the Wi-Fi driver and the
provisioning transport, with the rules of `lib/fry_core/improv_scan.cpp`. What it calls
answers anything; time passes before each reading of `millis`.
-/

set_option autoImplicit false

namespace FryFirmware.Improv

open Lib Config
open Boot (Chip)
open Identity (KeyWriteVerdict)
open Provisioning (ProvState ProvErr cString)

/-! ## `improv_scan.h` -/

inductive ScanAdmit where
  | run
  | refuse
  deriving DecidableEq, Repr

def kRunningScanMinIntervalMs : UInt32 := 30000

def kRunningScanMinBlockEsp8266 : UInt32 := 16384

def admitScan (transportRunning staConnected haveLast : Bool)
    (nowMs lastScanMs maxFreeBlock minBlock : UInt32) : ScanAdmit :=
  if transportRunning then .run
  else if !staConnected then .refuse
  else if haveLast && nowMs - lastScanMs < kRunningScanMinIntervalMs then .refuse
  else if maxFreeBlock ≥ minBlock then .run
  else .refuse

/-- `WIFI_SCAN_RUNNING` and `WIFI_SCAN_FAILED`. -/
def kScanRunning : Int := -1
def kScanFailed : Int := -2

inductive ScanStart where
  | started
  | failed
  deriving DecidableEq, Repr

def classifyScanStart (rc : Int) : ScanStart := if rc = kScanFailed then .failed else .started

inductive ScanPoll where
  | wait
  | failed
  | done
  deriving DecidableEq, Repr

def classifyScanPoll (n : Int) (runningBoard : Bool) : ScanPoll :=
  if n = kScanRunning then .wait
  else if n = kScanFailed then .failed
  else if n = 0 ∧ runningBoard then .failed
  else .done

def formatRssi (rssi : Int) : Text := snprintf 8 rssi

def authCell (secure : Bool) : Text := if secure then text "YES" else text "NO"

/-! ## Commands and answers -/

def wifiSettingsCommand : UInt8 := 0x01
def requestState : UInt8 := 0x02
def requestDeviceInfo : UInt8 := 0x03
def requestScannedWifi : UInt8 := 0x04

/-- The build flags that reach a client, and the chip. -/
structure Build where
  chip : Chip
  firmwareVersion : Text
  chipName : Text
  deviceUrlBase : Text
  deriving DecidableEq, Repr

def Build.kScanMinBlock (build : Build) : UInt32 :=
  match build.chip with
  | .esp8266 => kRunningScanMinBlockEsp8266
  | .esp32 => 0

/-- What `sendState`, `sendError` and `sendResult` send. -/
inductive Reply where
  | state (state : State)
  | error (error : Error)
  | result (command : UInt8) (strings : List Text)
  deriving DecidableEq, Repr

def Reply.encode (out : Option (Memory UInt8 kMaxPacket)) :
    Reply → Option (Nat × Option (Memory UInt8 kMaxPacket))
  | .state now => encodeCurrentState now out
  | .error problem => encodeError problem out
  | .result command strings => encodeRpcResult command (strings.map some) out

/-- `maskMinerKey` of `lib/fry_core/key_policy.cpp`. -/
def maskMinerKey (key : Text) (outCap : Nat) : Text :=
  if key.length < 6 ∨ outCap < 10 then [] else key.take 6 ++ Identity.ellipsis

/-- The credentials that a 0x01 carries, as C strings. -/
def credentials? (data : List UInt8) : Option (Text × Text) :=
  match decodeWifiSettings (some data) (some (Memory.filled 33 0)) (some (Memory.filled 65 0)) with
  | some (true, some ssid, some pass) => some (cString ssid.cells, cString pass.cells)
  | _ => none

/-- The key that a 0xF0 carries. -/
def ownerKey? (data : List UInt8) : Option Text :=
  match decodeKeyWrite (some data) (some (Memory.filled 40 0)) with
  | some (true, some key) => some (cString key.cells)
  | _ => none

/-! ## The bridge -/

/-- `WiFiMode_t`. -/
structure WifiMode where
  sta : Bool := false
  ap : Bool := false
  deriving DecidableEq, Repr

/-- The statics, the mode of the radio and the time. -/
structure Glue where
  parser : Parser
  deviceName : Text
  awaitingWifi : Bool := false
  keyChanged : Bool := false
  lastRpcMs : UInt32 := 0
  scanRunning : Bool := false
  scanPrevMode : WifiMode := {}
  lastRunningScanMs : UInt32 := 0
  haveLastRunningScan : Bool := false
  scanOnRunningBoard : Bool := false
  mode : WifiMode := {}
  time : Nat := 0

/-- What `dispatch` meets: the answers of what it calls, and how long each reading of
`millis` takes. -/
structure Around where
  transportRunning : Bool
  connected : Bool
  maxFreeBlock : UInt32
  scanNetworks : Int
  commitWifiOnlyCredentials : Text → Text → Bool
  setOwnerKey : Text → KeyWriteVerdict × Bool
  snapshot : DeviceStatus
  toRpc : Nat
  toAdmit : Nat
  toStarted : Nat

/-- What one request did: its answers, and when it started a scan. -/
structure Outcome where
  glue : Glue
  replies : List Reply
  started : Option Nat := none

namespace Glue

variable (build : Build)

def init (payload : Memory UInt8 kMaxPayload) (deviceName : Text) : Glue where
  parser := Parser.start payload
  deviceName := (cString deviceName).take 31

def passes (g : Glue) (time : Nat) : Glue := { g with time := g.time + time }

def millis (g : Glue) : UInt32 := counter g.time

/-- The last request is now. -/
def heard (g : Glue) : Glue := { g with lastRpcMs := g.millis }

def currentState (g : Glue) (connected : Bool) : State :=
  if connected then .provisioned else if g.awaitingWifi then .provisioning else .ready

def deviceInfo (g : Glue) : Reply :=
  .result requestDeviceInfo
    [text "Fry Firmware", build.firmwareVersion, build.chipName, g.deviceName]

def handleWifiSettings (g : Glue) (data : List UInt8) (around : Around) : Outcome :=
  match credentials? data with
  | none => { glue := g, replies := [.error .invalidRpc] }
  | some (ssid, pass) =>
      if around.commitWifiOnlyCredentials ssid pass then
        { glue := { g with awaitingWifi := !around.connected }, replies := [.state .provisioning] }
      else { glue := g, replies := [.error .invalidRpc] }

def handleSetMinerKey (g : Glue) (data : List UInt8) (around : Around) : Outcome :=
  match ownerKey? data with
  | none => { glue := g, replies := [.error .invalidRpc] }
  | some key =>
      let (verdict, changed) := around.setOwnerKey key
      { glue := { g with keyChanged := g.keyChanged || (verdict = .accept && changed) }
        replies := [.result frySetMinerKey (keyWriteStrings verdict (some (maskMinerKey key 12)))] }

def restoreScanMode (g : Glue) : Glue :=
  if !g.awaitingWifi && g.mode ≠ g.scanPrevMode then { g with mode := g.scanPrevMode } else g

/-- Whether the scan started is the flag of the state afterwards. -/
def handleScanRequest (g : Glue) (around : Around) : Outcome × Bool :=
  if g.scanRunning then ({ glue := g, replies := [] }, false)
  else
    match build.chip with
    | .esp8266 =>
        if g.awaitingWifi then ({ glue := g, replies := [.result requestScannedWifi []] }, false)
        else
          let g := { g with scanPrevMode := g.mode, mode := { g.mode with sta := true } }
          if classifyScanStart around.scanNetworks = .failed then
            ({ glue := g.restoreScanMode, replies := [.error .unknown] }, false)
          else ({ glue := { g with scanRunning := true }, replies := [] }, true)
    | .esp32 =>
        let g := { g with mode := { sta := true } }
        if classifyScanStart around.scanNetworks = .failed then
          ({ glue := g, replies := [.error .unknown] }, false)
        else ({ glue := { g with scanRunning := true }, replies := [] }, true)

/-- The case of a scan request in `dispatch`. -/
def requestScan (g : Glue) (around : Around) : Outcome :=
  let g := g.passes around.toAdmit
  if admitScan around.transportRunning around.connected g.haveLastRunningScan g.millis
      g.lastRunningScanMs around.maxFreeBlock build.kScanMinBlock = .refuse then
    { glue := g, replies := [.error .notAuthorized] }
  else
    let (outcome, started) := g.handleScanRequest build around
    if started then
      let g := { outcome.glue with scanOnRunningBoard := !around.transportRunning }
      let g := g.passes around.toStarted
      { glue :=
          if around.transportRunning then g
          else { g with lastRunningScanMs := g.millis, haveLastRunningScan := true }
        replies := outcome.replies
        started := some g.time }
    else outcome

def dispatch (g : Glue) (command : UInt8) (data : List UInt8) (around : Around) : Outcome :=
  if command = wifiSettingsCommand then g.handleWifiSettings data around
  else if command = requestState then { glue := g, replies := [.state (g.currentState around.connected)] }
  else if command = requestDeviceInfo then { glue := g, replies := [g.deviceInfo build] }
  else if command = requestScannedWifi then g.requestScan build around
  else if command = frySetMinerKey then g.handleSetMinerKey data around
  else if command = fryGetStatus then
    { glue := g, replies := [.result fryGetStatus (statusStrings around.snapshot)] }
  else { glue := g, replies := [.error .unknownCommand] }

end Glue

/-! ## What happens -/

/-- What `pollScan` reads of the driver; the heap has room for a list or not. -/
structure Scanned where
  complete : Int
  network : Nat → Sighting
  room : Bool

/-- What `pollWifiOutcome` reads. -/
structure Joining where
  connected : Bool
  state : ProvState
  lastError : ProvErr
  minerKey : Text
  short : minerKey.length < 40

/-- A turn of the loop of `poll`, the two calls at its end, `consumeKeyChanged`, and the
rest of the firmware at the radio. -/
inductive Input where
  | byte (b : UInt8) (around : Around)
  | pollScan (scanned : Scanned)
  | pollWifiOutcome (joining : Joining)
  | consumeKeyChanged (after : Nat)
  | setMode (mode : WifiMode)

/-- What the step sent, and on which occasion. -/
inductive Exchange where
  | served (time : Nat) (command : UInt8) (data : List UInt8) (around : Around)
      (replies : List Reply) (started : Option Nat)
  | rejected
  | scanned (replies : List Reply)
  | joined (connected : Bool) (replies : List Reply)
  | keyRestart (time : Nat)

def Exchange.replies : Exchange → List Reply
  | .served _ _ _ _ replies _ => replies
  | .rejected => [.error .invalidRpc]
  | .scanned replies => replies
  | .joined _ replies => replies
  | .keyRestart _ => []

def scanRow (row : ScanRow) : Reply :=
  .result requestScannedWifi [row.ssid, formatRssi row.rssi, authCell row.secure]

/-- A row of the ESP32: the name is copied into 33 bytes. -/
def sightingRow (sighting : Sighting) : Reply :=
  .result requestScannedWifi
    [(cString (sighting.ssid.getD [])).take 32, formatRssi sighting.rssi, authCell sighting.secure]

namespace Glue

variable (build : Build)

def kKeyRestartIdleMs : UInt32 := 3000

/-- A whole request has arrived. -/
def serve (g : Glue) (around : Around) : Glue × List Exchange :=
  let g := g.passes around.toRpc
  let command := g.parser.command
  let data := g.parser.dataBytes
  let served := g.heard.dispatch build command data around
  (served.glue, [.served g.time command data around served.replies served.started])

/-- One byte of `poll`. -/
def receive (g : Glue) (b : UInt8) (around : Around) : Glue × List Exchange :=
  let (parser, result) := g.parser.feed b
  match result with
  | .rpc => { g with parser }.serve build around
  | .badChecksum | .malformed => ({ g with parser }, [.rejected])
  | .none => ({ g with parser }, [])

/-- The scan is over: its rows are freed and, on an ESP8266, the mode is put back. -/
def endScan (g : Glue) : Glue :=
  match build.chip with
  | .esp8266 => { g with scanRunning := false }.restoreScanMode
  | .esp32 => { g with scanRunning := false }

def scanRows (scanned : Scanned) : List Reply :=
  let sightings := (List.range scanned.complete.toNat).map scanned.network
  match build.chip with
  | .esp8266 => (ScanList.run sightings).kept.map scanRow
  | .esp32 => sightings.map sightingRow

def pollScan (g : Glue) (scanned : Scanned) : Glue × List Exchange :=
  if !g.scanRunning then (g, [])
  else
    match classifyScanPoll scanned.complete g.scanOnRunningBoard with
    | .wait => (g, [])
    | .failed => (g.endScan build, [.scanned [.error .unknown]])
    | .done =>
        if build.chip = .esp8266 ∧ !scanned.room then
          (g.endScan build, [.scanned [.error .unknown]])
        else
          (g.endScan build,
            [.scanned (scanRows build scanned ++ [.result requestScannedWifi []])])

/-- The URL of a board that joined, cut to 127 bytes. -/
def deviceUrl (minerKey : Text) : Text :=
  (if minerKey = [] then build.deviceUrlBase
    else build.deviceUrlBase ++ text "#key=" ++ minerKey).take 127

def pollWifiOutcome (g : Glue) (joining : Joining) : Glue × List Exchange :=
  if !g.awaitingWifi then (g, [])
  else if joining.connected then
    ({ g with awaitingWifi := false },
      [.joined true [.state .provisioned,
        .result wifiSettingsCommand [deviceUrl build (cString joining.minerKey)]]])
  else if joining.state = .error ∧ (joining.lastError = .wifiAuth ∨ joining.lastError = .noIp ∨
      joining.lastError = .badSsid) then
    ({ g with awaitingWifi := false },
      [.joined false [.error .unableToConnect, .state .ready]])
  else (g, [])

/-- A key restart is due once the client was silent for three seconds. -/
def consumeKeyChanged (g : Glue) (after : Nat) : Glue × List Exchange :=
  let g := g.passes after
  if !g.keyChanged || g.millis - g.lastRpcMs < kKeyRestartIdleMs then (g, [])
  else ({ g with keyChanged := false }, [.keyRestart g.time])

def step (g : Glue) : Input → Glue × List Exchange
  | .byte b around => g.receive build b around
  | .pollScan scanned => g.pollScan build scanned
  | .pollWifiOutcome joining => g.pollWifiOutcome build joining
  | .consumeKeyChanged after => g.consumeKeyChanged after
  | .setMode mode => ({ g with mode }, [])

/-- The bytes of one `poll`, at most 256, then the two calls at its end. -/
def poll (g : Glue) (bytes : List (UInt8 × Around)) (scanned : Scanned) (joining : Joining) :
    Glue × List Exchange :=
  OrderedTrace.run (step build) g
    ((bytes.take 256).map (fun read => .byte read.1 read.2) ++
      [.pollScan scanned, .pollWifiOutcome joining])

end Glue

end FryFirmware.Improv
