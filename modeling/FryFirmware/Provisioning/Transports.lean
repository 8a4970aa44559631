import FryFirmware.Provisioning.Device
import Mathlib.Data.List.Basic
import Mathlib.Tactic.Common

/-!
# The transports

The BLE characteristics of `src/esp32/ble_provisioning.cpp`, `/provision` of
`src/esp8266/wifi_provisioning.cpp`, the Improv commit that both transports have and
the notifications of the boot sequence. A build has one of the two transports; here
both drive one machine. The miner key also changes over USB, and registration
confirms it.
-/

set_option autoImplicit false

namespace FryFirmware.Provisioning

open Lib Config
open Lib.Program (get put tell)
open Identity (Board KeyTransport KeyWriteVerdict Random16 keyAllowsJoin checkOwnerKey)

/-- The bytes in front of the first NUL. -/
def cString (bytes : List UInt8) : Text := bytes.takeWhile (· ≠ 0)

def keyVerdictProvErr : KeyWriteVerdict → ProvErr
  | .accept => .none
  | .badKey => .badKey
  | .locked | .needsSecureAp | .storeFailed => .keyLocked

def rejectKey (verdict : KeyWriteVerdict) : Prog Unit :=
  feed .keyRejected { detail := keyVerdictProvErr verdict }

/-! ## BLE -/

/-- The buffer, as the C string it then holds. -/
def copyAttrValue (value : List UInt8) (bufLen : Nat) : Text := cString (value.take (bufLen - 1))

def dropUntrusted (d : Device) (encrypted : Bool) : Bool :=
  !encrypted && !d.fsm.acceptsUntrustedWrites

/-- The characteristics 01, 02, 03 and 09. -/
inductive Characteristic where
  | ssid
  | pass
  | wallet
  | keyWrite
  deriving DecidableEq, Repr

/-- A written value, on a link that is encrypted or not; the salt is drawn if one is needed. -/
structure Write where
  characteristic : Characteristic
  value : List UInt8
  encrypted : Bool
  freshSalt : Random16
  deriving DecidableEq

def writeKey (board : Board) (value : List UInt8) (encrypted : Bool) : Prog Unit := do
  if !encrypted then return
  let d ← get
  if d.fsm.state = .connecting ∨ d.fsm.state = .connected then return
  let key := copyAttrValue value 40
  let verdict :=
    if value.length = 36 then checkOwnerKey board d.identity.store key .ble else .badKey
  if verdict = .accept then tell (.stageKey key)
  else
    tell (.stageKey [])
    rejectKey verdict

def writeSsid (value : List UInt8) (encrypted : Bool) : Prog Unit := do
  tell (.stageSsid (copyAttrValue value 33))
  feed .ssidWritten { ssidValid := 1 ≤ value.length ∧ value.length ≤ 32, linkTrusted := encrypted }

def writePass (value : List UInt8) : Prog Unit := do
  tell (.stagePass (copyAttrValue value 65))
  feed .passWritten {}

def commitStaged (given : ProvInputs) (wallet : Text) : Prog Unit :=
  commitOnWallet given do
    let d ← get
    setWifi d.pendingSsid d.pendingPass
    setWallet wallet

def writeWallet (board : Board) (value : List UInt8) (freshSalt : Random16) : Prog Unit := do
  let wallet := copyAttrValue value 64
  let given : ProvInputs := { walletValid := value.length = 58 }
  let d ← get
  if d.fsm.state = .provisioning ∧ given.walletValid then
    let stored ← onIdentity (Identity.ensureMinerKey board freshSalt)
    let d ← get
    if !keyAllowsJoin board.model (stored ≠ [] || d.pendingKey ≠ []) then
      feed .keyMissing given
    else if d.pendingKey ≠ [] then
      let verdict ← onIdentity (Identity.setOwnerKey board d.pendingKey .ble)
      tell (.stageKey [])
      if verdict ≠ .accept then rejectKey verdict else commitStaged given wallet
    else commitStaged given wallet
  else commitStaged given wallet

def onWrite (board : Board) (write : Write) : Prog Unit := do
  let d ← get
  match write.characteristic with
  | .keyWrite => writeKey board write.value write.encrypted
  | .ssid => if dropUntrusted d write.encrypted then pure () else writeSsid write.value write.encrypted
  | .pass => if dropUntrusted d write.encrypted then pure () else writePass write.value
  | .wallet =>
      if dropUntrusted d write.encrypted then pure () else writeWallet board write.value write.freshSalt

/-- A read of the miner key characteristic. -/
def onReadKey (board : Board) (freshSalt : Random16) : Prog Unit := do
  let _ ← onIdentity (Identity.ensureMinerKey board freshSalt)

def clearStagedKey : Prog Unit := tell (.stageKey [])

/-- The teardown of the stack: a `Connected` board has stayed idle for the grace period. -/
def tick (idle : Bool) : Prog Unit := do
  let d ← get
  if idle ∧ d.fsm.state = .connected then clearStagedKey

/-! ## SoftAP -/

structure Form where
  ssid : List UInt8
  pass : List UInt8
  wallet : List UInt8
  key : List UInt8
  deriving DecidableEq, Repr

/-- The answer: its code, and the body's `err` and `status`. -/
structure Reply where
  http : Nat
  err : Option String
  status : ProvState
  deriving DecidableEq, Repr

def sendProvisionError (http : Nat) (reason : String) : Prog Reply := do
  let d ← get
  return ⟨http, some reason, d.fsm.state⟩

def refuseKey (verdict : KeyWriteVerdict) : Prog Reply := do
  rejectKey verdict
  match verdict with
  | .badKey => sendProvisionError 400 "bad_key"
  | .needsSecureAp => sendProvisionError 403 "key_needs_secure_ap"
  | _ => sendProvisionError 403 "key_locked"

/-- The commit at the end of `handleProvision`. -/
def commitForm (form : Form) : Prog Reply := do
  commitOnWallet { walletValid := form.wallet.length = 58 } do
    setWifi (cString form.ssid) (cString form.pass)
    setWallet (cString form.wallet)
  return ⟨200, none, .connecting⟩

def handleProvision (board : Board) (form : Form) (apSecure : Bool) (freshSalt : Random16) :
    Prog Reply := do
  let before ← get
  if before.fsm.state = .connecting ∨ before.fsm.state = .connected then
    return ← sendProvisionError 409 "busy"
  if !apSecure && !before.fsm.acceptsUntrustedWrites then
    return ← sendProvisionError 409 "busy"
  let ssidIn : ProvInputs :=
    { ssidValid := 1 ≤ form.ssid.length ∧ form.ssid.length ≤ 32, linkTrusted := apSecure }
  feed .ssidWritten ssidIn
  if !ssidIn.ssidValid then return ← sendProvisionError 400 "bad_ssid"
  let walletIn : ProvInputs := { walletValid := form.wallet.length = 58 }
  if !walletIn.walletValid then
    feed .walletWritten walletIn
    return ← sendProvisionError 400 "bad_wallet"
  let transport : KeyTransport := if apSecure then .softApSecure else .softApOpen
  if form.key.length > 0 then
    let verdict ← onIdentity (Identity.setOwnerKey board (cString form.key) transport)
    if verdict ≠ .accept then return ← refuseKey verdict
    commitForm form
  else
    let stored ← onIdentity (Identity.ensureMinerKey board freshSalt)
    if !keyAllowsJoin board.model (stored ≠ []) then
      feed .keyMissing walletIn
      return ← sendProvisionError 422 "key_required"
    commitForm form

/-! ## Improv -/

/-- The arguments are C strings or null. -/
def commitWifiOnlyCredentials (ssid pass : Option Text) : Prog Bool := do
  match ssid with
  | none => return false
  | some ssid =>
      resetForWifiOnlyCommit
      let ssidLen := (cString ssid).length
      let given : ProvInputs := { ssidValid := 1 ≤ ssidLen ∧ ssidLen ≤ 32 }
      feed .ssidWritten given
      if !given.ssidValid then return false
      commitWifiOnly do
        setWifi (cString ssid) (cString (pass.getD []))
        setProvDone
      let d ← get
      return d.fsm.readyToConnect

/-! ## The key beside the transports -/

/-- Improv's 0xF0. -/
def handleSetMinerKey (board : Board) (key : Text) : Prog Unit := do
  let _ ← onIdentity (Identity.setOwnerKey board (cString key) .usb)

/-- The verdict of a registration on the key. -/
def setKeyOk (ok : Bool) : Prog Unit := onIdentity do
  let _ ← put (.setKeyOk ok)

/-! ## Requests -/

/-- What the boot sequence and the registration report. -/
inductive Notification where
  | wifiUp
  | wifiAuthFail
  | wifiNoIp
  | wifiNoAp
  | apiOk
  | apiFail (detail : ProvErr)
  | keyMissing
  deriving DecidableEq, Repr

def notify : Notification → Prog Unit
  | .wifiUp => feed .wifiUp {}
  | .wifiAuthFail => feed .wifiAuthFail {}
  | .wifiNoIp => feed .wifiNoIp {}
  | .wifiNoAp => feed .wifiNoAp {}
  | .apiOk => feed .apiOk {}
  | .apiFail detail => feed .apiFail { detail := detail }
  | .keyMissing => feed .keyMissing {}

inductive Request where
  | write (write : Write)
  | readKey (freshSalt : Random16)
  | connect
  | disconnect
  | tick (idle : Bool)
  | provision (form : Form) (apSecure : Bool) (freshSalt : Random16)
  | improv (ssid pass : Option Text)
  | usbKey (key : Text)
  | keyOk (ok : Bool)
  | notify (notification : Notification)
  | reset
  deriving DecidableEq

/-- The function of the source that serves the request; `/provision` is answered. -/
def Request.handle (board : Board) : Request → Prog (Option Reply)
  | .write written => do
      onWrite board written
      return none
  | .readKey freshSalt => do
      onReadKey board freshSalt
      return none
  | .connect => do
      clearStagedKey
      return none
  | .disconnect => do
      clearStagedKey
      return none
  | .tick idle => do
      Provisioning.tick idle
      return none
  | .provision form apSecure freshSalt => do
      let reply ← handleProvision board form apSecure freshSalt
      return some reply
  | .improv ssid pass => do
      let _ ← commitWifiOnlyCredentials ssid pass
      return none
  | .usbKey key => do
      handleSetMinerKey board key
      return none
  | .keyOk ok => do
      setKeyOk ok
      return none
  | .notify notification => do
      Provisioning.notify notification
      return none
  | .reset => do
      feed .reset {}
      return none

/-- What the request commits if it is accepted. -/
def Request.offer (d : Device) : Request → Option Commit
  | .write ⟨.wallet, value, _, _⟩ => some ⟨d.pendingSsid, d.pendingPass, some (copyAttrValue value 64)⟩
  | .provision form _ _ => some ⟨cString form.ssid, cString form.pass, some (cString form.wallet)⟩
  | .improv (some ssid) pass => some ⟨cString ssid, cString (pass.getD []), none⟩
  | _ => none

def Request.answer (board : Board) (request : Request) : Prog (Option Reply) := do
  let d ← get
  tell (.offer (request.offer d))
  request.handle board

def Request.serve (board : Board) (request : Request) : Prog Unit := do
  let _ ← request.answer board
  return ()

/-! ## Runs -/

/-- Requests, each with the fates of its writes, from a board that was just started. -/
def runAll (board : Board) (d : Device) (requests : List (Request × List Fate)) : Device :=
  serveAll Action.apply (Request.serve board) Device.reboot d requests

def stepsAll (board : Board) (d : Device) (requests : List (Request × List Fate)) :
    List (Step Device Action) :=
  stepsOf Action.apply (Request.serve board) Device.reboot d requests

end FryFirmware.Provisioning
