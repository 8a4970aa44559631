import FryFirmware.Identity.Registration
import FryFirmware.Provisioning.Transports
import Mathlib.Data.List.Basic
import Mathlib.Tactic.Common

/-!
# The boot sequence

`setup`, `loop` and `attemptWifiConnect` of `src/main.cpp`, the rules of
`lib/fry_core/boot_policy.cpp`, and the exits of `registerInstallation`. The loop task
waits in a join and in a registration while the BLE host task of the ESP32 serves
writes, so that one pass is made of the steps between which a request can arrive.
-/

set_option autoImplicit false

namespace FryFirmware.Boot

open Lib Config
open Lib.Program (get put tell)
open Identity (Board Random16 RegClass keyAllowsJoin)
open Provisioning (Device ProvErr ProvisioningFsm onIdentity notify)

inductive Chip where
  | esp32
  | esp8266
  deriving DecidableEq, Repr

inductive BootPhase where
  | awaitingProvisioning
  | connectingWifi
  | ready
  deriving DecidableEq, Repr

def initialBootPhase (hasCredentials : Bool) : BootPhase :=
  if hasCredentials then .connectingWifi else .awaitingProvisioning

def hasBootCredentials (hasWifi hasWallet hasProvDone : Bool) : Bool :=
  hasWifi && (hasWallet || hasProvDone)

/-- `BootPolicy::onPhaseEntry`: whether the transport is to be started now, and whether it
is started then. -/
def onPhaseEntry (started : Bool) (phase : BootPhase) : Bool × Bool :=
  if phase ≠ .awaitingProvisioning then (false, started)
  else if started then (false, started)
  else (true, true)

/-- Where the loop task stands. -/
inductive Position where
  | off
  | pass
  | joining
  | failing (err : ProvErr)
  | registering
  | finishing
  | reporting
  deriving DecidableEq, Repr

structure Node where
  device : Device := {}
  phase : BootPhase := .awaitingProvisioning
  transportStarted : Bool := false
  position : Position := .off
  deriving DecidableEq, Repr

inductive Action where
  | device (action : Provisioning.Action)
  | setPhase (phase : BootPhase)
  | goTo (position : Position)
  | restartToApply
  | restart
  deriving DecidableEq, Repr

/-- A restart: `setup` is to come. -/
def Node.reboot (n : Node) : Node := { device := n.device.reboot }

def Action.apply : Action → Node → Node
  | .device action, n => { n with device := action.apply n.device }
  | .setPhase phase, n =>
      { n with phase := phase, transportStarted := (onPhaseEntry n.transportStarted phase).2 }
  | .goTo position, n => { n with position := position }
  | .restartToApply, n => n.reboot
  | .restart, n => n.reboot

abbrev Prog (α : Type) : Type := Program Node Action α

/-- The transports run on the whole node. -/
def deviceComponent :
    Component Device Node Provisioning.Action Action Provisioning.Action.apply Action.apply where
  get := Node.device
  set := fun n device => { n with device := device }
  action := .device
  get_set := fun _ _ => rfl
  set_set := fun _ _ _ => rfl
  set_get := fun _ => rfl
  acts := fun _ _ => rfl

def onDevice {α : Type} (program : Provisioning.Prog α) : Prog α := deviceComponent.zoom program

def setPhase (phase : BootPhase) : Prog Unit := tell (.setPhase phase)

def goTo (position : Position) : Prog Unit := tell (.goTo position)

/-! ## Registration -/

def regClassProvErr : RegClass → ProvErr
  | .ok => .none
  | .unauthorized => .reg401
  | .forbidden => .reg403
  | .conflict => .reg409
  | .otherClientError => .regOther4xx
  | .unreachable => .unreachable

/-- What one registration meets: the wait of the boot TLS gate, whether there is memory
for it, and the rest. -/
structure Registering where
  gateMs : Nat
  allocated : Bool
  registration : Identity.Registration

/-- The two returns in front of everything else, both of the ESP8266. -/
def Registering.deferred (chip : Chip) (r : Registering) : Bool :=
  chip = .esp8266 && (r.gateMs ≠ 0 || !r.allocated)

def registerInstallation (chip : Chip) (board : Board) (r : Registering) : Provisioning.Prog Bool := do
  if r.deferred chip then return false
  let minerKey ← onIdentity (Identity.ensureMinerKey board r.registration.freshSalt)
  if minerKey = [] then
    notify .keyMissing
    return false
  let registered ← onIdentity (Identity.registerKeyed board r.registration)
  if registered then
    notify .apiOk
    return true
  notify (.apiFail (regClassProvErr (Identity.lastClass .unreachable (r.registration.answers.take 2))))
  return false

/-! ## `main.cpp` -/

def setup (board : Board) (freshSalt : Random16) : Prog Unit := do
  let minerKey ← onDevice (onIdentity (Identity.ensureMinerKey board freshSalt))
  let n ← get
  let hasCredentials := hasBootCredentials n.device.ssid.isSome n.device.wallet.isSome
    (n.device.provDone = some true)
  let keyOk := keyAllowsJoin board.model (minerKey ≠ [])
  setPhase (initialBootPhase (hasCredentials && keyOk))
  goTo .pass

/-- `loop`, up to a join or to the report of `Ready`. -/
def loop (idle : Bool) : Prog Unit := do
  let n ← get
  match n.phase with
  | .awaitingProvisioning =>
      onDevice (Provisioning.tick idle)
      let n ← get
      if n.device.fsm.readyToConnect then setPhase .connectingWifi
  | .connectingWifi => goTo .joining
  | .ready =>
      onDevice (Provisioning.tick idle)
      let n ← get
      if n.device.fsm.readyToConnect then tell .restartToApply else goTo .reporting

/-- `attemptWifiConnect` after `fry_wifi::connect`; no error: the join worked. -/
def joined (outcome : Option ProvErr) : Prog Unit :=
  match outcome with
  | none => do
      onDevice (notify .wifiUp)
      goTo .registering
  | some err => do
      setPhase .awaitingProvisioning
      goTo (.failing err)

def notifyFailure (err : ProvErr) : Prog Unit := do
  onDevice (notify (if err = .noIp then .wifiNoIp else if err = .badSsid then .wifiNoAp else .wifiAuthFail))
  goTo .pass

def registerNow (chip : Chip) (board : Board) (r : Registering) : Prog Unit := do
  let _ ← onDevice (registerInstallation chip board r)
  goTo .finishing

def enterReady : Prog Unit := do
  setPhase .ready
  goTo .pass

/-- `fry_trigger_report_loop_tick`, which registers where that is due. -/
def report (chip : Chip) (board : Board) (due : Option Registering) : Prog Unit := do
  match due with
  | none => pure ()
  | some r => let _ ← onDevice (registerInstallation chip board r)
  goTo .pass

/-! ## Runs -/

/-- The writes of a central arrive at any time, what the loop task serves between two
passes; a radio transport is there once it was started. -/
def Node.admits (chip : Chip) (n : Node) : Provisioning.Request → Bool
  | .write _ | .readKey _ | .connect | .disconnect =>
      chip = .esp32 && n.transportStarted && n.position ≠ .off
  | .provision _ _ _ => chip = .esp8266 && n.transportStarted && n.position = .pass
  | .improv _ _ | .usbKey _ => n.position = .pass
  | .tick _ | .keyOk _ | .notify _ | .reset => false

inductive Event where
  | setup (freshSalt : Random16)
  | request (request : Provisioning.Request)
  | loop (idle : Bool)
  | joined (outcome : Option ProvErr)
  | notifyFailure
  | register (r : Registering)
  | enterReady
  | report (due : Option Registering)
  | restart

/-- The program, where the loop task stands there. -/
def whenAt (position : Position) (program : Prog Unit) : Prog Unit := do
  let n ← get
  if n.position = position then program

def Event.serve (chip : Chip) (board : Board) : Event → Prog Unit
  | .setup freshSalt => whenAt .off (Boot.setup board freshSalt)
  | .request asked => do
      let n ← get
      if n.admits chip asked then onDevice (asked.serve board)
  | .loop idle => whenAt .pass (Boot.loop idle)
  | .joined outcome => whenAt .joining (Boot.joined outcome)
  | .notifyFailure => do
      let n ← get
      match n.position with
      | .failing err => Boot.notifyFailure err
      | _ => return
  | .register r => whenAt .registering (registerNow chip board r)
  | .enterReady => whenAt .finishing Boot.enterReady
  | .report due => whenAt .reporting (Boot.report chip board due)
  | .restart => tell .restart

/-- A board that was switched on, whatever its store holds. -/
def poweredOn (d : Device) : Node := { device := d.reboot }

def runAll (chip : Chip) (board : Board) (n : Node) (events : List (Event × List Fate)) : Node :=
  serveAll Action.apply (Event.serve chip board) Node.reboot n events

def stepsAll (chip : Chip) (board : Board) (n : Node) (events : List (Event × List Fate)) :
    List (Step Node Action) :=
  stepsOf Action.apply (Event.serve chip board) Node.reboot n events

end FryFirmware.Boot
