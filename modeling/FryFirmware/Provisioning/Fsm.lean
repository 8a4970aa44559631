import Mathlib.Data.List.Basic
import Mathlib.Tactic.Common

/-!
# The provisioning state machine

`lib/fry_core/provisioning_fsm.cpp`. All transports and the boot sequence feed one
machine; `wifiUp` is its latch for a join that worked.
-/

set_option autoImplicit false

namespace FryFirmware.Provisioning

inductive ProvState where
  | idle
  | provisioning
  | connecting
  | connected
  | error
  deriving DecidableEq, Repr

inductive ProvErr where
  | none
  | badSsid
  | wifiAuth
  | noIp
  | apiFail
  | badWallet
  | keyRequired
  | badKey
  | keyLocked
  | reg401
  | reg403
  | reg409
  | regOther4xx
  | unreachable
  deriving DecidableEq, Repr

inductive ProvEvent where
  | ssidWritten
  | passWritten
  | walletWritten
  | wifiUp
  | wifiAuthFail
  | wifiNoIp
  | apiOk
  | apiFail
  | reset
  | wifiOnlyCommit
  | keyMissing
  | keyRejected
  | wifiNoAp
  deriving DecidableEq, Repr

structure ProvInputs where
  ssidValid : Bool := false
  walletValid : Bool := false
  detail : ProvErr := .none
  linkTrusted : Bool := true
  deriving DecidableEq, Repr

def isRegDetail : ProvErr → Bool
  | .reg401 | .reg403 | .reg409 | .regOther4xx | .unreachable => true
  | _ => false

/-- Errors raised after the join worked. -/
def isApiClassErr (e : ProvErr) : Bool := e = .apiFail || e = .keyRequired || isRegDetail e

def keyDetail (e : ProvErr) : ProvErr := if e = .keyLocked then .keyLocked else .badKey

def isKeyErr (e : ProvErr) : Bool := e = .badKey || e = .keyLocked

structure ProvisioningFsm where
  state : ProvState := .idle
  err : ProvErr := .none
  wifiUp : Bool := false
  deriving DecidableEq, Repr

namespace ProvisioningFsm

def readyToConnect (m : ProvisioningFsm) : Bool := m.state = .connecting

def runningError (m : ProvisioningFsm) : Bool :=
  m.state = .error && m.wifiUp && (isApiClassErr m.err || isKeyErr m.err)

def acceptsUntrustedWrites (m : ProvisioningFsm) : Bool := !m.runningError

def moveTo (m : ProvisioningFsm) (state : ProvState) (err : ProvErr) : ProvisioningFsm :=
  { m with state := state, err := err }

/-- A commit point: a join is to come. -/
def commit : ProvisioningFsm := { state := .connecting }

def feedIdle (m : ProvisioningFsm) (ev : ProvEvent) (given : ProvInputs) : ProvisioningFsm :=
  match ev with
  | .ssidWritten => if given.ssidValid then m.moveTo .provisioning .none else m.moveTo .error .badSsid
  | .keyRejected => m.moveTo .error (keyDetail given.detail)
  | _ => m

def feedProvisioning (m : ProvisioningFsm) (ev : ProvEvent) (given : ProvInputs) : ProvisioningFsm :=
  match ev with
  | .ssidWritten => if given.ssidValid then m else m.moveTo .error .badSsid
  | .wifiOnlyCommit => commit
  | .walletWritten => if given.walletValid then commit else m.moveTo .error .badWallet
  | .keyMissing => m.moveTo .error .keyRequired
  | .keyRejected => m.moveTo .error (keyDetail given.detail)
  | _ => m

def feedConnecting (m : ProvisioningFsm) (ev : ProvEvent) (given : ProvInputs) : ProvisioningFsm :=
  match ev with
  | .wifiUp => { m with wifiUp := true }
  | .wifiAuthFail => m.moveTo .error .wifiAuth
  | .wifiNoAp => m.moveTo .error .badSsid
  | .wifiNoIp => m.moveTo .error .noIp
  | .apiOk => if m.wifiUp then m.moveTo .connected .none else m
  | .apiFail => m.moveTo .error (if isRegDetail given.detail then given.detail else .apiFail)
  | .keyMissing => m.moveTo .error .keyRequired
  | _ => m

def feedError (m : ProvisioningFsm) (ev : ProvEvent) (given : ProvInputs) : ProvisioningFsm :=
  match ev with
  | .apiOk => if m.runningError then m.moveTo .connected .none else m
  | .apiFail =>
      if m.runningError then { m with err := if isRegDetail given.detail then given.detail else .apiFail }
      else m
  | .keyRejected => { m with err := keyDetail given.detail }
  | _ => m

/-- An SSID write in `Error` starts a fresh attempt, unless it is untrusted and the board runs. -/
def startsOver (m : ProvisioningFsm) (ev : ProvEvent) (given : ProvInputs) : Bool :=
  m.state = .error && ev = .ssidWritten && (given.linkTrusted || !m.runningError)

def feedState (m : ProvisioningFsm) (ev : ProvEvent) (given : ProvInputs) : ProvisioningFsm :=
  match m.state with
  | .idle => m.feedIdle ev given
  | .provisioning => m.feedProvisioning ev given
  | .connecting => m.feedConnecting ev given
  | .connected => m
  | .error => m.feedError ev given

/-- `feed`, less its result: whether `state` changed. -/
def feed (m : ProvisioningFsm) (ev : ProvEvent) (given : ProvInputs) : ProvisioningFsm :=
  let m := if m.startsOver ev given then {} else m
  let m := m.feedState ev given
  if ev = .reset ∧ m.state ≠ .idle then {} else m

/-- The machine is back where it began before it looks at this event. -/
def resets (m : ProvisioningFsm) (ev : ProvEvent) (given : ProvInputs) : Bool :=
  ev = .reset || m.startsOver ev given

end ProvisioningFsm

end FryFirmware.Provisioning
