import FryFirmware.Identity.MinerKey
import FryFirmware.Lib.Components
import FryFirmware.Provisioning.Fsm
import Mathlib.Data.List.Basic
import Mathlib.Tactic.Common

/-!
# The board while it is provisioned

The state that the transports share: the identity store, the keys `fry_wifi`,
`fry/wallet` and `fry/provDone`, the state machine and the buffers of the BLE
transport. Store writes are writes of a program; RAM is changed by notes. Beside it
the state remembers what the request being served would commit, and what the last
accepted commit was.
-/

set_option autoImplicit false

namespace FryFirmware.Provisioning

open Lib Config
open Lib.Program (get put tell)

/-- What a transport commits; without a wallet it is the marker `provDone`. -/
structure Commit where
  ssid : Text
  pass : Text
  wallet : Option Text
  deriving DecidableEq, Repr

structure Device where
  identity : Identity.World := {}
  ssid : Option Text := none
  pass : Option Text := none
  wallet : Option Text := none
  provDone : Option Bool := none
  fsm : ProvisioningFsm := {}
  pendingSsid : Text := []
  pendingPass : Text := []
  pendingKey : Text := []
  offer : Option Commit := none
  accepted : Option Commit := none
  deriving DecidableEq, Repr

inductive Action where
  | identity (action : Identity.Action)
  | putSsid (ssid : Text)
  | putPass (pass : Text)
  | putWallet (wallet : Text)
  | putProvDone
  | feed (ev : ProvEvent) (given : ProvInputs)
  | stageSsid (ssid : Text)
  | stagePass (pass : Text)
  | stageKey (key : Text)
  | offer (commit : Option Commit)
  deriving DecidableEq, Repr

/-- The machine enters `Connecting`: the offer of the request served is accepted. -/
def Device.enters (d : Device) (fsm : ProvisioningFsm) : Bool :=
  fsm.readyToConnect && !d.fsm.readyToConnect

def Action.apply : Action → Device → Device
  | .identity action, d => { d with identity := action.apply d.identity }
  | .putSsid ssid, d => { d with ssid := some ssid }
  | .putPass pass, d => { d with pass := some pass }
  | .putWallet wallet, d => { d with wallet := some wallet }
  | .putProvDone, d => { d with provDone := some true }
  | .feed ev given, d =>
      { d with
        fsm := d.fsm.feed ev given
        accepted := if d.enters (d.fsm.feed ev given) then d.offer else d.accepted }
  | .stageSsid ssid, d => { d with pendingSsid := ssid }
  | .stagePass pass, d => { d with pendingPass := pass }
  | .stageKey key, d => { d with pendingKey := key }
  | .offer commit, d => { d with offer := commit }

/-- A program over the state of the board. -/
abbrev Prog (α : Type) : Type := Program Device Action α

/-- A power loss: the store stays. -/
def Device.reboot (d : Device) : Device :=
  { identity := Identity.Action.boot.apply d.identity
    ssid := d.ssid
    pass := d.pass
    wallet := d.wallet
    provDone := d.provDone }

/-- What the transport holds right after a start, whatever the store holds. -/
def Device.Booted (d : Device) : Prop := d.reboot = d

/-- The identity programs run on the whole board. -/
def identityComponent :
    Component Identity.World Device Identity.Action Action Identity.Action.apply Action.apply where
  get := Device.identity
  set := fun d identity => { d with identity := identity }
  action := .identity
  get_set := fun _ _ => rfl
  set_set := fun _ _ _ => rfl
  set_get := fun _ => rfl
  acts := fun _ _ => rfl

def onIdentity {α : Type} (program : Identity.Prog α) : Prog α := identityComponent.zoom program

/-! ## `fry_config` -/

def setWifi (ssid pass : Text) : Prog Unit := do
  let _ ← put (.putSsid ssid)
  let _ ← put (.putPass pass)

def setWallet (wallet : Text) : Prog Unit := do
  let _ ← put (.putWallet wallet)

def setProvDone : Prog Unit := do
  let _ ← put .putProvDone

/-! ## `provisioning_commit.h` -/

def feed (ev : ProvEvent) (given : ProvInputs) : Prog Unit := tell (.feed ev given)

def commitOnWallet (given : ProvInputs) (persist : Prog Unit) : Prog Unit := do
  let d ← get
  if d.fsm.state = .provisioning ∧ given.walletValid then persist
  feed .walletWritten given

def commitWifiOnly (persist : Prog Unit) : Prog Unit := do
  let d ← get
  if d.fsm.state = .provisioning then persist
  feed .wifiOnlyCommit {}

def resetForWifiOnlyCommit : Prog Unit := do
  let d ← get
  if d.fsm.state ≠ .idle ∧ d.fsm.state ≠ .provisioning then feed .reset {}

end FryFirmware.Provisioning
