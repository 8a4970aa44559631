import FryFirmware.Lib.AtomicWrites
import FryFirmware.Strikes.Rules
import Mathlib.Data.List.Basic
import Mathlib.Tactic.Common

/-!
# The board under updates

The namespace `fry_ota`, the slots of the flash and what the bootloader makes of them.
An ESP32 has two slots, of which the boot data selects one. A bootloader with app
rollback gives a new image one boot to prove itself; the bootloaders of some boards
are older and have none. An ESP8266 has one slot and a staged image, which the reset
after the download copies over it and a power loss forgets.

Beside it the board remembers, for the statements, how it was reset last, what it
downloaded, which images it gave up after an unplanned restart, and which mislabelled
images it booted.
-/

set_option autoImplicit false

namespace FryFirmware.Strikes

open Lib
open Config (Text)

abbrev Version : Type := { version : Text // version ≠ [] }

/-- An image, and the version the manifest declared it to be. -/
structure Image where
  version : Version
  declared : Option Text
  deriving DecidableEq, Repr

def Image.Reports (x : Text) (image : Image) : Prop := image.version.val = x

instance (x : Text) : DecidablePred (Image.Reports x) :=
  fun image => inferInstanceAs (Decidable (image.version.val = x))

def Image.Mislabelled (image : Image) : Prop := image.declared ≠ some image.version.val

instance : DecidablePred Image.Mislabelled :=
  fun image => inferInstanceAs (Decidable (image.declared ≠ some image.version.val))

inductive ImageState where
  | valid
  | new
  | pendingVerify
  | invalid
  deriving DecidableEq, Repr

structure Slot where
  image : Image
  state : ImageState
  deriving DecidableEq, Repr

inductive Platform where
  | esp32 (appRollback : Bool)
  | esp8266
  deriving DecidableEq, Repr

/-- The keys of `fry_ota` but the manifest URL. A marker is there or not. -/
structure Store where
  pending : Option Text := none
  bootfails : Option Nat := none
  badver : Option Text := none
  badn : Option Nat := none
  planrst : Bool := false
  rbk : Bool := false
  deriving DecidableEq, Repr

namespace Store

def getPending (s : Store) : Text := s.pending.getD []
def getBootFails (s : Store) : Nat := s.bootfails.getD 0
def getBadVer (s : Store) : Text := s.badver.getD []
def getBadN (s : Store) : Nat := s.badn.getD 0

end Store

/-- The flags of `ota_client.cpp`, with the two markers as `init` read them. -/
structure Ram where
  confirmPending : Bool := false
  pendingVerify : Bool := false
  rolledBack : Bool := false
  rollbackFailed : Bool := false
  firstCheckAfterRollback : Bool := false
  plannedRestart : Bool := false
  counterRolledBack : Bool := false
  deriving DecidableEq, Repr

inductive Position where
  | off
  | starting
  | running
  deriving DecidableEq, Repr

structure Board where
  store : Store := {}
  running : Slot
  other : Option Slot := none
  bootOther : Bool := false
  staged : Option Image := none
  position : Position := .off
  ram : Ram := {}
  planned : Bool := false
  interrupted : Bool := false
  downloads : List Image := []
  lost : List Image := []
  mislabelled : List Image := []
  deriving DecidableEq, Repr

inductive Action where
  | bootloader
  | reset (planned : Bool)
  | powerLoss
  | started
  | setRam (ram : Ram)
  | fetch
  | install (image : Image)
  | stage (image : Image)
  | setBoot
  | markValid
  | markInvalid
  | putPending (version : Text)
  | removePending
  | putBootFails (count : Nat)
  | removeBootFails
  | putBadVer (version : Text)
  | putBadN (count : Nat)
  | removeBadVer
  | removeBadN
  | putPlanned
  | removePlanned
  | putRolledBack
  | removeRolledBack
  deriving DecidableEq, Repr

/-! ## The bootloader -/

/-- An image that is pending has had its boot. -/
def Slot.abort (appRollback : Bool) (s : Slot) : Slot :=
  if appRollback ∧ s.state = .pendingVerify then { s with state := .invalid } else s

/-- A new image is pending from its first boot on. -/
def Slot.start (appRollback : Bool) (s : Slot) : Slot :=
  if appRollback ∧ s.state = .new then { s with state := .pendingVerify } else s

/-- The image that is given up, unless the restart was planned. -/
def Board.giveUp (b : Board) (image : Image) : List Image :=
  if b.planned then b.lost else image :: b.lost

/-- A bootloader with app rollback never boots an image that had its chance while there
is another one. -/
def bootSlots (appRollback : Bool) (b : Board) : Board :=
  let running := b.running.abort appRollback
  match b.other.map (Slot.abort appRollback), b.bootOther with
  | some other, true =>
      { b with running := other.start appRollback, other := some running, bootOther := false }
  | some other, false =>
      if appRollback ∧ running.state = .invalid then
        { b with
          running := other.start appRollback
          other := some running
          lost := b.giveUp running.image }
      else { b with running := running.start appRollback, other := some other }
  | none, _ => { b with running := running.start appRollback, other := none, bootOther := false }

/-- `eboot` copies a staged image. -/
def bootStaged (b : Board) : Board :=
  match b.staged with
  | none => b
  | some image =>
      { b with
        running := ⟨image, .valid⟩
        staged := none
        mislabelled := if image.Mislabelled then image :: b.mislabelled else b.mislabelled }

def Board.boots (p : Platform) (b : Board) : Board :=
  match p with
  | .esp32 appRollback => { bootSlots appRollback b with position := .starting }
  | .esp8266 => { bootStaged b with position := .starting }

/-! ## Resets -/

def Board.reset (planned : Bool) (b : Board) : Board :=
  { b with position := .off, ram := {}, planned := planned }

/-- A power loss, which also forgets what is staged. -/
def Board.powerLoss (b : Board) : Board := { b.reset false with staged := none }

/-- A power loss in the middle of an operation. -/
def Board.cutOff (b : Board) : Board := { b.powerLoss with interrupted := true }

def Board.downloaded (b : Board) (image : Image) : Board :=
  { b with downloads := image :: b.downloads }

def Action.apply (p : Platform) : Action → Board → Board
  | .bootloader, b => b.boots p
  | .reset planned, b => b.reset planned
  | .powerLoss, b => b.powerLoss
  | .started, b => { b with position := .running }
  | .setRam ram, b => { b with ram := ram }
  | .fetch, b => b
  | .install image, b => { b.downloaded image with other := some ⟨image, .new⟩, bootOther := true }
  | .stage image, b => { b.downloaded image with staged := some image }
  | .setBoot, b =>
      { b with
        other := b.other.map fun other => { other with state := .new }
        bootOther := true
        lost := b.giveUp b.running.image }
  | .markValid, b => { b with running := { b.running with state := .valid } }
  | .markInvalid, b => { b with running := { b.running with state := .invalid } }
  | .putPending version, b => { b with store := { b.store with pending := some version } }
  | .removePending, b => { b with store := { b.store with pending := none } }
  | .putBootFails count, b => { b with store := { b.store with bootfails := some count } }
  | .removeBootFails, b => { b with store := { b.store with bootfails := none } }
  | .putBadVer version, b => { b with store := { b.store with badver := some version } }
  | .putBadN count, b => { b with store := { b.store with badn := some count } }
  | .removeBadVer, b => { b with store := { b.store with badver := none } }
  | .removeBadN, b => { b with store := { b.store with badn := none } }
  | .putPlanned, b => { b with store := { b.store with planrst := true } }
  | .removePlanned, b => { b with store := { b.store with planrst := false } }
  | .putRolledBack, b => { b with store := { b.store with rbk := true } }
  | .removeRolledBack, b => { b with store := { b.store with rbk := false } }

end FryFirmware.Strikes
