import FryFirmware.Strikes.Client
import Mathlib.Data.List.Basic
import Mathlib.Tactic.Common

/-!
# What the strikes stand for

The strikes stored for a version are an account of its failures. Between the failure
and the entry there is a debt, which the state of the board at its next start tells.
`Booted` is the account right after the bootloader, `Running` where `init` is over,
and `Off` where a start is to come.
-/

set_option autoImplicit false

namespace FryFirmware.Strikes

open Lib
open Lib.Program (get put tell)
open Config (Text)

/-! ## Debts -/

/-- The strikes that are stored for the version. -/
def strikesOf (x : Text) (s : Store) : Nat := if s.badver = some x then s.getBadN else 0

/-- How often the version failed: on an ESP32 the images of this version that were given up
after an unplanned restart, on an ESP8266 the mislabelled images that were booted. -/
def failures (p : Platform) (x : Text) (b : Board) : Nat :=
  if p = .esp8266 then b.mislabelled.length else b.lost.countP (Image.Reports x)

/-- The board has come up in another image than the pending one. -/
def reckoning (b : Board) : Bool :=
  b.store.getPending ≠ [] && b.store.getPending ≠ b.running.image.version.val

/-- `init` is to record a strike. -/
def due (p : Platform) (b : Board) : Bool :=
  reckoning b && !b.store.planrst && (p = .esp8266 || b.lastInvalid p || b.store.rbk)

/-! ## Steps that keep the account -/

/-- What speaks for a strike survives a power loss. -/
def persists (p : Platform) (b : Board) : Bool := p = .esp8266 || b.ram.rolledBack

/-- A power loss before this action costs no strike and adds none. -/
def safeCut (p : Platform) (b : Board) (action : Action) : Bool :=
  (!reckoning b || b.running.state ≠ .pendingVerify) &&
    match action with
    | .putPending _ => p ≠ .esp32 true
    | .reset _ => b.staged.isNone
    | .removeRolledBack => !reckoning b || !b.ram.plannedRestart
    | .putBadVer _ => persists p b
    | .putBadN strikes => (if persists p b then b.store.getBadN + 1 else b.store.getBadN) = strikes
    | .removePending => !reckoning b || !persists p b
    | _ => true

/-- The boot counter rolls back only after an unplanned restart, and only where the bootloader
does not; no write fails, and power is lost only where that is safe. -/
def Meets (p : Platform) (step : Step Board Action) : Prop :=
  step.ending ≠ .lost ∧
    (step.ending = .took → step.action = .setBoot →
      step.before.planned = false ∧ (p = .esp32 true → step.before.interrupted = false)) ∧
    (step.ending = .cut → safeCut p step.before step.action = true)

instance (p : Platform) : DecidablePred (Meets p) :=
  fun step => inferInstanceAs (Decidable (step.ending ≠ .lost ∧
    (step.ending = .took → step.action = .setBoot →
      step.before.planned = false ∧ (p = .esp32 true → step.before.interrupted = false)) ∧
    (step.ending = .cut → safeCut p step.before step.action = true)))

/-! ## The account -/

/-- The running image has still to prove itself. -/
def OnTrial (x : Text) (b : Board) : Prop :=
  b.running.state = .pendingVerify ∨ b.store.pending = some x ∧ b.running.image.Reports x

/-- The image that a rollback returns to. -/
structure ReturnsTo (p : Platform) (x : Text) (running : Slot) (other : Option Slot)
    (previous : Slot) : Prop where
  there : other = some previous
  bootable : previous.state ≠ .invalid
  valid : p = .esp32 true → previous.state = .valid
  older : running.image.Reports x → ¬ previous.image.Reports x

structure Sound (p : Platform) (x : Text) (base : Nat) (b : Board) : Prop where
  named : b.store.pending = none ∨ b.store.pending = some x ∧ x ≠ []
  cap : strikesOf x b.store ≤ max 3 base
  selected : b.bootOther = false
  staged : b.staged = none
  bootable : b.running.state ≠ .invalid
  settled : p = .esp32 true →
    b.running.state ≠ .new ∧ ∀ other, b.other = some other → other.state ≠ .pendingVerify
  plain : p ≠ .esp32 true → b.running.state ≠ .pendingVerify
  trial : p ≠ .esp8266 → OnTrial x b → ∃ previous, ReturnsTo p x b.running b.other previous
  pending : b.running.state = .pendingVerify → b.running.image.Reports x → b.store.pending = some x
  single : p = .esp8266 → b.lost = []
  labelled : p ≠ .esp8266 → b.mislabelled = []
  counted : b.interrupted = false → p = .esp8266 →
    b.downloads.countP Image.Mislabelled = b.mislabelled.length

/-- The account, with a debt or without. -/
structure Account (p : Platform) (x : Text) (base : Nat) (b : Board) : Prop extends Sound p x base b where
  debt : due p b = true → strikesOf x b.store + 1 = base + failures p x b
  clear : due p b = false → strikesOf x b.store = base + failures p x b
  room : due p b = true ∨ b.store.pending = some x ∧ b.running.image.Reports x →
    strikesOf x b.store ≤ 2
  unannounced : b.running.state = .pendingVerify → b.store.planrst = false
  counter : p = .esp32 true → b.interrupted = false →
    (b.store.pending = none → b.store.getBootFails = 0) ∧
      (b.store.pending = some x → b.running.image.Reports x → b.running.state = .pendingVerify)

structure Booted (p : Platform) (x : Text) (base : Nat) (b : Board) : Prop
    extends Account p x base b where
  first : p = .esp32 true → b.interrupted = false → b.store.pending = some x →
    b.running.image.Reports x → b.store.getBootFails = 0

/-- Where `init` is over nothing is owed. -/
structure Running (p : Platform) (x : Text) (base : Nat) (b : Board) : Prop
    extends Account p x base b where
  awaited : b.store.pending = some x → b.running.image.Reports x
  planrst : b.store.planrst = false
  rbk : b.store.rbk = false
  verify : b.ram.pendingVerify = b.isPendingVerify p
  confirm : b.ram.pendingVerify = true → b.ram.confirmPending = true

/-- The account is in order at the next start. -/
def Off (p : Platform) (x : Text) (base : Nat) (b : Board) : Prop := Booted p x base (b.boots p)

end FryFirmware.Strikes
