import FryFirmware.Identity.World
import Mathlib.Data.List.Basic
import Mathlib.Tactic.Common

/-!
# Keys and installation ids

The store accesses of `src/core/miner_key.cpp`, with `clearInstallation`,
`clearIdentityShadows` and `factoryReset` of `fry_config.cpp`.
-/

set_option autoImplicit false

namespace FryFirmware.Identity

open Lib Config
open Lib.Program (get put tell)

def when (condition : Bool) (program : Prog Unit) : Prog Unit :=
  if condition then program else pure ()

/-! ## `fry_config` -/

def clearInstallation : Prog Unit := do
  let _ ← put .removeInstallId
  let _ ← put .removeDeviceToken

def clearIdentityShadows : Prog Unit := do
  let w ← get
  when w.store.shdwInstallId.isSome (do let _ ← put .removeShadowId)
  let w ← get
  when w.store.shdwDevToken.isSome (do let _ ← put .removeShadowToken)

/-- `factoryReset` on the keys modelled here, and the restart after it. -/
def factoryReset : Prog Unit := do
  let _ ← put .removeInstallId
  let _ ← put .removeDeviceToken
  let _ ← put .removeShadowId
  let _ ← put .removeShadowToken
  let _ ← put .clearVpn
  tell .boot

/-! ## `fry_identity` -/

/-- The loop that stores a key and reads it back, `left` attempts to go. -/
def storeKey (writer : Writer) (key : Text) : Nat → Prog Bool
  | 0 => pure false
  | left + 1 => do
      let _ ← put (.setMinerKey writer key)
      let w ← get
      if w.store.minerKey = some key then pure true else storeKey writer key left

/-- `ensureMinerKey`; the result is the key it hands out, empty where there is none. -/
def ensureMinerKey (board : Board) (freshSalt : Random16) : Prog Text := do
  let w ← get
  let present := w.store.minerKey.isSome
  let outKey := w.store.getMinerKey
  let action := decideBootKey board.model present outKey
  let action :=
    if action = .wait ∨ action = .mint then
      decideBootKeySalted board.model present outKey w.store.getSalt.isSome
        (w.store.getKeySrc = text "user")
    else action
  match action with
  | .wait => pure []
  | .keep => pure outKey
  | .migrateLegacy =>
      match migrateLegacyMinerKey outKey with
      | none => pure outKey
      | some migrated => do
          let _ ← storeKey .board migrated 2
          pure migrated
  | .mint | .recover =>
      match w.store.getSalt with
      | some salt => do
          let _ ← put (.setMinerKey .board (computeMinerKey board.mac6 salt))
          pure (computeMinerKey board.mac6 salt)
      | none => do
          let _ ← put (.setSalt freshSalt.val)
          let _ ← put (.setMinerKey .board (computeMinerKey board.mac6 freshSalt.val))
          pure (computeMinerKey board.mac6 freshSalt.val)

/-- `same` of `evaluate`: a key is stored and is this one. -/
def sameKey (s : Store) (key : Text) : Bool := s.getMinerKey ≠ [] ∧ s.getMinerKey = key

/-- `evaluate`: the verdict on a key that is offered. -/
def evaluate (board : Board) (s : Store) (key : Text) (transport : KeyTransport) : KeyWriteVerdict :=
  let hasKey : Bool := s.getMinerKey ≠ []
  mayWriteKey board.model transport hasKey (hasKey && s.getKeyOk) (isAcceptableOwnerKey key)
    (sameKey s key)

/-- `checkOwnerKey`: `evaluate` alone. -/
def checkOwnerKey (board : Board) (s : Store) (key : Text) (transport : KeyTransport) :
    KeyWriteVerdict :=
  evaluate board s key transport

/-- What `setOwnerKey` clears and sets once the new key is stored. -/
def forgetInstallation : Prog Unit := do
  clearInstallation
  clearIdentityShadows
  let _ ← put .clearVpn
  let _ ← put (.setKeySrc (text "user"))
  let _ ← put (.setKeyOk false)

def setOwnerKey (board : Board) (key : Text) (transport : KeyTransport) : Prog KeyWriteVerdict := do
  let w ← get
  let verdict := evaluate board w.store key transport
  if verdict ≠ .accept then pure verdict
  else if sameKey w.store key then pure verdict
  else do
    let storedOk ← storeKey .owner key 2
    if !storedOk then pure .storeFailed
    else do
      forgetInstallation
      pure verdict

/-- The id that `ensureInstallId` makes of 16 random bytes. -/
def mintedId (random : Random16) : Text :=
  (Ota.hexDigits random.val).map fun c => if c ≥ 65 ∧ c ≤ 70 then c + 32 else c

def ensureInstallId (random : Random16) : Prog Text := do
  let w ← get
  if w.store.getInstallId.length = 32 then pure w.store.getInstallId
  else do
    let _ ← put (.setInstallId .fresh (mintedId random))
    pure (mintedId random)

end FryFirmware.Identity
