import FryFirmware.Config.Store
import FryFirmware.Ota.Sha256
import Mathlib.Data.List.Basic
import Mathlib.Tactic.Common

/-!
# Which key a board runs on

`lib/fry_core/key_policy.cpp` and `miner_identity.cpp`: the shapes of a miner key,
what the boot does with the stored one, and which keys an owner may write.
-/

set_option autoImplicit false

namespace FryFirmware.Identity

open Config

inductive KeyModel where
  | deviceKeeps
  | userSupplied
  deriving DecidableEq, Repr

def isDigit (c : UInt8) : Bool := c ≥ 48 ∧ c ≤ 57
def isAlnum (c : UInt8) : Bool := isDigit c || (c ≥ 65 ∧ c ≤ 90) || (c ≥ 97 ∧ c ≤ 122)
def isHexUpper (c : UInt8) : Bool := isDigit c || (c ≥ 65 ∧ c ≤ 70)
def isHexAnyCase (c : UInt8) : Bool := isHexUpper c || (c ≥ 97 ∧ c ≤ 102)

/-- Four characters of prefix and 32 of one class. -/
def hasKeyShape (keyPrefix : String) (inClass : UInt8 → Bool) (key : Text) : Bool :=
  key.length = 36 && key.take 4 == text keyPrefix && (key.drop 4).all inClass

def isAcceptableOwnerKey (key : Text) : Bool := hasKeyShape "FEM-" isAlnum key

def isLegacyMinerKey (key : Text) : Bool := hasKeyShape "IOT-" isHexAnyCase key

def migrateLegacyMinerKey (key : Text) : Option Text :=
  if isLegacyMinerKey key then some (text "FEM-" ++ key.drop 4) else none

/-- `computeMinerKey`: the first 16 bytes of the hash of MAC and salt. -/
def computeMinerKey (mac6 salt : List UInt8) : Text :=
  text "FEM-" ++ Ota.hexDigits ((Ota.Sha256.hash (mac6 ++ salt)).take 16)

inductive BootKeyAction where
  | keep
  | migrateLegacy
  | mint
  | wait
  | recover
  deriving DecidableEq, Repr

def decideBootKey (model : KeyModel) (present : Bool) (stored : Text) : BootKeyAction :=
  if present ∧ stored ≠ [] then (if isLegacyMinerKey stored then .migrateLegacy else .keep)
  else if model = .deviceKeeps then .mint else .wait

/-- `decideBootKey` with the salt and the origin of the key. -/
def decideBootKeySalted (model : KeyModel) (present : Bool) (stored : Text) (saltPresent keySrcUser : Bool) :
    BootKeyAction :=
  let action := decideBootKey model present stored
  if (action = .wait ∨ action = .mint) ∧ saltPresent ∧ !keySrcUser then .recover else action

def keyAllowsJoin (model : KeyModel) (hasKey : Bool) : Bool := model = .deviceKeeps || hasKey

inductive KeyTransport where
  | usb
  | ble
  | softApSecure
  | softApOpen
  deriving DecidableEq, Repr

inductive KeyWriteVerdict where
  | accept
  | badKey
  | locked
  | needsSecureAp
  | storeFailed
  deriving DecidableEq, Repr

def mayWriteKey (model : KeyModel) (transport : KeyTransport)
    (hasKey keyConfirmed valid sameAsStored : Bool) : KeyWriteVerdict :=
  if transport = .softApOpen then .needsSecureAp
  else if !valid then .badKey
  else if hasKey && sameAsStored then .accept
  else if model = .deviceKeeps then .locked
  else if hasKey && keyConfirmed && transport ≠ .usb then .locked
  else .accept

end FryFirmware.Identity
