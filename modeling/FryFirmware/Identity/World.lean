import FryFirmware.Identity.KeyPolicy
import FryFirmware.Lib.AtomicWrites
import Mathlib.Data.List.Basic
import Mathlib.Tactic.Common

/-!
# The board, its store and the server

The state that the identity programs share, and their actions: one for each write
to the store, and notes for what needs no write. Beside the store and the RAM of
`hardwareapi_client.cpp` the state remembers which owner's identity each stored
item belongs to, and which tokens the server issued for which installation.
-/

set_option autoImplicit false

namespace FryFirmware.Identity

open Lib Config

/-- The static variables of `hardwareapi_client.cpp` that a restart clears. -/
structure Ram where
  staleTokenHealed : Bool := false
  staleTokenHealedAtMs : UInt32 := 0
  shadowPending : Bool := false
  deriving DecidableEq, Repr

/-- The number of the identity under which an item was stored. -/
structure Origins where
  installId : Nat := 0
  deviceToken : Nat := 0
  shdwInstallId : Nat := 0
  shdwDevToken : Nat := 0
  vpn : Nat := 0
  keyOk : Nat := 0
  deriving DecidableEq, Repr

/-- `identity` counts the owner keys stored over another one. -/
structure World where
  store : Store := {}
  ram : Ram := {}
  identity : Nat := 0
  origins : Origins := {}
  issued : List (Text × Text) := []
  deriving DecidableEq, Repr

/-- Where an installation id or a token comes from: a fresh one, or the shadow. -/
inductive Source where
  | fresh
  | shadow
  deriving DecidableEq, Repr

/-- Who stores a miner key: the board one of its own, or the owner. -/
inductive Writer where
  | board
  | owner
  deriving DecidableEq, Repr

inductive Action where
  | setMinerKey (writer : Writer) (key : Text)
  | setSalt (salt : List UInt8)
  | setKeySrc (src : Text)
  | setKeyOk (ok : Bool)
  | setInstallId (source : Source) (id : Text)
  | setDeviceToken (source : Source) (token : Text)
  | removeInstallId
  | removeDeviceToken
  | putShadowId (id : Text)
  | putShadowToken (token : Text)
  | removeShadowId
  | removeShadowToken
  | putHealAt (epoch : UInt32)
  | clearVpn
  | boot
  | latchHeal (nowMs : UInt32)
  | releaseLatch
  | shadowsSettled
  | issue (id token : Text)
  | attempt
  deriving DecidableEq, Repr

def Action.apply : Action → World → World
  | .setMinerKey .board key, w => { w with store := { w.store with minerKey := some key } }
  | .setMinerKey .owner key, w =>
      { w with store := { w.store with minerKey := some key }, identity := w.identity + 1 }
  | .setSalt salt, w => { w with store := { w.store with salt := some salt } }
  | .setKeySrc src, w => { w with store := { w.store with keySrc := some src } }
  | .setKeyOk ok, w =>
      { w with store := { w.store with keyOk := some ok }, origins := { w.origins with keyOk := w.identity } }
  | .setInstallId .fresh id, w =>
      { w with
        store := { w.store with installId := some id }
        origins := { w.origins with installId := w.identity } }
  | .setInstallId .shadow id, w =>
      { w with
        store := { w.store with installId := some id }
        origins := { w.origins with installId := w.origins.shdwInstallId } }
  | .setDeviceToken .fresh token, w =>
      { w with
        store := { w.store with deviceToken := some token }
        origins := { w.origins with deviceToken := w.identity } }
  | .setDeviceToken .shadow token, w =>
      { w with
        store := { w.store with deviceToken := some token }
        origins := { w.origins with deviceToken := w.origins.shdwDevToken } }
  | .removeInstallId, w => { w with store := { w.store with installId := none } }
  | .removeDeviceToken, w => { w with store := { w.store with deviceToken := none } }
  | .putShadowId id, w =>
      { w with
        store := { w.store with shdwInstallId := some id }
        origins := { w.origins with shdwInstallId := w.origins.installId } }
  | .putShadowToken token, w =>
      { w with
        store := { w.store with shdwDevToken := some token }
        origins := { w.origins with shdwDevToken := w.origins.deviceToken } }
  | .removeShadowId, w => { w with store := { w.store with shdwInstallId := none } }
  | .removeShadowToken, w => { w with store := { w.store with shdwDevToken := none } }
  | .putHealAt epoch, w => { w with store := { w.store with healAt := some epoch } }
  | .clearVpn, w => { w with store := { w.store with vpn := {} } }
  | .boot, w => { w with ram := {} }
  | .latchHeal nowMs, w => { w with ram := ⟨true, nowMs, true⟩ }
  | .releaseLatch, w => { w with ram := { w.ram with staleTokenHealed := false } }
  | .shadowsSettled, w => { w with ram := { w.ram with shadowPending := false } }
  | .issue id token, w => { w with issued := (id, token) :: w.issued }
  | .attempt, w => w

abbrev Prog (α : Type) : Type := Program World Action α

/-- What is compiled in or burnt in: the key model, the last three bytes of the MAC
address and the default API base. -/
structure Board where
  model : KeyModel
  mac6 : List UInt8
  hardwareapiBase : Text
  deriving DecidableEq, Repr

/-- Sixteen bytes of the hardware random generator. -/
abbrev Random16 : Type := { bytes : List UInt8 // bytes.length = 16 }

def sixteen (byte : UInt8) : Random16 := ⟨List.replicate 16 byte, List.length_replicate⟩

def liveComplete (s : Store) : Prop := s.getInstallId ≠ [] ∧ s.getDeviceToken ≠ []
def shadowComplete (s : Store) : Prop := s.getShadowId ≠ [] ∧ s.getShadowToken ≠ []

instance (s : Store) : Decidable (liveComplete s) := inferInstanceAs (Decidable (_ ∧ _))
instance (s : Store) : Decidable (shadowComplete s) := inferInstanceAs (Decidable (_ ∧ _))

end FryFirmware.Identity
