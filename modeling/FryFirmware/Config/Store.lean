import FryFirmware.Lib.AtomicWrites
import Mathlib.Data.List.Basic
import Mathlib.Tactic.Common

/-!
# The persistent store

The keys of the namespaces `fry` and `fry_vpn` that identity, registration and
provisioning use, with the readers of `src/core/fry_config.cpp`. An absent key is
`none`; `remove` and `clear` make keys absent.
-/

set_option autoImplicit false

namespace FryFirmware.Config

/-- The bytes of a string, without the NUL. -/
abbrev Text := List UInt8

def text (string : String) : Text := string.toList.map fun c => c.toNat.toUInt8

/-- The namespace `fry_vpn`. -/
structure Vpn where
  wgPriv : Option Text := none
  wgPub : Option Text := none
  wgPeerPub : Option Text := none
  wgPsk : Option Text := none
  wgEndpoint : Option Text := none
  wgPort : Option UInt32 := none
  wgAddr : Option Text := none
  wgAllowed : Option Text := none
  wgKeepalive : Option UInt32 := none
  wgProvAt : Option UInt32 := none
  deriving DecidableEq, Repr

namespace Vpn

def getWgPriv (v : Vpn) : Text := v.wgPriv.getD []
def getWgPeerPub (v : Vpn) : Text := v.wgPeerPub.getD []
def getWgPsk (v : Vpn) : Text := v.wgPsk.getD []
def getWgEndpoint (v : Vpn) : Text := v.wgEndpoint.getD []
def getWgPort (v : Vpn) : UInt32 := v.wgPort.getD 51820
def getWgAddr (v : Vpn) : Text := v.wgAddr.getD []
def getWgAllowed (v : Vpn) : Text := v.wgAllowed.getD []
def getWgKeepalive (v : Vpn) : UInt32 := v.wgKeepalive.getD 25
def getWgProvAt (v : Vpn) : UInt32 := v.wgProvAt.getD 0

def hasVpnConfig (v : Vpn) : Bool := v.wgPeerPub.isSome && v.wgEndpoint.isSome

end Vpn

/-- The namespace `fry`, with `fry_vpn` beside it. -/
structure Store where
  minerKey : Option Text := none
  salt : Option (List UInt8) := none
  keySrc : Option Text := none
  keyOk : Option Bool := none
  installId : Option Text := none
  deviceToken : Option Text := none
  shdwInstallId : Option Text := none
  shdwDevToken : Option Text := none
  healAt : Option UInt32 := none
  apiBase : Option Text := none
  vpn : Vpn := {}
  deriving DecidableEq, Repr

namespace Store

def getMinerKey (s : Store) : Text := s.minerKey.getD []
def getKeySrc (s : Store) : Text := s.keySrc.getD []
def getKeyOk (s : Store) : Bool := s.keyOk.getD false
def getInstallId (s : Store) : Text := s.installId.getD []
def getDeviceToken (s : Store) : Text := s.deviceToken.getD []
def getShadowId (s : Store) : Text := s.shdwInstallId.getD []
def getShadowToken (s : Store) : Text := s.shdwDevToken.getD []
def getHealAt (s : Store) : UInt32 := s.healAt.getD 0

/-- `getSalt`: 16 bytes, or none. -/
def getSalt (s : Store) : Option (List UInt8) := s.salt.filter fun salt => salt.length = 16

/-- `getApiBase`, with the compiled default. -/
def getApiBase (s : Store) (hardwareapiBase : Text) : Text :=
  if s.apiBase.getD [] = [] then hardwareapiBase else s.apiBase.getD []

end Store

end FryFirmware.Config
