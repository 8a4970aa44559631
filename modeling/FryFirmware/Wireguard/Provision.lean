import FryFirmware.Config.Store
import Mathlib.Data.List.Basic
import Mathlib.Tactic.Common

/-!
# Committing a WireGuard configuration

`setWgProvisioned` and `hasVpnConfig` of `src/core/fry_config.cpp`, the first line
of `tick` in `src/esp32/wg_provision_client.cpp`, and the gates before bring-up in
`src/esp32/vpn_wireguard.cpp`, on a production build.
-/

set_option autoImplicit false

namespace FryFirmware.Wireguard

open Lib Config

/-- The arguments of `setWgProvisioned`: what an accepted response comes to. -/
structure Response where
  peerPub : Text
  psk : Text
  endpointHost : Text
  endpointPort : UInt16
  addrCidr : Text
  allowedCsv : Text
  keepaliveS : UInt32
  deriving DecidableEq, Repr

inductive WgWrite where
  | psk (value : Text)
  | endpoint (value : Text)
  | port (value : UInt32)
  | addr (value : Text)
  | allowed (value : Text)
  | keepalive (value : UInt32)
  | peerPub (value : Text)
  | provAt (value : UInt32)
  deriving DecidableEq, Repr

def WgWrite.apply : WgWrite → Vpn → Vpn
  | .psk value, v => { v with wgPsk := some value }
  | .endpoint value, v => { v with wgEndpoint := some value }
  | .port value, v => { v with wgPort := some value }
  | .addr value, v => { v with wgAddr := some value }
  | .allowed value, v => { v with wgAllowed := some value }
  | .keepalive value, v => { v with wgKeepalive := some value }
  | .peerPub value, v => { v with wgPeerPub := some value }
  | .provAt value, v => { v with wgProvAt := some value }

/-- `setWgProvisioned`; `epochS` is `time(nullptr)` cut to 32 bits. -/
def setWgProvisioned (r : Response) (epochS : UInt32) : Program Vpn WgWrite Unit := do
  let _ ← Program.put (.psk r.psk)
  let _ ← Program.put (.endpoint r.endpointHost)
  let _ ← Program.put (.port r.endpointPort.toUInt32)
  let _ ← Program.put (.addr r.addrCidr)
  let _ ← Program.put (.allowed r.allowedCsv)
  let _ ← Program.put (.keepalive r.keepaliveS)
  let _ ← Program.put (.peerPub r.peerPub)
  let _ ← Program.put (.provAt epochS)

/-- `fry_wg_provision::tick` goes past its first line. -/
def retriesProvisioning (v : Vpn) : Bool := !v.hasVpnConfig

/-- `provisioningGateOpen` of a production build. -/
def provisioningGateOpen (v : Vpn) : Bool := v.getWgProvAt ≠ 0

/-- The readers return every field of the response. -/
structure Stored (r : Response) (v : Vpn) : Prop where
  peerPub : v.getWgPeerPub = r.peerPub
  psk : v.getWgPsk = r.psk
  endpoint : v.getWgEndpoint = r.endpointHost
  port : v.getWgPort = r.endpointPort.toUInt32
  addr : v.getWgAddr = r.addrCidr
  allowed : v.getWgAllowed = r.allowedCsv
  keepalive : v.getWgKeepalive = r.keepaliveS

/-- The board asks again, or has everything it asked for. -/
def Recoverable (r : Response) (v : Vpn) : Prop :=
  retriesProvisioning v = true ∨ (provisioningGateOpen v = true ∧ Stored r v)

end FryFirmware.Wireguard
