import FryFirmware.Wireguard.Client
import Mathlib.Data.List.Basic
import Mathlib.Tactic.Common

/-!
# Bringing the tunnel up

`loadConfig` and `bringUp` of `src/esp32/vpn_wireguard.cpp`.
-/

set_option autoImplicit false

namespace FryFirmware.Wireguard

open Lib Config
open Relay (prefixToMask)

/-- The strings of the module that `loadConfig` fills. -/
structure TunnelStrings where
  priv : Text
  pub : Text
  psk : Text
  addr : Text
  endpoint : Text
  netmask : Text
  deriving DecidableEq, Repr

/-- The netmask of the stored address, or the historical one. -/
def netmaskOf (addr : Text) : Text :=
  match parseIpv4Cidr (some addr) (0, 0) with
  | (false, _) => text "255.255.255.0"
  | (true, _, bits) =>
      let netmaskBuf := formatIpv4 (prefixToMask bits) [] 16
      if netmaskBuf.2 > 0 then netmaskBuf.1 else text "255.255.255.0"

/-- The stored address without its prefix length. -/
def hostOf (addr : Text) : Text :=
  match addr.findIdx? fun c => c = 47 with
  | some slash => substring addr 0 slash
  | none => addr

/-- `none` where it returns false. -/
def loadConfig (v : Vpn) : Option TunnelStrings :=
  if v.getWgPriv.length = 0 ∨ v.getWgPeerPub.length = 0 ∨ v.getWgEndpoint.length = 0 then none
  else
    some
      { priv := v.getWgPriv
        pub := v.getWgPeerPub
        psk := v.getWgPsk
        addr := hostOf v.getWgAddr
        endpoint := v.getWgEndpoint
        netmask := netmaskOf v.getWgAddr }

/-- The fields of `wireguard_config_t` that are set. -/
structure WireguardConfig where
  privateKey : Text
  publicKey : Text
  presharedKey : CString
  address : Text
  netmask : Text
  endpoint : Text
  port : UInt16
  persistentKeepalive : UInt16
  deriving DecidableEq, Repr

/-- The calls of the library. `connect` works with the configuration of `init`, which
keeps a pointer to it. -/
inductive EspWireguard where
  | init (config : WireguardConfig)
  | connect (config : WireguardConfig)
  | addAllowedIp (entry : AllowedIp)
  deriving DecidableEq, Repr

structure Tunnel where
  initAttempted : Bool := false
  initialized : Bool := false
  calls : List EspWireguard := []
  deriving DecidableEq, Repr

/-- Whether the clock is set, and what the library answers: `init`, and `connect` at
each attempt. -/
structure BringUpAnswers where
  ntpSynced : Bool
  init : Int32
  connect : Nat → Int32

def ESP_OK : Int32 := 0

def ESP_ERR_RETRY : Int32 := 0x201

def WG_CONNECT_ATTEMPTS : Nat := 10

/-- The loop over the attempts with so many left: the number of calls, and the result of
the last one. -/
def connectFrom (answers : Nat → Int32) : (left attempt : Nat) → (err : Int32) → Nat × Int32
  | 0, _, err => (0, err)
  | left + 1, attempt, _ =>
      let err := answers attempt
      if err ≠ ESP_ERR_RETRY then (1, err)
      else
        let rest := connectFrom answers left (attempt + 1) err
        (rest.1 + 1, rest.2)

def wireguardConfigOf (v : Vpn) (s : TunnelStrings) : WireguardConfig where
  privateKey := s.priv
  publicKey := s.pub
  presharedKey := if s.psk.length ≠ 0 then some s.psk else none
  address := s.addr
  netmask := s.netmask
  endpoint := s.endpoint
  port := v.getWgPort.toUInt16
  persistentKeepalive := v.getWgKeepalive.toUInt16

/-- `bringUp` after `loadConfig`. -/
def bringUp (t : Tunnel) (v : Vpn) (s : TunnelStrings) (answers : BringUpAnswers) :
    Tunnel × Bool :=
  if !answers.ntpSynced then (t, false)
  else
    let config := wireguardConfigOf v s
    let (t, err) :=
      if !t.initAttempted then
        ({ t with initAttempted := true, calls := t.calls ++ [.init config] }, answers.init)
      else (t, ESP_OK)
    if err ≠ ESP_OK then (t, false)
    else
      let (calls, err) := connectFrom answers.connect WG_CONNECT_ATTEMPTS 1 err
      let t := { t with calls := t.calls ++ List.replicate calls (.connect config) }
      if err ≠ ESP_OK then (t, false)
      else
        ({ t with
          initialized := true
          calls := t.calls ++ (applyAllowedIps v.getWgAllowed).map .addAllowedIp }, true)

/-- The calls of one bring-up from the store. -/
def bringUpCalls (t : Tunnel) (v : Vpn) (answers : BringUpAnswers) : List EspWireguard :=
  match loadConfig v with
  | none => []
  | some s => (bringUp { t with calls := [] } v s answers).1.calls

end FryFirmware.Wireguard
