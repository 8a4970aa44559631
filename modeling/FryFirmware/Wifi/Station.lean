import FryFirmware.Lib.Clock
import FryFirmware.Lib.OrderedTrace
import FryFirmware.Ota.TlsGate
import FryFirmware.Provisioning.Fsm

/-!
# Joining a network and staying on it

`src/esp8266/wifi_connect.cpp` with `lib/fry_core/wifi_reason.cpp`: the wait of `connect`,
the watchdog of `maintain`, and what the callbacks of the SDK leave for both of them.
-/

set_option autoImplicit false

namespace FryFirmware.Wifi

open Lib
open Ota (LinkUp LinkStamps)
open Provisioning (ProvErr)

def WIFI_CONNECT_TIMEOUT_MS : UInt32 := 20000

/-- What an association adds to the wait, once. -/
def kDhcpExtensionMs : UInt32 := 45000

def kConnectPollMs : UInt32 := 250

/-- How often `maintain` looks. -/
def kMaintainMs : UInt32 := 5000

def kReconnectMs : UInt32 := 20000

def classifyWifiDisconnect (reason : UInt8) : ProvErr := if reason = 201 then .badSsid else .wifiAuth

/-- A callback of the SDK. -/
inductive WifiEvent where
  | disconnected (reason : UInt8)
  | connected (time : Nat)
  | dhcpTimeout
  deriving DecidableEq, Repr

/-- The statics of the file, with those of `maintain`. -/
structure Station where
  lastDiscReason : UInt8 := 0
  l2Associated : Bool := false
  dhcpTimedOut : Bool := false
  everConnected : Bool := false
  stamps : LinkStamps := {}
  lastCheck : UInt32 := 0
  lost : UInt32 := 0
  deriving DecidableEq, Repr

namespace Station

def onEvent (s : Station) : WifiEvent → Station
  | .disconnected reason => { s with lastDiscReason := reason }
  | .connected time => { s with l2Associated := true, stamps := s.stamps.stamp (.associated time) }
  | .dhcpTimeout => { s with dhcpTimedOut := true }

def onEvents (s : Station) (events : List WifiEvent) : Station := events.foldl onEvent s

def detected (s : Station) (time : Nat) : Station := { s with stamps := s.stamps.stamp (.detected time) }

end Station

/-! ## Joining -/

/-- One turn of the wait: the callbacks since the last one, the time that its condition reads, the
status, and the time that an address is stamped with. -/
structure Turn where
  events : List WifiEvent
  time : Nat
  connected : Bool
  detected : Nat

/-- The loop of `connect`, from turn `n` on: where it ends, and whether with an address. -/
def connectLoop (start : Nat) (turns : Nat → Turn) :
    (fuel n : Nat) → (budget : UInt32) → (extended : Bool) → Station → Option (Station × Nat × Bool)
  | 0, _, _, _, _ => none
  | fuel + 1, n, budget, extended, s =>
      let turn := turns n
      let s := s.onEvents turn.events
      if counter turn.time - counter start < budget then
        if turn.connected then some ({ s with everConnected := true }.detected turn.detected, n, true)
        else if s.l2Associated && !extended then
          connectLoop start turns fuel (n + 1) (budget + kDhcpExtensionMs) true s
        else connectLoop start turns fuel (n + 1) budget extended s
      else some (s, n, false)

/-- As many turns as the wait can have. -/
def connectTurns (timeoutMs : UInt32) : Nat :=
  (timeoutMs.toNat + kDhcpExtensionMs.toNat) / kConnectPollMs.toNat + 2

/-- `connect`: no error is a connection. -/
def connect (timeoutMs : UInt32) (start : Nat) (turns : Nat → Turn) (s : Station) :
    Option (Station × Option ProvErr) := do
  let s := { s with lastDiscReason := 0, l2Associated := false, dhcpTimedOut := false }
  let (s, _, up) ← connectLoop start turns (connectTurns timeoutMs) 0 timeoutMs false s
  return (s,
    if up then none
    else some (if s.l2Associated || s.dhcpTimedOut then .noIp else classifyWifiDisconnect s.lastDiscReason))

/-! ## Staying -/

/-- What became of it: a link-up was stamped, the watchdog looked, or it asked for a reconnect. -/
inductive Note where
  | linkUp (l : LinkUp)
  | looked (time : Nat) (up : Bool)
  | reconnected (time : Nat)
  deriving DecidableEq, Repr

def maintain (s : Station) (time : Nat) (up : Bool) : Station × List Note :=
  let now := counter time
  if now - s.lastCheck < kMaintainMs then (s, [])
  else
    let s := { s with lastCheck := now }
    if up then
      if s.lost ≠ 0 then
        ({ s.detected time with lost := 0 }, [.looked time up, .linkUp (.detected time)])
      else (s, [.looked time up])
    else if !s.everConnected then (s, [.looked time up])
    else
      let s := if s.lost = 0 then { s with lost := now } else s
      if now - s.lost > kReconnectMs then ({ s with lost := now }, [.looked time up, .reconnected time])
      else (s, [.looked time up])

/-! ## Runs -/

/-- What happens in `Ready`: a callback, or a pass of the loop that finds the link up or down. -/
inductive Happening where
  | event (e : WifiEvent)
  | pass (time : Nat) (up : Bool)
  deriving DecidableEq, Repr

def callbackNotes : WifiEvent → List Note
  | .connected time => [.linkUp (.associated time)]
  | .disconnected _ | .dhcpTimeout => []

def step (s : Station) : Happening → Station × List Note
  | .event e => (s.onEvent e, callbackNotes e)
  | .pass time up => maintain s time up

/-- The station behind these. -/
def watch (s : Station) (happenings : List Happening) : Station × List Note :=
  OrderedTrace.run step s happenings

end FryFirmware.Wifi
