import FryFirmware.Relay.Socks5
import Mathlib.Tactic.Common

/-!
# The single-client relay of the ESP8266

`src/esp8266/vpn_socks5.cpp`, one call of `tick` at a time. What the two sockets hold,
hand over and accept is the input of the call; `connects` is the network's answer to a
target. Beside the state of the source, the relay here remembers what it has read from
either side and what either side has accepted since the client came.
-/

set_option autoImplicit false

namespace FryFirmware.Relay.Esp8266

abbrev Bytes := List UInt8
abbrev Target := Bytes × UInt16

inductive RelayState where
  | listening
  | greeting
  | awaitingConnect
  | relaying
  deriving DecidableEq, Repr

def kIdleTimeoutMs : UInt32 := 30000
def kCopyBufSize : Nat := 512
def kGreetingBufMax : Nat := 16
def kConnectBufMax : Nat := 262

structure VpnSocks5 where
  server : Bool := false
  state : RelayState := .listening
  buf : Bytes := []
  lastActivityMs : UInt32 := 0
  relayedBytes : UInt32 := 0
  /-- Received from the client and not yet read. -/
  clientIn : Bytes := []
  upstreamIn : Bytes := []
  clientRead : Bytes := []
  upstreamRead : Bytes := []
  toClient : Bytes := []
  toUpstream : Bytes := []
  /-- The target of the last call of `connect`. -/
  target : Option Target := none
  deriving DecidableEq, Repr

/-- The circumstances of one call: the clock at its two readings, the sockets. -/
structure Tick where
  now : UInt32 := 0
  later : UInt32 := 0
  hasClient : Bool := false
  clientConnected : Bool := true
  upstreamConnected : Bool := true
  /-- Arrived since the last call. -/
  fromClient : Bytes := []
  fromUpstream : Bytes := []
  /-- How many bytes `read` hands over at most. -/
  clientGives : Nat := kCopyBufSize
  upstreamGives : Nat := kCopyBufSize
  /-- How many bytes `write` accepts at most. -/
  clientAccepts : Nat := kCopyBufSize
  upstreamAccepts : Nat := kCopyBufSize
  deriving DecidableEq, Repr

/-! ## Sockets -/

/-- What `read` with this limit hands over. -/
def clientChunk (relay : VpnSocks5) (limit : Nat) (tick : Tick) : Bytes :=
  relay.clientIn.take (min limit tick.clientGives)

def upstreamChunk (relay : VpnSocks5) (limit : Nat) (tick : Tick) : Bytes :=
  relay.upstreamIn.take (min limit tick.upstreamGives)

def readClient (relay : VpnSocks5) (chunk : Bytes) : VpnSocks5 :=
  { relay with
    clientIn := relay.clientIn.drop chunk.length
    clientRead := relay.clientRead ++ chunk }

def readUpstream (relay : VpnSocks5) (chunk : Bytes) : VpnSocks5 :=
  { relay with
    upstreamIn := relay.upstreamIn.drop chunk.length
    upstreamRead := relay.upstreamRead ++ chunk }

def writeClient (relay : VpnSocks5) (bytes : Bytes) (tick : Tick) : VpnSocks5 :=
  { relay with toClient := relay.toClient ++ bytes.take tick.clientAccepts }

def writeUpstream (relay : VpnSocks5) (bytes : Bytes) (tick : Tick) : VpnSocks5 :=
  { relay with toUpstream := relay.toUpstream ++ bytes.take tick.upstreamAccepts }

/-! ## The state machine -/

def resetToListening (relay : VpnSocks5) : VpnSocks5 := { relay with buf := [], state := .listening }

def methodReply : Bytes := [0x05, 0x00]
def noMethodReply : Bytes := [0x05, 0xFF]

def connectReply (ok : Bool) : Bytes := [0x05, if ok then 0x00 else 0x01, 0x00, 0x01, 0, 0, 0, 0, 0, 0]

def sendConnectReply (relay : VpnSocks5) (ok : Bool) (tick : Tick) : VpnSocks5 := writeClient relay (connectReply ok) tick

/-- `Listening`: a new client. -/
def listen (relay : VpnSocks5) (tick : Tick) : VpnSocks5 :=
  if tick.hasClient then
    { relay with
      buf := [], state := .greeting, lastActivityMs := tick.now, clientIn := [], upstreamIn := []
      clientRead := [], upstreamRead := [], toClient := [], toUpstream := [], target := none }
  else relay

/-- Appends what the client sent to `s_buf`, which holds `limit` bytes in this state. -/
def fill (relay : VpnSocks5) (limit : Nat) (tick : Tick) : VpnSocks5 :=
  if relay.clientIn ≠ [] then
    let chunk := clientChunk relay (limit - relay.buf.length) tick
    { readClient relay chunk with buf := relay.buf ++ chunk, lastActivityMs := tick.now }
  else relay

def greet (relay : VpnSocks5) (tick : Tick) : VpnSocks5 :=
  if !tick.clientConnected then resetToListening relay
  else
    let relay := fill relay kGreetingBufMax tick
    match (parseGreeting relay.buf {} 0).1 with
    | .ok => { writeClient relay methodReply tick with buf := [], state := .awaitingConnect }
    | .needMoreData => if relay.buf.length ≥ kGreetingBufMax then resetToListening relay else relay
    | _ => resetToListening (writeClient relay noMethodReply tick)

variable (connects : Target → Bool)

/-- The target of an accepted request. -/
def targetOf (request : Socks5ConnectRequest) : Target := (cString request.host, request.port)

def awaitConnect (relay : VpnSocks5) (tick : Tick) : VpnSocks5 :=
  if !tick.clientConnected then resetToListening relay
  else
    let relay := fill relay kConnectBufMax tick
    match parseConnectRequest relay.buf {} 0 with
    | (.ok, request, _) =>
        let ok := connects (targetOf request)
        let relay := sendConnectReply { relay with target := some (targetOf request), upstreamIn := [] } ok tick
        if ok then { relay with state := .relaying, lastActivityMs := tick.later } else resetToListening relay
    | (.needMoreData, _, _) => if relay.buf.length ≥ kConnectBufMax then resetToListening relay else relay
    | _ => resetToListening (sendConnectReply relay false tick)

def pumpClient (relay : VpnSocks5) (tick : Tick) : VpnSocks5 :=
  let chunk := clientChunk relay kCopyBufSize tick
  { writeUpstream (readClient relay chunk) chunk tick with
    relayedBytes := relay.relayedBytes + UInt32.ofNat chunk.length }

def pumpUpstream (relay : VpnSocks5) (tick : Tick) : VpnSocks5 :=
  let chunk := upstreamChunk relay kCopyBufSize tick
  { writeClient (readUpstream relay chunk) chunk tick with
    relayedBytes := relay.relayedBytes + UInt32.ofNat chunk.length }

def pumpRelay (relay : VpnSocks5) (tick : Tick) : VpnSocks5 :=
  let activity := clientChunk relay kCopyBufSize tick ≠ [] ∨ upstreamChunk relay kCopyBufSize tick ≠ []
  let relay := pumpUpstream (pumpClient relay tick) tick
  let relay := if activity then { relay with lastActivityMs := tick.now } else relay
  if !tick.clientConnected || !tick.upstreamConnected || tick.later - relay.lastActivityMs > kIdleTimeoutMs then
    resetToListening relay
  else relay

/-- What arrived is there to be read. -/
def arrive (relay : VpnSocks5) (tick : Tick) : VpnSocks5 :=
  { relay with
    clientIn := relay.clientIn ++ tick.fromClient
    upstreamIn := relay.upstreamIn ++ tick.fromUpstream }

def tick (relay : VpnSocks5) (tick : Tick) : VpnSocks5 :=
  if !relay.server then relay
  else
    let relay := arrive relay tick
    match relay.state with
    | .listening => listen relay tick
    | .greeting => greet relay tick
    | .awaitingConnect => awaitConnect connects relay tick
    | .relaying => pumpRelay relay tick

def init (relay : VpnSocks5) : VpnSocks5 := { relay with server := true }

def run (ticks : List Tick) : VpnSocks5 := ticks.foldl (tick connects) (init {})

end FryFirmware.Relay.Esp8266
