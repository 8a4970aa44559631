import FryFirmware.Relay.Slot

/-!
# Runs of one slot under the shim

`src/esp32/vpn_wireguard.cpp`: `doRecv`, `doSend` and `forwardFin` perform the
system calls and report their results to the core. A session is a slot together
with the history of the bytes that crossed its two sockets. The network is
arbitrary: every system call takes its answer from the operation that runs it.
-/

set_option autoImplicit false

namespace FryFirmware.Relay

open Lib

/-- What `recv` finds on the socket. `returns []` is the peer's FIN; `errno` is
whatever an older call left there. -/
inductive RecvAnswer where
  | returns (bytes : List UInt8) (err : Errno)
  | fails (code : Nat) (err : Errno)

/-- `recv` of at most `room` bytes: the bytes stored, the return value, `errno`. -/
def recvCall (room : Nat) : RecvAnswer → List UInt8 × Int × Errno
  | .returns bytes err => (bytes.take room, (bytes.take room).length, err)
  | .fails code err => ([], Int.negSucc code, err)

/-- How many of the offered bytes `send` takes. -/
inductive SendAnswer where
  | takes (count : Nat) (err : Errno)
  | fails (code : Nat) (err : Errno)

/-- `send` of `len` bytes: the number taken, the return value, `errno`. -/
def sendCall (len : Nat) : SendAnswer → Nat × Int × Errno
  | .takes count err => (min count len, (min count len : Nat), err)
  | .fails code err => (0, Int.negSucc code, err)

def storeInbound (s : Slot) (side : Side) (position : Nat) (data : List UInt8) : Slot :=
  match side with
  | .client => { s with c2u := s.c2u.store position data }
  | .up => { s with u2c := s.u2c.store position data }

/-- `doRecv`: the slot after the call and the bytes `recv` stored. -/
def doRecv (s : Slot) (side : Side) (answer : RecvAnswer) (now : UInt32) :
    Slot × List UInt8 :=
  let dest := recvDest s side
  if dest.2.2 = 0 then (dest.1, [])
  else
    let result := recvCall dest.2.2 answer
    (onRecv (storeInbound dest.1 side dest.2.1 result.1) side result.2.1 result.2.2 now, result.1)

/-- Bytes `[position, position + count)` of the buffer that feeds a side. -/
def outboundBytes (s : Slot) (toward : Side) (position count : Nat) : List UInt8 :=
  match toward with
  | .up => s.c2u.window position (position + count)
  | .client => s.u2c.window position (position + count)

/-- `doSend`: the slot after the call and the bytes `send` took. -/
def doSend (s : Slot) (toward : Side) (answer : SendAnswer) (now : UInt32) :
    Slot × List UInt8 :=
  let source := sendSrc s toward
  if source.2 = 0 then (s, [])
  else
    let result := sendCall source.2 answer
    (onSend s toward result.2.1 result.2.2 now, outboundBytes s toward source.1 result.1)

/-- Reads discarded before a FIN toward an open peer becomes a `close`. -/
def kRelayDrainReads : Nat := 8

/-- `drainAndClose` over the idle buffer that feeds `side`. -/
def drainAndClose (s : Slot) (side : Side) (drained : List (List UInt8)) : Slot :=
  match side with
  | .client =>
      if s.clientFd ≥ 0 then
        { s with
          clientFd := kNoFd
          u2c := (drained.take kRelayDrainReads).foldl (fun scratch read => scratch.store 0 read) s.u2c }
      else s
  | .up =>
      if s.upFd ≥ 0 then
        { s with
          upFd := kNoFd
          c2u := (drained.take kRelayDrainReads).foldl (fun scratch read => scratch.store 0 read) s.c2u }
      else s

/-- `forwardFin`: the slot after the call and the answer it acted on. -/
def forwardFin (s : Slot) (side : Side) (drained : List (List UInt8)) (now : UInt32) :
    Slot × FinAction :=
  match takeFinAction s side with
  | (s, .none) => (s, .none)
  | (s, .halfClose) => (s, .halfClose)
  | (s, .close) => (onSideClosed (drainAndClose s side drained) side now, .close)

/-- Why the shim itself closes a slot. -/
inductive ForceReason where
  | evicted
  | fdGuard
  | ioError
  deriving DecidableEq, Repr

def ForceReason.reason : ForceReason → CloseReason
  | .evicted => .evicted
  | .fdGuard => .fdGuard
  | .ioError => .ioError

/-- One operation of the shim on a slot. `takeShutdown` is how the
`FRY_RELAY_HALFCLOSE` build carries out a FIN. -/
inductive ShimOp where
  | recv (side : Side) (answer : RecvAnswer) (now : UInt32)
  | send (toward : Side) (answer : SendAnswer) (now : UInt32)
  | timer (t : Timing) (now : UInt32)
  | connectStarted (upFd : Int) (now : UInt32)
  | connectResult (ok : Bool) (now : UInt32)
  | forwardFin (side : Side) (drained : List (List UInt8)) (now : UInt32)
  | takeShutdown (side : Side)
  | forceClose (why : ForceReason)

/-- The shim's operations and the core's FIN calls in any order. -/
inductive CoreOp where
  | shim (op : ShimOp)
  | takeFinAction (side : Side)
  | sideClosed (side : Side) (now : UInt32)

/-- The bytes that crossed the two sockets. `upKept` is the part of `upIn` that
arrived before the core began to drop it. -/
structure History where
  clientIn : List UInt8 := []
  upIn : List UInt8 := []
  upKept : List UInt8 := []
  upOut : List UInt8 := []
  clientOut : List UInt8 := []
  deriving DecidableEq, Repr

def History.received (h : History) (dropping : Bool) (data : List UInt8) : Side → History
  | .client => { h with clientIn := h.clientIn ++ data }
  | .up =>
      { h with
        upIn := h.upIn ++ data
        upKept := if dropping then h.upKept else h.upKept ++ data }

def History.sent (h : History) (bytes : List UInt8) : Side → History
  | .up => { h with upOut := h.upOut ++ bytes }
  | .client => { h with clientOut := h.clientOut ++ bytes }

/-- A slot, its byte history, the FINs seen and the FINs handed out. -/
structure Session where
  slot : Slot
  history : History := {}
  clientEof : Bool := false
  upEof : Bool := false
  finsUp : Nat := 0
  finsClient : Nat := 0
  deriving DecidableEq

/-- `acceptClients`: `slotInit` on a fresh slot, then the build's grace time. -/
def Session.start (c2u u2c : Memory UInt8 kBufSize) (clientFd : Int) (now finGraceMs : UInt32) :
    Session :=
  { slot := { slotInit c2u u2c clientFd now with finGraceMs } }

/-- `recv` was called and answered that the peer has finished. -/
def sawEof (s : Slot) (side : Side) (answer : RecvAnswer) : Bool :=
  let room := (recvDest s side).2.2
  room ≠ 0 && (recvCall room answer).2.1 = 0

/-- Record what a `recv` said about the peer's FIN. -/
def Session.noteEof (w : Session) (seen : Bool) : Side → Session
  | .client => { w with clientEof := w.clientEof || seen }
  | .up => { w with upEof := w.upEof || seen }

/-- Record a FIN handed out toward a side. -/
def Session.countFin (w : Session) (taken : Bool) : Side → Session
  | .up => { w with finsUp := w.finsUp + taken.toNat }
  | .client => { w with finsClient := w.finsClient + taken.toNat }

def Session.recvStep (w : Session) (side : Side) (answer : RecvAnswer) (now : UInt32) : Session :=
  let result := doRecv w.slot side answer now
  { w with
    slot := result.1
    history := w.history.received w.slot.dropUp result.2 side }.noteEof
      (sawEof w.slot side answer) side

def Session.sendStep (w : Session) (toward : Side) (answer : SendAnswer) (now : UInt32) : Session :=
  let result := doSend w.slot toward answer now
  { w with slot := result.1, history := w.history.sent result.2 toward }

def Session.shimStep (w : Session) : ShimOp → Session
  | .recv side answer now => w.recvStep side answer now
  | .send toward answer now => w.sendStep toward answer now
  | .timer t now => { w with slot := onTimer w.slot t now }
  | .connectStarted upFd now => { w with slot := onConnectStarted w.slot upFd now }
  | .connectResult ok now => { w with slot := onConnectResult w.slot ok now }
  | .forwardFin side drained now =>
      let result := Relay.forwardFin w.slot side drained now
      { w with slot := result.1 }.countFin (decide (result.2 ≠ FinAction.none)) side
  | .takeShutdown side =>
      let result := Relay.takeShutdown w.slot side
      { w with slot := result.1 }.countFin result.2 side
  | .forceClose why => { w with slot := slotForceClose w.slot why.reason }

def Session.step (w : Session) : CoreOp → Session
  | .shim op => w.shimStep op
  | .takeFinAction side =>
      let result := Relay.takeFinAction w.slot side
      { w with slot := result.1 }.countFin (decide (result.2 ≠ FinAction.none)) side
  | .sideClosed side now => { w with slot := onSideClosed w.slot side now }

def Session.run (w : Session) (ops : List CoreOp) : Session :=
  ops.foldl Session.step w

def Session.shimRun (w : Session) (ops : List ShimOp) : Session :=
  ops.foldl Session.shimStep w

/-- A shim run is a run of the core. -/
theorem Session.shimRun_eq_run (w : Session) (ops : List ShimOp) :
    w.shimRun ops = w.run (ops.map .shim) := by
  simp only [Session.run, List.foldl_map]
  rfl

end FryFirmware.Relay
