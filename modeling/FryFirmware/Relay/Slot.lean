import FryFirmware.Lib.Machine
import FryFirmware.Relay.Socks5

/-!
# The per-client relay slot

`lib/fry_core/socks_relay_core.cpp`: the state machine of one SOCKS client.
The core never performs a system call; the shim reports the result of each one
together with `errno` and the current millisecond counter.
-/

set_option autoImplicit false

namespace FryFirmware.Relay

open Lib

def kBufSize : Nat := 1024

def kNoFd : Int := -1

structure Timing where
  greetingMs : UInt32 := 5000
  requestMs : UInt32 := 5000
  connectMs : UInt32 := 3000
  flushMs : UInt32 := 2000
  idleMs : UInt32 := 30000
  halfCloseMs : UInt32 := 5000
  finGraceMs : UInt32 := 500
  deriving DecidableEq, Repr

inductive Phase where
  | free
  | greeting
  | request
  | needConnect
  | connecting
  | relay
  | flush
  | closed
  deriving DecidableEq, Repr

inductive Side where
  | client
  | up
  deriving DecidableEq, Repr

inductive CloseReason where
  | none
  | done
  | handshakeTimeout
  | handshakeEof
  | handshakeBad
  | connectFail
  | connectTimeout
  | idle
  | halfCloseTimeout
  | ioError
  | evicted
  | fdGuard
  deriving DecidableEq, Repr

inductive IoResult where
  | data
  | eof
  | wouldBlock
  | closed
  | error
  deriving DecidableEq, Repr

/-- The values of `errno` the core tells apart; every other value is `other`. -/
inductive Errno where
  | eagain
  | ewouldblock
  | eintr
  | einprogress
  | ealready
  | enomem
  | enobufs
  | econnreset
  | epipe
  | enotconn
  | econnaborted
  | econnrefused
  | etimedout
  | ehostunreach
  | enetunreach
  | eisconn
  | other
  deriving DecidableEq, Repr

def classifyErrno : Errno → IoResult
  | .eagain | .ewouldblock | .eintr | .einprogress | .ealready | .enomem | .enobufs => .wouldBlock
  | .econnreset | .epipe | .enotconn | .econnaborted | .econnrefused | .etimedout
  | .ehostunreach | .enetunreach => .closed
  | .eisconn | .other => .error

def classifyRecv (ret : Int) (err : Errno) : IoResult :=
  if ret > 0 then .data
  else if ret = 0 then .eof
  else classifyErrno err

def classifySend (ret : Int) (err : Errno) : IoResult :=
  if ret > 0 then .data
  else if ret = 0 then .wouldBlock
  else classifyErrno err

structure Slot where
  phase : Phase
  reason : CloseReason
  flushReason : CloseReason
  clientFd : Int
  upFd : Int
  acceptedMs : UInt32
  phaseStartMs : UInt32
  lastActivityMs : UInt32
  halfCloseStartMs : UInt32
  halfClosing : Bool
  clientRdOpen : Bool
  upRdOpen : Bool
  pendShutUp : Bool
  pendShutClient : Bool
  upWrShut : Bool
  clientWrShut : Bool
  finGraceMs : UInt32
  graceUp : Bool
  dropUp : Bool
  graceStartMs : UInt32
  c2uOff : Nat
  c2uLen : Nat
  u2cOff : Nat
  u2cLen : Nat
  req : Socks5ConnectRequest
  c2u : Memory UInt8 kBufSize
  u2c : Memory UInt8 kBufSize
  deriving DecidableEq

def kMethodOk : List UInt8 := [0x05, 0x00]
def kMethodNone : List UInt8 := [0x05, 0xFF]
def kReplyOk : List UInt8 := [0x05, 0x00, 0x00, 0x01, 0, 0, 0, 0, 0, 0]
def kReplyFail : List UInt8 := [0x05, 0x01, 0x00, 0x01, 0, 0, 0, 0, 0, 0]

/-- Milliseconds between two readings of the free-running counter. -/
def elapsed (now since : UInt32) : UInt32 := now - since

def isHandshake (s : Slot) : Bool :=
  s.phase = .greeting || s.phase = .request

def isLive (s : Slot) : Bool :=
  s.phase ≠ .free && s.phase ≠ .closed

def closeSlot (s : Slot) (why : CloseReason) : Slot :=
  if s.phase = .closed then s
  else { s with phase := .closed, reason := why }

/-- Compaction of the client-bound buffer, the first half of `queueClient`. -/
def compactClient (s : Slot) : Slot :=
  { s with
    u2c := s.u2c.moveFront s.u2cOff (wrapSub 32 s.u2cLen s.u2cOff)
    u2cLen := truncate 16 (wrapSub 32 s.u2cLen s.u2cOff)
    u2cOff := 0 }

def queueClient (s : Slot) (d : List UInt8) : Slot :=
  let s := if s.u2cLen + d.length > kBufSize ∧ s.u2cOff > 0 then compactClient s else s
  if s.u2cLen + d.length > kBufSize then s
  else
    { s with
      u2c := s.u2c.store s.u2cLen d
      u2cLen := truncate 16 (s.u2cLen + d.length) }

def consumeFront (s : Slot) (n : Nat) : Slot :=
  let n := if n > s.c2uLen then s.c2uLen else n
  { s with
    c2u := s.c2u.moveFront n (wrapSub 32 s.c2uLen n)
    c2uLen := truncate 16 (wrapSub 32 s.c2uLen n)
    c2uOff := 0 }

def enterFlush (s : Slot) (why : CloseReason) (now : UInt32) : Slot :=
  { s with
    c2uOff := 0
    c2uLen := 0
    flushReason := why
    phase := .flush
    phaseStartMs := now }

/-- The `Phase::Request` arm of `advance`, which always leaves its loop. -/
def advanceRequest (s : Slot) (now : UInt32) : Slot :=
  if s.phase = .request then
    let (r, req, used) := parseConnectRequest (s.c2u.window 0 s.c2uLen) s.req 0
    let s := { s with req }
    match r with
    | .needMoreData => s
    | .ok =>
        { consumeFront s used with phase := .needConnect, phaseStartMs := now }
    | _ => enterFlush (queueClient s kReplyFail) .handshakeBad now
  else s

/-- The loop of `advance`: the greeting arm continues only into the request
arm, and the request arm returns. -/
def advance (s : Slot) (now : UInt32) : Slot :=
  if s.phase = .greeting then
    let (r, _, used) := parseGreeting (s.c2u.window 0 s.c2uLen) {} 0
    match r with
    | .needMoreData => s
    | .ok =>
        advanceRequest
          { consumeFront (queueClient s kMethodOk) used with
            phase := .request, phaseStartMs := now } now
    | _ => enterFlush (queueClient s kMethodNone) .handshakeBad now
  else advanceRequest s now

def touch (s : Slot) (now : UInt32) : Slot :=
  let s := { s with lastActivityMs := now }
  if s.halfClosing then { s with halfCloseStartMs := now } else s

/-- The `Up` half of `relayUpdate`: start the grace wait, or arm the FIN. -/
def armUp (s : Slot) (now : UInt32) : Slot :=
  if !s.clientRdOpen && decide (s.c2uOff = s.c2uLen) && !s.upWrShut then
    if s.upRdOpen && s.finGraceMs ≠ 0 && !s.pendShutUp then
      if !s.graceUp then
        { s with graceUp := true, dropUp := true, graceStartMs := now }
      else s
    else { s with graceUp := false, pendShutUp := true }
  else s

/-- The `Client` half of `relayUpdate`. -/
def armClient (s : Slot) : Slot :=
  if !s.upRdOpen && decide (s.u2cOff = s.u2cLen) && !s.clientWrShut then
    { s with pendShutClient := true }
  else s

/-- The end of `relayUpdate`: both sides done, or the half-close clock starts. -/
def settle (s : Slot) (now : UInt32) : Slot :=
  if !s.clientRdOpen && !s.upRdOpen && decide (s.c2uOff = s.c2uLen) &&
      decide (s.u2cOff = s.u2cLen) then
    closeSlot s .done
  else if (!s.clientRdOpen || !s.upRdOpen) && !s.halfClosing then
    { s with halfClosing := true, halfCloseStartMs := now }
  else s

/-- `relayUpdate`; its two local emptiness flags are not changed by arming. -/
def relayUpdate (s : Slot) (now : UInt32) : Slot :=
  if s.phase ≠ .relay then s
  else settle (armClient (armUp s now)) now

/-- `slotInit` over a freshly allocated slot, whose two buffers hold whatever
the allocator left there. -/
def slotInit (c2u u2c : Memory UInt8 kBufSize) (clientFd : Int) (now : UInt32) : Slot where
  phase := .greeting
  reason := .none
  flushReason := .none
  clientFd := clientFd
  upFd := kNoFd
  acceptedMs := now
  phaseStartMs := now
  lastActivityMs := now
  halfCloseStartMs := 0
  halfClosing := false
  clientRdOpen := true
  upRdOpen := true
  pendShutUp := false
  pendShutClient := false
  upWrShut := false
  clientWrShut := false
  finGraceMs := 0
  graceUp := false
  dropUp := false
  graceStartMs := 0
  c2uOff := 0
  c2uLen := 0
  u2cOff := 0
  u2cLen := 0
  req := {}
  c2u := c2u
  u2c := u2c

structure Wants where
  clientRd : Bool := false
  clientWr : Bool := false
  upRd : Bool := false
  upWr : Bool := false
  deriving DecidableEq, Repr

def slotWants (s : Slot) : Wants :=
  let c2uPending := decide (s.c2uOff < s.c2uLen)
  let u2cPending := decide (s.u2cOff < s.u2cLen)
  match s.phase with
  | .greeting | .request => { clientRd := true, clientWr := u2cPending }
  | .needConnect => { clientWr := u2cPending }
  | .connecting => { upWr := true, clientWr := u2cPending }
  | .relay =>
      { clientRd := s.clientRdOpen && !c2uPending
        upWr := c2uPending
        upRd := s.upRdOpen && !u2cPending
        clientWr := u2cPending }
  | .flush => { clientWr := u2cPending }
  | .free | .closed => {}

/-- `recvDest`: the slot after the call, the offset of the destination in the
side's buffer, and the room there. -/
def recvDest (s : Slot) (side : Side) : Slot × Nat × Nat :=
  match side with
  | .client =>
      if isHandshake s then (s, s.c2uLen, wrapSub 32 kBufSize s.c2uLen)
      else if s.phase = .relay && s.clientRdOpen && decide (s.c2uOff = s.c2uLen) then
        ({ s with c2uOff := 0, c2uLen := 0 }, 0, kBufSize)
      else (s, 0, 0)
  | .up =>
      if s.phase = .relay && s.upRdOpen && decide (s.u2cOff = s.u2cLen) then
        ({ s with u2cOff := 0, u2cLen := 0 }, 0, kBufSize)
      else (s, 0, 0)

/-- `sendSrc`: the offset of the pending bytes toward a side and their number. -/
def sendSrc (s : Slot) (toward : Side) : Nat × Nat :=
  match toward with
  | .up => (s.c2uOff, if s.phase = .relay then wrapSub 32 s.c2uLen s.c2uOff else 0)
  | .client =>
      let mayWrite := isHandshake s || s.phase = .needConnect || s.phase = .connecting ||
        s.phase = .relay || s.phase = .flush
      (s.u2cOff, if mayWrite then wrapSub 32 s.u2cLen s.u2cOff else 0)

/-- `n` cut to the room behind `len`. -/
def clipRoom (n len : Nat) : Nat :=
  if n > wrapSub 32 kBufSize len then wrapSub 32 kBufSize len else n

def onRecvData (s : Slot) (side : Side) (n : Nat) (now : UInt32) : Slot :=
  match side with
  | .client =>
      if isHandshake s then
        advance
          { s with
            c2uLen := truncate 16 (s.c2uLen + clipRoom n s.c2uLen)
            lastActivityMs := now } now
      else if s.phase = .relay then
        touch { s with c2uLen := truncate 16 (s.c2uLen + clipRoom n s.c2uLen) } now
      else s
  | .up =>
      if s.phase = .relay then
        if s.dropUp then touch s now
        else touch { s with u2cLen := truncate 16 (s.u2cLen + clipRoom n s.u2cLen) } now
      else s

/-- The side counts as finished from now on. -/
def finishSide (s : Slot) : Side → Slot
  | .client => { s with clientRdOpen := false }
  | .up => { s with upRdOpen := false }

def onRecv (s : Slot) (side : Side) (ret : Int) (err : Errno) (now : UInt32) : Slot :=
  if !isLive s then s
  else
    let s :=
      match classifyRecv ret err with
      | .data => onRecvData s side ret.toNat now
      | .eof =>
          if isHandshake s then closeSlot s .handshakeEof
          else if s.phase = .relay then touch (finishSide s side) now
          else s
      | .wouldBlock => s
      | .closed | .error =>
          closeSlot s (if isHandshake s then .handshakeEof else .ioError)
    relayUpdate s now

/-- `n` cut to the bytes pending in `[off, len)`. -/
def clipPending (n off len : Nat) : Nat :=
  if n > wrapSub 32 len off then wrapSub 32 len off else n

def onSendData (s : Slot) (toward : Side) (n : Nat) : Slot :=
  match toward with
  | .up =>
      let s := { s with c2uOff := truncate 16 (s.c2uOff + clipPending n s.c2uOff s.c2uLen) }
      if s.c2uOff = s.c2uLen then { s with c2uOff := 0, c2uLen := 0 } else s
  | .client =>
      let s := { s with u2cOff := truncate 16 (s.u2cOff + clipPending n s.u2cOff s.u2cLen) }
      let s := if s.u2cOff = s.u2cLen then { s with u2cOff := 0, u2cLen := 0 } else s
      if s.phase = .flush ∧ s.u2cLen = 0 then closeSlot s s.flushReason else s

def onSend (s : Slot) (toward : Side) (ret : Int) (err : Errno) (now : UInt32) : Slot :=
  if !isLive s then s
  else
    let s :=
      match classifySend ret err with
      | .data =>
          let s := onSendData s toward ret.toNat
          if s.phase = .relay then touch s now else s
      | .wouldBlock | .eof => s
      | .closed | .error =>
          closeSlot s (if s.phase = .flush then s.flushReason else .ioError)
    relayUpdate s now

def onConnectStarted (s : Slot) (upFd : Int) (now : UInt32) : Slot :=
  if s.phase ≠ .needConnect then s
  else { s with upFd := upFd, phase := .connecting, phaseStartMs := now }

def connectFailed (s : Slot) (why : CloseReason) (now : UInt32) : Slot :=
  enterFlush (queueClient s kReplyFail) why now

def onConnectResult (s : Slot) (ok : Bool) (now : UInt32) : Slot :=
  if s.phase ≠ .needConnect ∧ s.phase ≠ .connecting then s
  else if !ok then connectFailed s .connectFail now
  else
    { queueClient s kReplyOk with
      phase := .relay, phaseStartMs := now, lastActivityMs := now }

def onTimer (s : Slot) (t : Timing) (now : UInt32) : Slot :=
  match s.phase with
  | .greeting =>
      if elapsed now s.phaseStartMs ≥ t.greetingMs then closeSlot s .handshakeTimeout else s
  | .request =>
      if elapsed now s.phaseStartMs ≥ t.requestMs then closeSlot s .handshakeTimeout else s
  | .needConnect | .connecting =>
      if elapsed now s.phaseStartMs ≥ t.connectMs then connectFailed s .connectTimeout now else s
  | .relay =>
      if elapsed now s.lastActivityMs ≥ t.idleMs then closeSlot s .idle
      else if s.halfClosing && decide (elapsed now s.halfCloseStartMs ≥ t.halfCloseMs) then
        closeSlot s .halfCloseTimeout
      else if s.graceUp && decide (elapsed now s.graceStartMs ≥ s.finGraceMs) then
        { s with graceUp := false, pendShutUp := true }
      else s
  | .flush => if elapsed now s.phaseStartMs ≥ t.flushMs then closeSlot s s.flushReason else s
  | .free | .closed => s

/-- `takeShutdown`: the slot after the call and whether a FIN was handed out. -/
def takeShutdown (s : Slot) : Side → Slot × Bool
  | .up =>
      if !s.pendShutUp then (s, false)
      else ({ s with pendShutUp := false, upWrShut := true }, true)
  | .client =>
      if !s.pendShutClient then (s, false)
      else ({ s with pendShutClient := false, clientWrShut := true }, true)

inductive FinAction where
  | none
  | halfClose
  | close
  deriving DecidableEq, Repr

/-- The peer of `side` has finished sending. -/
def peerFinSeen (s : Slot) : Side → Bool
  | .client => !s.clientRdOpen
  | .up => !s.upRdOpen

def takeFinAction (s : Slot) (side : Side) : Slot × FinAction :=
  let (s, taken) := takeShutdown s side
  if !taken then (s, .none)
  else (s, if peerFinSeen s side then .halfClose else .close)

def onSideClosed (s : Slot) (side : Side) (now : UInt32) : Slot :=
  relayUpdate (finishSide s side) now

def slotForceClose (s : Slot) (why : CloseReason) : Slot := closeSlot s why

end FryFirmware.Relay
