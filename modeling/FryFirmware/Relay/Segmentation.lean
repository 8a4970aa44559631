import FryFirmware.Relay.SessionProperties
import Mathlib.Tactic.Common

/-!
# Segmentation of the handshake

However `recv` cuts up what a client sends, a slot that read all of it during
the handshake ends where one parse of the whole string ends.
-/

set_option autoImplicit false

namespace FryFirmware.Relay

open Lib

/-- Where a handshake stands. `queued` is every byte queued for the client, those
already sent included. -/
structure Handshake where
  phase : Phase
  req : Socks5ConnectRequest
  queued : List UInt8
  unconsumed : List UInt8
  deriving DecidableEq

/-- Where a slot stands that has sent `sent` to its client. -/
def Slot.handshake (s : Slot) (sent : List UInt8) : Handshake where
  phase := s.phase
  req := s.req
  queued := sent ++ u2cPending s
  unconsumed := c2uPending s

/-- The request stage over all bytes behind the greeting. -/
def parseRequestStage (rest : List UInt8) : Handshake :=
  match parseConnectRequest rest {} 0 with
  | (.needMoreData, req, _) => { phase := .request, req, queued := kMethodOk, unconsumed := rest }
  | (.ok, req, used) =>
      { phase := .needConnect, req, queued := kMethodOk, unconsumed := rest.drop used }
  | (_, req, _) => { phase := .flush, req, queued := kMethodOk ++ kReplyFail, unconsumed := [] }

/-- The handshake over the whole string at once. -/
def parseWhole (input : List UInt8) : Handshake :=
  match parseGreeting input {} 0 with
  | (.needMoreData, _, _) => { phase := .greeting, req := {}, queued := [], unconsumed := input }
  | (.ok, _, used) => parseRequestStage (input.drop used)
  | _ => { phase := .flush, req := {}, queued := kMethodNone, unconsumed := [] }

/-! ## Parsing what is buffered -/

theorem handshake_enterFlush (s : Slot) {sent d : List UInt8} (ordered : Ordered s)
    (room : s.u2cLen + d.length ≤ kBufSize) (why : CloseReason) (now : UInt32) :
    (enterFlush (queueClient s d) why now).handshake sent =
      { phase := .flush, req := s.req, queued := sent ++ u2cPending s ++ d, unconsumed := [] } := by
  have queued := u2cPending_queueClient s ordered.u2cOrdered room
  have request : (queueClient s d).req = s.req := by rw [queueClient_eq s room]
  have pending : u2cPending (enterFlush (queueClient s d) why now) =
      u2cPending (queueClient s d) := rfl
  have nothing : c2uPending (enterFlush (queueClient s d) why now) = [] :=
    Memory.window_self _ 0
  simp only [Slot.handshake, pending, queued, nothing, List.append_assoc]
  simp only [enterFlush, request]

/-- A slot in the request stage parses its buffer as the whole rest. -/
theorem handshake_advanceRequest {s : Slot} {sent : List UInt8} (ordered : Ordered s)
    (phase : s.phase = .request) (front : s.c2uOff = 0) (short : s.u2cLen ≤ 2) (fresh : s.req = {})
    (replied : sent ++ u2cPending s = kMethodOk) (now : UInt32) :
    (advanceRequest s now).handshake sent = parseRequestStage (c2uPending s) := by
  have pending := c2uPending_of_front front
  have length := s.c2u.window_length 0 ordered.c2uFits
  unfold advanceRequest parseRequestStage
  rw [if_pos phase, fresh, pending]
  rcases parseConnectRequest_cases (s.c2u.window 0 s.c2uLen) {} 0 with
    ⟨answer, _⟩ | ⟨request, rest, req, same, accepted, answer⟩ | ⟨result, answer, bad, settled⟩
  · simp only [answer, Slot.handshake, phase]
    rw [← fresh, ← pending, ← replied]
    rfl
  · simp only [answer]
    have present : request.length ≤ s.c2uLen := by
      have total := congrArg List.length same
      rw [length, List.length_append] at total
      omega
    have kept := c2uPending_consumeFront { s with req } present ordered.c2uFits
    have consumed := consumeFront_eq { s with req } present ordered.c2uFits
    have unsent : u2cPending (consumeFront { s with req } request.length) = u2cPending s := by
      rw [consumed]
      rfl
    have stored : (consumeFront { s with req } request.length).req = req := by rw [consumed]
    simp only [Slot.handshake, Handshake.mk.injEq]
    refine ⟨trivial, stored, ?_, kept⟩
    exact (congrArg (sent ++ ·) unsent).trans replied
  · simp only [answer]
    have room : s.u2cLen + kReplyFail.length ≤ kBufSize := by
      simp only [kReplyFail, kBufSize, List.length_cons, List.length_nil]
      omega
    have flushed : (enterFlush (queueClient { s with req := {} } kReplyFail) .handshakeBad
        now).handshake sent =
          { phase := .flush, req := {}, queued := sent ++ u2cPending s ++ kReplyFail, unconsumed := [] } :=
      handshake_enterFlush { s with req := {} }
        ⟨ordered.c2uOrdered, ordered.c2uFits, ordered.u2cOrdered, ordered.u2cFits⟩ room
        .handshakeBad now
    rw [replied] at flushed
    cases result with
    | ok => exact absurd rfl bad
    | needMoreData => exact absurd rfl settled
    | _ => exact flushed

/-- A slot in the greeting stage parses its buffer as the whole string. -/
theorem handshake_advance {s : Slot} (ordered : Ordered s) (phase : s.phase = .greeting)
    (front : s.c2uOff = 0) (silent : s.u2cLen = 0) (fresh : s.req = {}) (now : UInt32) :
    (advance s now).handshake [] = parseWhole (c2uPending s) := by
  have pending := c2uPending_of_front front
  have length := s.c2u.window_length 0 ordered.c2uFits
  have nothing : u2cPending s = [] := by
    have offset := ordered.u2cOrdered
    rw [silent] at offset
    rw [u2cPending, silent, Nat.le_zero.mp offset, Memory.window_self]
  have room : ∀ reply ∈ [kMethodOk, kMethodNone], s.u2cLen + reply.length ≤ kBufSize := by
    rw [silent]
    decide
  unfold advance parseWhole
  rw [if_pos phase, pending]
  rcases parseGreeting_cases (s.c2u.window 0 s.c2uLen) {} 0 with
    ⟨answer, _⟩ | ⟨greeting, rest, info, same, accepted, answer⟩ | ⟨result, info, used, answer, bad, settled⟩
  · simp only [answer, Slot.handshake, phase, nothing, List.append_nil]
    rw [← fresh, ← pending]
  · simp only [answer]
    have fits := room kMethodOk (.head _)
    have queued := queueClient_eq s fits
    have replied := u2cPending_queueClient s ordered.u2cOrdered fits
    have present : greeting.length ≤ (queueClient s kMethodOk).c2uLen := by
      have total := congrArg List.length same
      rw [length, List.length_append] at total
      rw [queued]
      dsimp only
      omega
    have bounded : (queueClient s kMethodOk).c2uLen ≤ kBufSize := by
      rw [queued]
      exact ordered.c2uFits
    have consumed := consumeFront_eq (queueClient s kMethodOk) present bounded
    have kept := c2uPending_consumeFront (queueClient s kMethodOk) present bounded
    have window : (queueClient s kMethodOk).c2u.window 0 (queueClient s kMethodOk).c2uLen =
        s.c2u.window 0 s.c2uLen := by rw [queued]
    rw [window] at kept
    rw [← kept]
    apply handshake_advanceRequest
    · rw [consumed, queued]
      exact ⟨Nat.zero_le _, Nat.le_trans (Nat.sub_le _ _) ordered.c2uFits,
        Nat.le_trans ordered.u2cOrdered (Nat.le_add_right _ _), fits⟩
    · rfl
    · rw [consumed]
    · rw [consumed, queued]
      simp only [silent]
      decide
    · rw [consumed, queued]
      exact fresh
    · have unsent : u2cPending (consumeFront (queueClient s kMethodOk) greeting.length) =
          u2cPending (queueClient s kMethodOk) := by
        rw [consumed]
        rfl
      rw [nothing] at replied
      exact unsent.trans replied
  · simp only [answer]
    have flushed : (enterFlush (queueClient s kMethodNone) .handshakeBad now).handshake [] =
        { phase := .flush, req := s.req, queued := u2cPending s ++ kMethodNone, unconsumed := [] } :=
      handshake_enterFlush s ordered (room kMethodNone (.tail _ (.head _))) .handshakeBad now
    rw [fresh, nothing] at flushed
    cases result with
    | ok => exact absurd rfl bad
    | needMoreData => exact absurd rfl settled
    | _ => exact flushed

/-! ## The whole string -/

theorem parseRequestStage_waiting {rest : List UInt8}
    (waiting : (parseRequestStage rest).phase = .request) :
    parseRequestStage rest =
      { phase := .request, req := {}, queued := kMethodOk, unconsumed := rest } := by
  unfold parseRequestStage at waiting ⊢
  rcases parseConnectRequest_cases rest {} 0 with
    ⟨answer, _⟩ | ⟨request, tail, req, same, accepted, answer⟩ | ⟨result, answer, bad, settled⟩
  · simp only [answer]
  · simp only [answer] at waiting
    cases waiting
  · simp only [answer] at waiting
    cases result with
    | ok => exact absurd rfl bad
    | needMoreData => exact absurd rfl settled
    | _ => cases waiting

theorem parseRequestStage_phase (rest : List UInt8) : (parseRequestStage rest).phase ≠ .greeting := by
  unfold parseRequestStage
  rcases parseConnectRequest_cases rest {} 0 with
    ⟨answer, _⟩ | ⟨request, tail, req, same, accepted, answer⟩ | ⟨result, answer, bad, settled⟩
  · simp only [answer]
    decide
  · simp only [answer]
    decide
  · simp only [answer]
    cases result with
    | ok => exact absurd rfl bad
    | needMoreData => exact absurd rfl settled
    | _ => decide

theorem parseWhole_greeting {input : List UInt8} (waiting : (parseWhole input).phase = .greeting) :
    parseWhole input = { phase := .greeting, req := {}, queued := [], unconsumed := input } := by
  unfold parseWhole at waiting ⊢
  rcases parseGreeting_cases input {} 0 with
    ⟨answer, _⟩ | ⟨greeting, rest, info, same, accepted, answer⟩ | ⟨result, info, used, answer, bad, settled⟩
  · simp only [answer]
  · simp only [answer] at waiting
    exact absurd waiting (parseRequestStage_phase _)
  · simp only [answer] at waiting
    cases result with
    | ok => exact absurd rfl bad
    | needMoreData => exact absurd rfl settled
    | _ => cases waiting

/-- A string that leaves the request open starts with a greeting, and so does
every longer one. -/
theorem parseWhole_request {input : List UInt8} (waiting : (parseWhole input).phase = .request) :
    ∃ rest, parseWhole input =
        { phase := .request, req := {}, queued := kMethodOk, unconsumed := rest } ∧
      ∀ more, parseWhole (input ++ more) = parseRequestStage (rest ++ more) := by
  rcases parseGreeting_cases input {} 0 with
    ⟨answer, _⟩ | ⟨greeting, rest, info, same, accepted, answer⟩ | ⟨result, info, used, answer, bad, settled⟩
  · simp only [parseWhole, answer] at waiting
    cases waiting
  · have stage : parseWhole input = parseRequestStage rest := by
      simp only [parseWhole, answer]
      rw [same, List.drop_left]
    refine ⟨rest, ?_, fun more => ?_⟩
    · rw [stage] at waiting ⊢
      exact parseRequestStage_waiting waiting
    · have decided : (parseGreeting input {} 0).1 ≠ .needMoreData := by
        rw [answer]
        nofun
      have longer := (parseGreeting_append decided more).trans answer
      simp only [parseWhole, longer]
      rw [same, List.append_assoc, List.drop_left]
  · simp only [parseWhole, answer] at waiting
    cases result with
    | ok => exact absurd rfl bad
    | needMoreData => exact absurd rfl settled
    | _ => cases waiting

/-! ## Arrivals -/

/-- One event of the handshake: a chunk of the client's bytes that `recv` hands
over, a `send` that takes some of what is queued for the client, or a look at
the timer. -/
inductive Arrival where
  | chunk (bytes : List UInt8) (err : Errno) (now : UInt32)
  | drain (count : Nat) (err : Errno) (now : UInt32)
  | timer (t : Timing) (now : UInt32)

def Arrival.op : Arrival → ShimOp
  | .chunk bytes err now => .recv .client (.returns bytes err) now
  | .drain count err now => .send .client (.takes count err) now
  | .timer t now => .timer t now

def Arrival.bytes : Arrival → List UInt8
  | .chunk bytes _ _ => bytes
  | .drain _ _ _ | .timer _ _ => []

/-- The string the chunks are cut from. -/
def sentBy (arrivals : List Arrival) : List UInt8 := arrivals.flatMap Arrival.bytes

def Session.arrive (w : Session) (arrivals : List Arrival) : Session :=
  w.shimRun (arrivals.map Arrival.op)

/-- A chunk is not empty and fits the room it is offered; no timer fires. -/
def Arrival.Fits (s : Slot) : Arrival → Prop
  | .chunk bytes _ _ => bytes ≠ [] ∧ bytes.length ≤ (recvDest s .client).2.2
  | .drain _ _ _ => True
  | .timer t now => onTimer s t now = s

instance fitsDecidable (s : Slot) : (arrival : Arrival) → Decidable (arrival.Fits s)
  | .chunk _ _ _ => inferInstanceAs (Decidable (_ ∧ _))
  | .drain _ _ _ => isTrue trivial
  | .timer _ _ => inferInstanceAs (Decidable (_ = _))

/-- Every event finds the slot in Greeting or Request, and every chunk fits. -/
def InHandshake (w : Session) : List Arrival → Prop
  | [] => True
  | arrival :: arrivals =>
      isHandshake w.slot = true ∧ arrival.Fits w.slot ∧
        InHandshake (w.shimStep arrival.op) arrivals

instance inHandshakeDecidable :
    (w : Session) → (arrivals : List Arrival) → Decidable (InHandshake w arrivals)
  | _, [] => isTrue trivial
  | w, arrival :: arrivals =>
      have := inHandshakeDecidable (w.shimStep arrival.op) arrivals
      inferInstanceAs (Decidable (_ ∧ _ ∧ _))

/-- The session stands where one parse of all it received stands. -/
def Agrees (w : Session) : Prop :=
  w.slot.handshake w.history.clientOut = parseWhole w.history.clientIn

/-- The slot with a chunk behind what it had buffered, before the core parses it. -/
def buffered (s : Slot) (bytes : List UInt8) (now : UInt32) : Slot :=
  { appendClient s bytes with lastActivityMs := now }

/-- A chunk that fits is parsed right behind what is buffered. -/
theorem doRecv_chunk {s : Slot} (ordered : Ordered s) (handshake : isHandshake s = true)
    {bytes : List UInt8} (some : bytes ≠ []) (fits : bytes.length ≤ (recvDest s .client).2.2)
    (err : Errno) (now : UInt32) :
    doRecv s .client (.returns bytes err) now =
      (relayUpdate (advance (buffered s bytes now) now) now, bytes) := by
  have room : (recvDest s .client) = (s, s.c2uLen, kBufSize - s.c2uLen) := by
    simp only [recvDest, handshake, ↓reduceIte]
    rw [wrapSub_buffer ordered.c2uFits (Nat.le_refl _)]
  have positive : 0 < bytes.length := List.length_pos_iff.mpr some
  rw [room] at fits
  dsimp only at fits
  have inside : s.c2uLen + bytes.length ≤ kBufSize := by
    have bound := ordered.c2uFits
    omega
  have open_ : kBufSize - s.c2uLen ≠ 0 := by omega
  have live : isLive (storeInbound s .client s.c2uLen bytes) = true := live_of_handshake handshake
  have shaking : isHandshake (storeInbound s .client s.c2uLen bytes) = true := handshake
  have stored : onRecvData (storeInbound s .client s.c2uLen bytes) .client bytes.length now =
      advance (buffered s bytes now) now := by
    simp only [onRecvData, shaking, ↓reduceIte]
    simp only [storeInbound, clipRoom_eq inside, truncate_buffer inside]
    rfl
  unfold doRecv
  rw [room]
  dsimp only
  rw [if_neg open_]
  simp only [recvCall, List.take_of_length_le fits]
  rw [onRecv_data live positive, stored]

theorem relayUpdate_early {s : Slot} (early : s.phase ≠ .relay) (now : UInt32) :
    relayUpdate s now = s := if_pos early

theorem parseRequestStage_early (rest : List UInt8) : (parseRequestStage rest).phase ≠ .relay := by
  unfold parseRequestStage
  split <;> nofun

theorem parseWhole_early (input : List UInt8) : (parseWhole input).phase ≠ .relay := by
  unfold parseWhole
  split
  · nofun
  · exact parseRequestStage_early _
  · nofun

/-- The core parses a chunk as part of the whole string. -/
theorem advance_chunk {s : Slot} {h : History} (follows : Follows s h)
    (agrees : s.handshake h.clientOut = parseWhole h.clientIn) (handshake : isHandshake s = true)
    {bytes : List UInt8} (inside : s.c2uLen + bytes.length ≤ kBufSize) (now : UInt32) :
    (advance (buffered s bytes now) now).handshake h.clientOut =
      parseWhole (h.clientIn ++ bytes) := by
  have appended := ordered_appendClient follows.ordered inside
  have ordered : Ordered (buffered s bytes now) :=
    ⟨appended.c2uOrdered, appended.c2uFits, appended.u2cOrdered, appended.u2cFits⟩
  have pending : c2uPending (buffered s bytes now) = c2uPending s ++ bytes :=
    c2uPending_appendClient follows.ordered inside
  have phases : s.phase = (parseWhole h.clientIn).phase := congrArg Handshake.phase agrees
  have reqs : s.req = (parseWhole h.clientIn).req := congrArg Handshake.req agrees
  have rests : c2uPending s = (parseWhole h.clientIn).unconsumed :=
    congrArg Handshake.unconsumed agrees
  simp only [isHandshake, Bool.or_eq_true, decide_eq_true_eq] at handshake
  rcases handshake with phase | phase
  · obtain ⟨waiting, _⟩ := follows.greeting phase
    have whole := parseWhole_greeting (phases.symm.trans phase)
    rw [whole] at reqs rests
    have parsed : (advance (buffered s bytes now) now).handshake [] =
        parseWhole (c2uPending (buffered s bytes now)) :=
      handshake_advance ordered phase waiting.c2uOff waiting.u2cLen reqs now
    rw [waiting.reply, parsed, pending, rests]
  · obtain ⟨waiting, _⟩ := follows.request phase
    obtain ⟨rest, whole, longer⟩ := parseWhole_request (phases.symm.trans phase)
    rw [whole] at reqs rests
    have skipped : advance (buffered s bytes now) now = advanceRequest (buffered s bytes now) now := by
      simp [advance, buffered, appendClient, phase]
    have parsed : (advanceRequest (buffered s bytes now) now).handshake h.clientOut =
        parseRequestStage (c2uPending (buffered s bytes now)) :=
      handshake_advanceRequest ordered phase waiting.c2uOff waiting.u2cLen reqs waiting.reply now
    rw [skipped, parsed, pending, rests, longer]

theorem agrees_chunk {w : Session} (lawful : Lawful w.slot w.history) (agrees : Agrees w)
    (handshake : isHandshake w.slot = true) {bytes : List UInt8} (some : bytes ≠ [])
    (fits : bytes.length ≤ (recvDest w.slot .client).2.2) (err : Errno) (now : UInt32) :
    Agrees (w.shimStep (.recv .client (.returns bytes err) now)) := by
  have ordered := lawful.follows.ordered
  have inside : w.slot.c2uLen + bytes.length ≤ kBufSize := by
    have bound := ordered.c2uFits
    simp only [recvDest, handshake, ↓reduceIte,
      wrapSub_buffer ordered.c2uFits (Nat.le_refl kBufSize)] at fits
    omega
  have parsed := advance_chunk lawful.follows agrees handshake inside now
  have early : (advance (buffered w.slot bytes now) now).phase ≠ .relay := by
    have phase := congrArg Handshake.phase parsed
    rw [Slot.handshake] at phase
    dsimp only at phase
    rw [phase]
    exact parseWhole_early _
  simp only [Agrees, Session.shimStep, Session.recvStep, Session.noteEof,
    doRecv_chunk ordered handshake some fits, relayUpdate_early early, History.received]
  exact parsed

theorem onSend_nothing {s : Slot} (early : s.phase ≠ .relay) (toward : Side) (err : Errno)
    (now : UInt32) : onSend s toward 0 err now = s := by
  unfold onSend
  split
  · rfl
  · exact relayUpdate_early early now

theorem giveClient_req (s : Slot) (n : Nat) : (giveClient s n).req = s.req := by
  unfold giveClient
  split <;> rfl

/-- A `send` toward the client in the handshake takes bytes from the front of its
queue and does nothing else. -/
theorem doSend_drain {s : Slot} (ordered : Ordered s) (handshake : isHandshake s = true)
    (count : Nat) (err : Errno) (now : UInt32) (sent : List UInt8) :
    (doSend s .client (.takes count err) now).1.handshake
        (sent ++ (doSend s .client (.takes count err) now).2) = s.handshake sent := by
  have early : s.phase ≠ .relay := by
    intro phase
    simp [isHandshake, phase] at handshake
  unfold doSend
  dsimp only
  by_cases closed : (sendSrc s .client).2 = 0
  · rw [if_pos closed, List.append_nil]
  rw [if_neg closed]
  simp only [sendCall]
  generalize taken : min count (sendSrc s .client).2 = n
  by_cases nothing : n = 0
  · subst nothing
    rw [outboundBytes_zero, List.append_nil]
    exact congrArg (Slot.handshake · sent) (onSend_nothing early .client err now)
  · have bounded : n ≤ (sendSrc s .client).2 := taken ▸ Nat.min_le_right _ _
    obtain ⟨live, pending⟩ := sendSrc_pending ordered closed bounded
    have gave := gaveClient_window ordered pending
    have notFlush : ¬ ((giveClient s n).phase = .flush ∧ (giveClient s n).u2cLen = 0) := by
      rintro ⟨flushing, _⟩
      rw [gave.phase] at flushing
      simp [isHandshake, flushing] at handshake
    have given : onSendData s .client n = giveClient s n := by
      rw [onSendData_client ordered pending, if_neg notFlush]
    have still : (giveClient s n).phase ≠ .relay := by
      rw [gave.phase]
      exact early
    rw [onSend_data live (Nat.pos_of_ne_zero nothing), given, if_neg still, relayUpdate_early still]
    simp only [Slot.handshake, gave.phase, giveClient_req, gave.c2u, outboundBytes, sendSrc]
    rw [List.append_assoc, gave.u2c]

theorem agrees_drain {w : Session} (lawful : Lawful w.slot w.history) (agrees : Agrees w)
    (handshake : isHandshake w.slot = true) (count : Nat) (err : Errno) (now : UInt32) :
    Agrees (w.shimStep (.send .client (.takes count err) now)) :=
  (doSend_drain lawful.follows.ordered handshake count err now w.history.clientOut).trans agrees

theorem agrees_start (c2u u2c : Memory UInt8 kBufSize) (clientFd : Int) (now finGraceMs : UInt32) :
    Agrees (Session.start c2u u2c clientFd now finGraceMs) := by
  have empty : (Session.start c2u u2c clientFd now finGraceMs).slot.handshake [] =
      { phase := .greeting, req := {}, queued := [], unconsumed := [] } := by
    simp only [Session.start, slotInit, Slot.handshake, u2cPending, c2uPending, Memory.window_self,
      List.append_nil]
  exact empty

/-! ## Runs -/

theorem agrees_step {w : Session} (lawful : Lawful w.slot w.history) (agrees : Agrees w)
    (handshake : isHandshake w.slot = true) {arrival : Arrival} (fits : arrival.Fits w.slot) :
    Agrees (w.shimStep arrival.op) ∧
      (w.shimStep arrival.op).history.clientIn = w.history.clientIn ++ arrival.bytes := by
  cases arrival with
  | chunk bytes err now =>
      refine ⟨agrees_chunk lawful agrees handshake fits.1 fits.2 err now, ?_⟩
      simp only [Arrival.op, Session.shimStep, Session.recvStep, Session.noteEof_history,
        doRecv_chunk lawful.follows.ordered handshake fits.1 fits.2, History.received, Arrival.bytes]
  | drain count err now =>
      refine ⟨agrees_drain lawful agrees handshake count err now, ?_⟩
      exact (List.append_nil _).symm
  | timer t now =>
      have quiet : onTimer w.slot t now = w.slot := fits
      have still : w.shimStep (Arrival.timer t now).op = w := by
        simp only [Arrival.op, Session.shimStep]
        rw [quiet]
      rw [still]
      exact ⟨agrees, (List.append_nil _).symm⟩

/-- After every run inside the handshake the session agrees with one parse. -/
theorem agrees_arrive {w : Session} (lawful : Lawful w.slot w.history) (agrees : Agrees w)
    {arrivals : List Arrival} (inside : InHandshake w arrivals) :
    Agrees (w.arrive arrivals) ∧
      (w.arrive arrivals).history.clientIn = w.history.clientIn ++ sentBy arrivals := by
  induction arrivals generalizing w with
  | nil => exact ⟨agrees, (List.append_nil _).symm⟩
  | cons arrival arrivals ih =>
      obtain ⟨handshake, fits, later⟩ := inside
      obtain ⟨next, received⟩ := agrees_step lawful agrees handshake fits
      have kept : Lawful (w.shimStep arrival.op).slot (w.shimStep arrival.op).history :=
        lawful.carry (carries_step lawful (.shim arrival.op))
      obtain ⟨whole, all⟩ := ih kept next later
      refine ⟨whole, all.trans ?_⟩
      rw [received, List.append_assoc]
      rfl

/-- However a client's bytes are cut, the slot that read them all during the
handshake stands where one parse of the whole string does. -/
theorem handshake_segmentation (c2u u2c : Memory UInt8 kBufSize) (clientFd : Int)
    (now finGraceMs : UInt32) :
    let start := Session.start c2u u2c clientFd now finGraceMs
    ∀ first, InHandshake start first →
      (start.arrive first).slot.handshake (start.arrive first).history.clientOut =
        parseWhole (sentBy first) ∧
      ∀ second, InHandshake start second → sentBy second = sentBy first →
        (start.arrive second).slot.handshake (start.arrive second).history.clientOut =
          (start.arrive first).slot.handshake (start.arrive first).history.clientOut := by
  intro start first inside
  have lawful := lawful_start c2u u2c clientFd now finGraceMs
  have parsed : ∀ arrivals, InHandshake start arrivals →
      (start.arrive arrivals).slot.handshake (start.arrive arrivals).history.clientOut =
        parseWhole (sentBy arrivals) := by
    intro arrivals within
    obtain ⟨agrees, received⟩ :=
      agrees_arrive lawful (agrees_start c2u u2c clientFd now finGraceMs) within
    rw [Agrees, received] at agrees
    exact agrees
  refine ⟨parsed first inside, fun second within same => ?_⟩
  rw [parsed first inside, parsed second within, same]

def atOnce : List Arrival :=
  [.chunk [5, 1, 0, 5, 1, 0, 1, 10, 0, 0, 1, 0, 80] .eagain 1]

/-- The same bytes in three chunks, with the method reply sent in between. -/
def inPieces : List Arrival :=
  [.chunk [5] .eagain 1, .chunk [1, 0, 5, 1] .eagain 2, .drain 2 .eagain 3, .timer {} 4,
    .chunk [0, 1, 10, 0, 0, 1, 0, 80] .eagain 5]

def acceptedSession : Session := Session.start (.filled kBufSize 0) (.filled kBufSize 0) 5 0 500

theorem handshake_segmentation_pieces :
    (acceptedSession.arrive inPieces).slot.handshake (acceptedSession.arrive inPieces).history.clientOut =
      (acceptedSession.arrive atOnce).slot.handshake (acceptedSession.arrive atOnce).history.clientOut :=
  (handshake_segmentation (.filled kBufSize 0) (.filled kBufSize 0) 5 0 500 atOnce
    (by decide +kernel)).2 inPieces (by decide +kernel) rfl

end FryFirmware.Relay
