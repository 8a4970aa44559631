import FryFirmware.Relay.SlotProperties

/-!
# The byte history of a session

Each phase fixes how the two buffers relate to the bytes that crossed the
sockets. `Follows` states that relation; every operation of the core keeps it.
-/

set_option autoImplicit false

namespace FryFirmware.Relay

open Lib

/-- Both sides are done and nothing is buffered. -/
def Finished (s : Slot) : Prop :=
  s.clientRdOpen = false ∧ s.upRdOpen = false ∧ s.c2uOff = s.c2uLen ∧ s.u2cOff = s.u2cLen

structure AwaitsGreeting (s : Slot) (h : History) : Prop where
  c2uOff : s.c2uOff = 0
  u2cLen : s.u2cLen = 0
  stream : h.clientIn = c2uPending s
  upOut : h.upOut = []
  upIn : h.upIn = []
  upKept : h.upKept = []
  reply : h.clientOut = []

structure AwaitsRequest (s : Slot) (h : History) : Prop where
  c2uOff : s.c2uOff = 0
  u2cLen : s.u2cLen ≤ 2
  stream : ∃ greeting, IsGreeting greeting ∧ h.clientIn = greeting ++ c2uPending s
  upOut : h.upOut = []
  upIn : h.upIn = []
  upKept : h.upKept = []
  reply : h.clientOut ++ u2cPending s = kMethodOk

structure AwaitsConnect (s : Slot) (h : History) : Prop where
  u2cLen : s.u2cLen ≤ 2
  stream : StripsHandshake h.clientIn (c2uPending s)
  upOut : h.upOut = []
  upIn : h.upIn = []
  upKept : h.upKept = []
  reply : h.clientOut ++ u2cPending s = kMethodOk

structure Relays (s : Slot) (h : History) : Prop where
  stream : StripsHandshake h.clientIn (h.upOut ++ c2uPending s)
  reply : h.clientOut ++ u2cPending s = kMethodOk ++ kReplyOk ++ h.upKept
  kept : h.upKept <+: h.upIn
  whole : s.dropUp = false → h.upKept = h.upIn

structure Flushes (s : Slot) (h : History) : Prop where
  c2uLen : s.c2uLen = 0
  pending : s.u2cOff < s.u2cLen
  u2cLen : s.u2cLen ≤ 12
  upOut : h.upOut = []
  upKept : h.upKept = []
  reply : h.clientOut ++ u2cPending s = kMethodNone ∨
    h.clientOut ++ u2cPending s = kMethodOk ++ kReplyFail

/-- What may have been sent up, given what the client sent. -/
def LegalUp (h : History) : Prop :=
  h.upOut = [] ∨ ∃ payload, StripsHandshake h.clientIn payload ∧ h.upOut <+: payload

/-- What may have been sent to the client. -/
def LegalClient (h : History) : Prop :=
  h.clientOut <+: kMethodNone ∨ h.clientOut <+: kMethodOk ++ kReplyFail ∨
    h.clientOut <+: kMethodOk ++ kReplyOk ++ h.upKept

structure Legal (h : History) : Prop where
  up : LegalUp h
  client : LegalClient h
  kept : h.upKept <+: h.upIn

def PhaseFollows (s : Slot) (h : History) : Prop :=
  match s.phase with
  | .free => False
  | .greeting => AwaitsGreeting s h ∧ s.c2uLen ≤ 256
  | .request => AwaitsRequest s h ∧ s.c2uLen ≤ 261
  | .needConnect | .connecting => AwaitsConnect s h
  | .relay => Relays s h
  | .flush => Flushes s h
  | .closed => Legal h

/-- The slot and the history agree. -/
structure Follows (s : Slot) (h : History) : Prop where
  ordered : Ordered s
  phase : PhaseFollows s h

theorem Follows.greeting {s : Slot} {h : History} (follows : Follows s h)
    (phase : s.phase = .greeting) : AwaitsGreeting s h ∧ s.c2uLen ≤ 256 := by
  simpa only [PhaseFollows, phase] using follows.phase

theorem Follows.request {s : Slot} {h : History} (follows : Follows s h)
    (phase : s.phase = .request) : AwaitsRequest s h ∧ s.c2uLen ≤ 261 := by
  simpa only [PhaseFollows, phase] using follows.phase

theorem Follows.connect {s : Slot} {h : History} (follows : Follows s h)
    (phase : s.phase = .needConnect ∨ s.phase = .connecting) : AwaitsConnect s h := by
  rcases phase with phase | phase <;> simpa only [PhaseFollows, phase] using follows.phase

theorem Follows.relay {s : Slot} {h : History} (follows : Follows s h)
    (phase : s.phase = .relay) : Relays s h := by
  simpa only [PhaseFollows, phase] using follows.phase

theorem Follows.flush {s : Slot} {h : History} (follows : Follows s h)
    (phase : s.phase = .flush) : Flushes s h := by
  simpa only [PhaseFollows, phase] using follows.phase

/-- In every phase the history is legal, so a slot may close at any time. -/
theorem Follows.legal {s : Slot} {h : History} (follows : Follows s h) : Legal h := by
  have phase := follows.phase
  unfold PhaseFollows at phase
  split at phase
  · exact phase.elim
  · obtain ⟨waiting, _⟩ := phase
    exact ⟨.inl waiting.upOut, .inl (by simp [waiting.reply]), by simp [waiting.upKept]⟩
  · obtain ⟨waiting, _⟩ := phase
    refine ⟨.inl waiting.upOut, .inr (.inl ?_), by simp [waiting.upKept]⟩
    rw [← waiting.reply, List.append_assoc]
    exact List.prefix_append _ _
  · refine ⟨.inl phase.upOut, .inr (.inl ?_), by simp [phase.upKept]⟩
    rw [← phase.reply, List.append_assoc]
    exact List.prefix_append _ _
  · refine ⟨.inl phase.upOut, .inr (.inl ?_), by simp [phase.upKept]⟩
    rw [← phase.reply, List.append_assoc]
    exact List.prefix_append _ _
  · refine ⟨.inr ⟨_, phase.stream, List.prefix_append _ _⟩, .inr (.inr ?_), phase.kept⟩
    rw [← phase.reply]
    exact List.prefix_append _ _
  · refine ⟨.inl phase.upOut, ?_, by simp [phase.upKept]⟩
    rcases phase.reply with reply | reply
    · exact .inl (reply ▸ List.prefix_append _ _)
    · exact .inr (.inl (reply ▸ List.prefix_append _ _))
  · exact phase

theorem Follows.close {s t : Slot} {h : History} (follows : Follows s h) (ordered : Ordered t)
    (closed : t.phase = .closed) : Follows t h :=
  ⟨ordered, by simpa only [PhaseFollows, closed] using follows.legal⟩

/-- The relay's account of the two streams does not depend on flags either, so
it survives the close of the slot. -/
theorem Relays.quiet {s t : Slot} {h : History} (relays : Relays s h) (quiet : Quiet s t) :
    Relays t h := by
  obtain ⟨c2uSame, u2cSame⟩ := quiet.pending
  refine ⟨c2uSame.symm ▸ relays.stream, u2cSame.symm ▸ relays.reply, relays.kept, ?_⟩
  intro forwarding
  apply relays.whole
  cases dropping : s.dropUp with
  | false => rfl
  | true => rw [quiet.dropUp dropping] at forwarding; cases forwarding

/-- Flags and clocks are not part of the relation. -/
theorem Follows.quiet {s t : Slot} {h : History} (follows : Follows s h) (quiet : Quiet s t) :
    Follows t h := by
  have ordered := quiet.ordered follows.ordered
  rcases quiet.phase with phase | phase
  · refine ⟨ordered, ?_⟩
    obtain ⟨c2uSame, u2cSame⟩ := quiet.pending
    have old := follows.phase
    unfold PhaseFollows at old ⊢
    rw [phase]
    split at old
    · exact old
    · obtain ⟨⟨c2uOff, u2cLen, stream, upOut, upIn, upKept, reply⟩, bound⟩ := old
      exact ⟨⟨quiet.c2uOff.trans c2uOff, quiet.u2cLen.trans u2cLen, stream.trans c2uSame.symm,
        upOut, upIn, upKept, reply⟩, quiet.c2uLen ▸ bound⟩
    · obtain ⟨⟨c2uOff, u2cLen, stream, upOut, upIn, upKept, reply⟩, bound⟩ := old
      exact ⟨⟨quiet.c2uOff.trans c2uOff, quiet.u2cLen ▸ u2cLen, c2uSame.symm ▸ stream,
        upOut, upIn, upKept, u2cSame.symm ▸ reply⟩, quiet.c2uLen ▸ bound⟩
    · exact ⟨quiet.u2cLen ▸ old.u2cLen, c2uSame.symm ▸ old.stream, old.upOut, old.upIn,
        old.upKept, u2cSame.symm ▸ old.reply⟩
    · exact ⟨quiet.u2cLen ▸ old.u2cLen, c2uSame.symm ▸ old.stream, old.upOut, old.upIn,
        old.upKept, u2cSame.symm ▸ old.reply⟩
    · exact old.quiet quiet
    · exact ⟨quiet.c2uLen.trans old.c2uLen,
        by rw [quiet.u2cOff, quiet.u2cLen]; exact old.pending,
        quiet.u2cLen ▸ old.u2cLen, old.upOut, old.upKept, u2cSame.symm ▸ old.reply⟩
    · exact old
  · exact follows.close ordered phase

/-- Bytes move first, leaving `h` behind; after that only flags do. -/
def Moves (s t : Slot) (h : History) : Prop :=
  ∃ between, Follows between h ∧ Quiet between t ∧ Forward s between ∧
    (s.phase = .relay → between.phase = .relay)

theorem Moves.follows {s t : Slot} {h : History} (moves : Moves s t h) : Follows t h := by
  obtain ⟨_, follows, quiet, _⟩ := moves
  exact follows.quiet quiet

theorem Moves.forward {s t : Slot} {h : History} (moves : Moves s t h) : Forward s t := by
  obtain ⟨_, _, quiet, forward, _⟩ := moves
  exact forward.trans quiet.forward

theorem Moves.relays {s t : Slot} {h : History} (moves : Moves s t h) (phase : s.phase = .relay) :
    Relays t h := by
  obtain ⟨between, follows, quiet, _, relaying⟩ := moves
  exact (follows.relay (relaying phase)).quiet quiet

theorem Follows.moves {s t : Slot} {h : History} (follows : Follows s h) (quiet : Quiet s t) :
    Moves s t h :=
  ⟨s, follows, quiet, .refl s, id⟩

/-! ## The handshake -/

/-- A final reply is queued and everything the client sent is forgotten. -/
theorem follows_enterFlush (s : Slot) {h : History} {d : List UInt8} (ordered : Ordered s)
    (early : s.u2cLen ≤ 2) (reply : d ≠ []) (short : d.length ≤ 10) (upOut : h.upOut = [])
    (upKept : h.upKept = [])
    (final : h.clientOut ++ u2cPending s ++ d = kMethodNone ∨
      h.clientOut ++ u2cPending s ++ d = kMethodOk ++ kReplyFail)
    (why : CloseReason) (now : UInt32) :
    Follows (enterFlush (queueClient s d) why now) h := by
  have room : s.u2cLen + d.length ≤ kBufSize := by simp only [kBufSize]; omega
  have positive : 0 < d.length := List.length_pos_iff.mpr reply
  have queued := u2cPending_queueClient s ordered.u2cOrdered room
  have length : (queueClient s d).u2cLen = s.u2cLen + d.length := by rw [queueClient_eq s room]
  have offset : (queueClient s d).u2cOff = s.u2cOff := by rw [queueClient_eq s room]
  have u2cOrdered := ordered.u2cOrdered
  refine ⟨⟨Nat.le_refl 0, Nat.zero_le _, ?_, ?_⟩, ?_⟩
  · simp only [enterFlush, length, offset]
    omega
  · simpa only [enterFlush, length] using room
  · refine ⟨rfl, ?_, ?_, upOut, upKept, ?_⟩
    · simp only [enterFlush, length, offset]
      omega
    · simp only [enterFlush, length]
      omega
    · rw [List.append_assoc, ← queued] at final
      exact final

theorem c2uPending_of_front {s : Slot} (front : s.c2uOff = 0) :
    c2uPending s = s.c2u.window 0 s.c2uLen := by
  rw [c2uPending, front]

theorem follows_advanceRequest {s : Slot} {h : History} (ordered : Ordered s)
    (phase : s.phase = .request) (waiting : AwaitsRequest s h) (now : UInt32) :
    Follows (advanceRequest s now) h := by
  have length := s.c2u.window_length 0 ordered.c2uFits
  have pending := c2uPending_of_front waiting.c2uOff
  unfold advanceRequest
  rw [if_pos phase]
  rcases parseConnectRequest_cases (s.c2u.window 0 s.c2uLen) s.req 0 with
    ⟨answer, bound⟩ | ⟨request, rest, req, same, accepted, answer⟩ | ⟨result, answer, bad, settled⟩
  · have unchanged : Follows s h := by
      refine ⟨ordered, ?_⟩
      simp only [PhaseFollows, phase]
      exact ⟨waiting, by omega⟩
    simpa only [answer] using unchanged
  · simp only [answer]
    have present : request.length ≤ s.c2uLen := by
      have total := congrArg List.length same
      rw [length, List.length_append] at total
      omega
    have fits : s.c2uLen ≤ kBufSize := ordered.c2uFits
    have kept : c2uPending (consumeFront { s with req } request.length) = rest := by
      rw [c2uPending_consumeFront { s with req } present fits]
      exact same ▸ List.drop_left
    obtain ⟨greeting, isGreeting, stream⟩ := waiting.stream
    have consumed := consumeFront_eq { s with req } present fits
    refine ⟨?_, ?_⟩
    · rw [consumed]
      exact ⟨Nat.zero_le _, Nat.le_trans (Nat.sub_le _ _) fits, ordered.u2cOrdered, ordered.u2cFits⟩
    · refine ⟨?_, ?_, waiting.upOut, waiting.upIn, waiting.upKept, ?_⟩
      · rw [consumed]
        exact waiting.u2cLen
      · refine ⟨greeting, request, isGreeting, accepted, ?_⟩
        rw [stream, pending, same, ← List.append_assoc]
        exact congrArg (greeting ++ request ++ ·) kept.symm
      · rw [consumed]
        exact waiting.reply
  · simp only [answer]
    have flushed := follows_enterFlush s ordered
      waiting.u2cLen (by decide) (by decide) waiting.upOut waiting.upKept
      (.inr (congrArg (· ++ kReplyFail) waiting.reply)) .handshakeBad now
    cases result with
    | ok => exact absurd rfl bad
    | needMoreData => exact absurd rfl settled
    | _ => exact flushed

theorem follows_advance_greeting {s : Slot} {h : History} (ordered : Ordered s)
    (phase : s.phase = .greeting) (waiting : AwaitsGreeting s h) (now : UInt32) :
    Follows (advance s now) h := by
  have length := s.c2u.window_length 0 ordered.c2uFits
  have pending := c2uPending_of_front waiting.c2uOff
  have nothing : u2cPending s = [] := by
    have offset := ordered.u2cOrdered
    rw [waiting.u2cLen] at offset
    rw [u2cPending, waiting.u2cLen, Nat.le_zero.mp offset, Memory.window_self]
  unfold advance
  rw [if_pos phase]
  rcases parseGreeting_cases (s.c2u.window 0 s.c2uLen) {} 0 with
    ⟨answer, bound⟩ | ⟨greeting, rest, info, same, accepted, answer⟩ |
    ⟨result, info, used, answer, bad, settled⟩
  · have unchanged : Follows s h := by
      refine ⟨ordered, ?_⟩
      simp only [PhaseFollows, phase]
      exact ⟨waiting, by omega⟩
    simpa only [answer] using unchanged
  · simp only [answer]
    have room : s.u2cLen + kMethodOk.length ≤ kBufSize := by
      rw [waiting.u2cLen]
      decide
    have present : greeting.length ≤ s.c2uLen := by
      have total := congrArg List.length same
      rw [length, List.length_append] at total
      omega
    have fits : s.c2uLen ≤ kBufSize := ordered.c2uFits
    have queued := queueClient_eq s room
    have sameLength : (queueClient s kMethodOk).c2uLen = s.c2uLen := by rw [queued]
    have sameData : (queueClient s kMethodOk).c2u = s.c2u := by rw [queued]
    have consumed := consumeFront_eq (queueClient s kMethodOk) (sameLength ▸ present)
      (sameLength ▸ fits)
    have kept : c2uPending (consumeFront (queueClient s kMethodOk) greeting.length) = rest := by
      rw [c2uPending_consumeFront (queueClient s kMethodOk) (sameLength ▸ present)
        (sameLength ▸ fits), sameLength, sameData]
      exact same ▸ List.drop_left
    have replied : u2cPending (queueClient s kMethodOk) = kMethodOk := by
      rw [u2cPending_queueClient s ordered.u2cOrdered room, nothing, List.nil_append]
    apply follows_advanceRequest
    · rw [consumed, queued]
      refine ⟨Nat.zero_le _, Nat.le_trans (Nat.sub_le _ _) fits, ?_, room⟩
      exact Nat.le_trans ordered.u2cOrdered (Nat.le_add_right _ _)
    · rfl
    · refine ⟨?_, ?_, ⟨greeting, accepted, ?_⟩, waiting.upOut, waiting.upIn, waiting.upKept, ?_⟩
      · rw [consumed]
      · rw [consumed, queued]
        simp only [waiting.u2cLen]
        decide
      · rw [waiting.stream, pending, same]
        exact congrArg (greeting ++ ·) kept.symm
      · rw [waiting.reply, List.nil_append, consumed]
        exact replied
  · simp only [answer]
    have flushed := follows_enterFlush s ordered (d := kMethodNone)
      (by rw [waiting.u2cLen]; decide) (by decide) (by decide) waiting.upOut waiting.upKept
      (.inl (by rw [waiting.reply, nothing]; rfl)) .handshakeBad now
    cases result with
    | ok => exact absurd rfl bad
    | needMoreData => exact absurd rfl settled
    | _ => exact flushed

/-! ## Receiving -/

/-- Client bytes stored right behind the window, before the core looks at them. -/
def appendClient (s : Slot) (data : List UInt8) : Slot :=
  { s with c2u := s.c2u.store s.c2uLen data, c2uLen := s.c2uLen + data.length }

def appendUp (s : Slot) (data : List UInt8) : Slot :=
  { s with u2c := s.u2c.store s.u2cLen data, u2cLen := s.u2cLen + data.length }

theorem clipRoom_eq {n len : Nat} (fits : len + n ≤ kBufSize) : clipRoom n len = n := by
  have room := wrapSub_buffer (show len ≤ kBufSize by omega) (Nat.le_refl kBufSize)
  rw [clipRoom, room, if_neg (by omega)]

theorem c2uPending_appendClient {s : Slot} {data : List UInt8} (ordered : Ordered s)
    (fits : s.c2uLen + data.length ≤ kBufSize) :
    c2uPending (appendClient s data) = c2uPending s ++ data :=
  s.c2u.window_store_append data ordered.c2uOrdered fits

theorem u2cPending_appendUp {s : Slot} {data : List UInt8} (ordered : Ordered s)
    (fits : s.u2cLen + data.length ≤ kBufSize) :
    u2cPending (appendUp s data) = u2cPending s ++ data :=
  s.u2c.window_store_append data ordered.u2cOrdered fits

theorem ordered_appendClient {s : Slot} {data : List UInt8} (ordered : Ordered s)
    (fits : s.c2uLen + data.length ≤ kBufSize) : Ordered (appendClient s data) :=
  ⟨Nat.le_trans ordered.c2uOrdered (Nat.le_add_right _ _), fits, ordered.u2cOrdered,
    ordered.u2cFits⟩

theorem ordered_appendUp {s : Slot} {data : List UInt8} (ordered : Ordered s)
    (fits : s.u2cLen + data.length ≤ kBufSize) : Ordered (appendUp s data) :=
  ⟨ordered.c2uOrdered, ordered.c2uFits,
    Nat.le_trans ordered.u2cOrdered (Nat.le_add_right _ _), fits⟩

/-- Bytes from the client during the handshake are parsed as far as they go. -/
theorem follows_handshake_recv {s : Slot} {h : History} {data : List UInt8}
    (follows : Follows s h) (handshake : isHandshake s = true)
    (fits : s.c2uLen + data.length ≤ kBufSize) (dropping : Bool) (now : UInt32) :
    Follows (onRecvData (storeInbound s .client s.c2uLen data) .client data.length now)
      (h.received dropping data .client) := by
  have pending := c2uPending_appendClient follows.ordered fits
  have ordered := ordered_appendClient follows.ordered fits
  have stored : onRecvData (storeInbound s .client s.c2uLen data) .client data.length now =
      advance { appendClient s data with lastActivityMs := now } now := by
    have shaking : isHandshake (storeInbound s .client s.c2uLen data) = true := handshake
    simp only [onRecvData, shaking, ↓reduceIte]
    simp only [storeInbound, clipRoom_eq fits, truncate_buffer fits]
    rfl
  rw [stored]
  simp only [isHandshake, Bool.or_eq_true, decide_eq_true_eq] at handshake
  rcases handshake with phase | phase
  · obtain ⟨waiting, _⟩ := follows.greeting phase
    apply follows_advance_greeting
    · exact ⟨ordered.c2uOrdered, ordered.c2uFits, ordered.u2cOrdered, ordered.u2cFits⟩
    · exact phase
    · exact ⟨waiting.c2uOff, waiting.u2cLen,
        (congrArg (· ++ data) waiting.stream).trans pending.symm, waiting.upOut, waiting.upIn,
        waiting.upKept, waiting.reply⟩
  · obtain ⟨waiting, _⟩ := follows.request phase
    obtain ⟨greeting, isGreeting, stream⟩ := waiting.stream
    have skipped : advance { appendClient s data with lastActivityMs := now } now =
        advanceRequest { appendClient s data with lastActivityMs := now } now := by
      simp [advance, appendClient, phase]
    rw [skipped]
    apply follows_advanceRequest
    · exact ⟨ordered.c2uOrdered, ordered.c2uFits, ordered.u2cOrdered, ordered.u2cFits⟩
    · exact phase
    · refine ⟨waiting.c2uOff, waiting.u2cLen, ⟨greeting, isGreeting, ?_⟩, waiting.upOut,
        waiting.upIn, waiting.upKept, waiting.reply⟩
      have extended := congrArg (· ++ data) stream
      simp only [List.append_assoc, ← pending] at extended
      exact extended

theorem not_handshake_of_relay {s : Slot} (phase : s.phase = .relay) : isHandshake s = false := by
  simp [isHandshake, phase]

/-- Client bytes in the relay phase join the payload. -/
theorem follows_relay_recvClient {s : Slot} {h : History} {data : List UInt8}
    (follows : Follows s h) (phase : s.phase = .relay)
    (fits : s.c2uLen + data.length ≤ kBufSize) (dropping : Bool) (now : UInt32) :
    Follows (onRecvData (storeInbound s .client s.c2uLen data) .client data.length now)
      (h.received dropping data .client) := by
  have stored : onRecvData (storeInbound s .client s.c2uLen data) .client data.length now =
      touch (appendClient s data) now := by
    have silent : isHandshake (storeInbound s .client s.c2uLen data) = false :=
      not_handshake_of_relay phase
    have relaying : (storeInbound s .client s.c2uLen data).phase = .relay := phase
    unfold onRecvData
    dsimp only
    rw [if_neg (by simp [silent]), if_pos relaying]
    simp only [storeInbound, clipRoom_eq fits, truncate_buffer fits]
    rfl
  rw [stored]
  apply Follows.quiet _ (quiet_touch _ now)
  have relays := follows.relay phase
  refine ⟨ordered_appendClient follows.ordered fits, ?_⟩
  have relaying : (appendClient s data).phase = .relay := phase
  simp only [PhaseFollows, relaying]
  refine ⟨?_, relays.reply, relays.kept, relays.whole⟩
  rw [c2uPending_appendClient follows.ordered fits, ← List.append_assoc]
  exact relays.stream.append data

/-- Upstream bytes in the relay phase are queued, or dropped for good. -/
theorem follows_relay_recvUp {s : Slot} {h : History} {data : List UInt8}
    (follows : Follows s h) (phase : s.phase = .relay) (empty : u2cPending s = [])
    (front : s.u2cLen = 0) (fits : data.length ≤ kBufSize) (now : UInt32) :
    Follows (onRecvData (storeInbound s .up s.u2cLen data) .up data.length now)
      (h.received s.dropUp data .up) := by
  have relays := follows.relay phase
  have relaying : (storeInbound s .up s.u2cLen data).phase = .relay := phase
  have room : s.u2cLen + data.length ≤ kBufSize := by omega
  cases dropping : s.dropUp with
  | true =>
      have dropped : (storeInbound s .up s.u2cLen data).dropUp = true := dropping
      simp only [onRecvData, relaying, dropped, ↓reduceIte]
      apply Follows.quiet _ (quiet_touch _ now)
      refine ⟨⟨follows.ordered.c2uOrdered, follows.ordered.c2uFits, follows.ordered.u2cOrdered,
        follows.ordered.u2cFits⟩, ?_⟩
      simp only [PhaseFollows, relaying]
      refine ⟨relays.stream, ?_, ?_, ?_⟩
      · have offset : s.u2cOff = 0 := by
          have bound := follows.ordered.u2cOrdered
          omega
        have still : u2cPending (storeInbound s .up s.u2cLen data) = [] := by
          simp only [u2cPending, storeInbound, offset, front, Memory.window_self]
        rw [still]
        simpa only [History.received, empty, ↓reduceIte] using relays.reply
      · exact relays.kept.trans (List.prefix_append _ _)
      · intro forwarding
        rw [dropped] at forwarding
        cases forwarding
  | false =>
      have kept : (storeInbound s .up s.u2cLen data).dropUp = false := dropping
      have stored : onRecvData (storeInbound s .up s.u2cLen data) .up data.length now =
          touch (appendUp s data) now := by
        unfold onRecvData
        dsimp only
        rw [if_pos relaying, if_neg (by simp [kept])]
        simp only [storeInbound, clipRoom_eq room, truncate_buffer room]
        rfl
      rw [stored]
      apply Follows.quiet _ (quiet_touch _ now)
      refine ⟨ordered_appendUp follows.ordered room, ?_⟩
      have relaying : (appendUp s data).phase = .relay := phase
      simp only [PhaseFollows, relaying]
      have whole := relays.whole dropping
      refine ⟨relays.stream, ?_, ?_, ?_⟩
      · rw [u2cPending_appendUp follows.ordered room]
        have extended := congrArg (· ++ data) relays.reply
        simpa only [History.received, Bool.false_eq_true, ↓reduceIte, List.append_assoc]
          using extended
      · simp only [History.received, Bool.false_eq_true, ↓reduceIte, whole, List.prefix_refl]
      · intro _
        simp only [History.received, Bool.false_eq_true, ↓reduceIte, whole]

/-- Emptying an already empty window changes nothing that is tracked. -/
theorem follows_recvDest {s : Slot} {h : History} (follows : Follows s h) (side : Side) :
    Follows (recvDest s side).1 h := by
  cases side with
  | client =>
      simp only [recvDest]
      split
      · exact follows
      · split
        · rename_i relaying
          simp only [Bool.and_eq_true, decide_eq_true_eq] at relaying
          obtain ⟨⟨phase, _⟩, empty⟩ := relaying
          have relays := follows.relay phase
          refine ⟨⟨Nat.le_refl 0, Nat.zero_le _, follows.ordered.u2cOrdered,
            follows.ordered.u2cFits⟩, ?_⟩
          simp only [PhaseFollows, phase]
          refine ⟨?_, relays.reply, relays.kept, relays.whole⟩
          have stream := relays.stream
          rw [c2uPending, empty, Memory.window_self] at stream
          simpa only [c2uPending, Memory.window_self] using stream
        · exact follows
  | up =>
      simp only [recvDest]
      split
      · rename_i relaying
        simp only [Bool.and_eq_true, decide_eq_true_eq] at relaying
        obtain ⟨⟨phase, _⟩, empty⟩ := relaying
        have relays := follows.relay phase
        refine ⟨⟨follows.ordered.c2uOrdered, follows.ordered.c2uFits, Nat.le_refl 0,
          Nat.zero_le _⟩, ?_⟩
        simp only [PhaseFollows, phase]
        refine ⟨relays.stream, ?_, relays.kept, relays.whole⟩
        have reply := relays.reply
        rw [u2cPending, empty, Memory.window_self] at reply
        simpa only [u2cPending, Memory.window_self] using reply
      · exact follows

/-- After a `recv` that stored nothing a live slot is as it was, its side is finished, or
it is closed for a reason other than `done`. -/
theorem onRecv_stored_nothing {s : Slot} {ret : Int} (live : isLive s = true) (nothing : ret ≤ 0)
    (side : Side) (err : Errno) (now : UInt32) :
    ∃ t, onRecv s side ret err now = relayUpdate t now ∧
      (t = s ∨ t = touch (finishSide s side) now ∨ ∃ why, why ≠ .done ∧ t = closeSlot s why) := by
  have noData : ¬ ret > 0 := by omega
  have alive : ¬ (!isLive s) = true := by simp [live]
  rw [onRecv, if_neg alive, classifyRecv, if_neg noData]
  refine ⟨_, rfl, ?_⟩
  split
  · rename_i data
    split at data
    · cases data
    · cases err <;> cases data
  · split
    · exact .inr (.inr ⟨_, by decide, rfl⟩)
    · split
      · exact .inr (.inl rfl)
      · exact .inl rfl
  · exact .inl rfl
  all_goals exact .inr (.inr ⟨_, by split <;> decide, rfl⟩)

theorem quiet_onRecv {s : Slot} {ret : Int} (nothing : ret ≤ 0) (side : Side) (err : Errno)
    (now : UInt32) : Quiet s (onRecv s side ret err now) := by
  cases live : isLive s with
  | false =>
      rw [onRecv, live]
      exact .refl s
  | true =>
      obtain ⟨t, received, next⟩ := onRecv_stored_nothing live nothing side err now
      rw [received]
      refine Quiet.trans ?_ (quiet_relayUpdate t now)
      rcases next with rfl | rfl | ⟨why, -, rfl⟩
      · exact .refl t
      · exact (quiet_finishSide s side).trans (quiet_touch _ now)
      · exact quiet_closeSlot s why

theorem onRecv_data {s : Slot} {n : Nat} (live : isLive s = true) (some : 0 < n) (side : Side)
    (err : Errno) (now : UInt32) :
    onRecv s side n err now = relayUpdate (onRecvData s side n now) now := by
  have positive : (n : Int) > 0 := by omega
  simp only [onRecv, live, Bool.not_true, Bool.false_eq_true, ↓reduceIte, classifyRecv, positive,
    Int.toNat_natCast]

/-- Where `recvDest` offers room: the phase, the room, and that the bytes go
right behind the window. -/
theorem recvDest_room {s : Slot} (side : Side) (ordered : Ordered s)
    (room : (recvDest s side).2.2 ≠ 0) :
    match side with
    | .client =>
        (isHandshake (recvDest s side).1 = true ∨ (recvDest s side).1.phase = .relay) ∧
        (recvDest s side).2.1 = (recvDest s side).1.c2uLen ∧
        (recvDest s side).1.c2uLen + (recvDest s side).2.2 = kBufSize
    | .up =>
        (recvDest s side).1.phase = .relay ∧ (recvDest s side).2.1 = (recvDest s side).1.u2cLen ∧
        (recvDest s side).1.u2cLen = 0 ∧ (recvDest s side).2.2 = kBufSize := by
  cases side with
  | client =>
      simp only [recvDest] at room ⊢
      split at room
      · rename_i handshake
        have fits := ordered.c2uFits
        simp only [handshake, ↓reduceIte, true_or, true_and,
          wrapSub_buffer fits (Nat.le_refl kBufSize)]
        omega
      · rename_i silent
        rw [if_neg silent]
        split at room
        · rename_i relaying
          rw [if_pos relaying]
          simp only [Bool.and_eq_true, decide_eq_true_eq] at relaying
          exact ⟨.inr relaying.1.1, rfl, by simp⟩
        · exact absurd rfl room
  | up =>
      simp only [recvDest] at room ⊢
      split at room
      · rename_i relaying
        rw [if_pos relaying]
        simp only [Bool.and_eq_true, decide_eq_true_eq] at relaying
        exact ⟨relaying.1.1, rfl, rfl, rfl⟩
      · exact absurd rfl room

@[simp] theorem History.received_nil (h : History) (dropping : Bool) (side : Side) :
    h.received dropping [] side = h := by
  cases side <;> cases dropping <;> simp [History.received]

@[simp] theorem storeInbound_nil (s : Slot) (side : Side) (position : Nat) :
    storeInbound s side position [] = s := by
  cases side <;> simp [storeInbound]

@[simp] theorem recvDest_dropUp (s : Slot) (side : Side) : (recvDest s side).1.dropUp = s.dropUp := by
  cases side <;> simp only [recvDest] <;> repeat' split
  all_goals rfl

theorem live_of_handshake {s : Slot} (handshake : isHandshake s = true) : isLive s = true := by
  simp only [isHandshake, Bool.or_eq_true, decide_eq_true_eq] at handshake
  rcases handshake with phase | phase <;> simp [isLive, phase]

theorem live_of_relay {s : Slot} (phase : s.phase = .relay) : isLive s = true := by
  simp [isLive, phase]

@[simp] theorem recvDest_phase (s : Slot) (side : Side) : (recvDest s side).1.phase = s.phase := by
  cases side <;> simp only [recvDest] <;> repeat' split
  all_goals rfl

theorem touch_phase (s : Slot) (now : UInt32) : (touch s now).phase = s.phase := by
  unfold touch
  dsimp only
  split <;> rfl

theorem onRecvData_relay {s : Slot} (phase : s.phase = .relay) (side : Side) (n : Nat)
    (now : UInt32) : (onRecvData s side n now).phase = .relay := by
  have silent := not_handshake_of_relay phase
  cases side with
  | client =>
      simp only [onRecvData, silent, phase, Bool.false_eq_true, ↓reduceIte, touch_phase]
  | up =>
      simp only [onRecvData, phase, ↓reduceIte]
      split <;> simp only [touch_phase, phase]

theorem forward_recvDest (s : Slot) (side : Side) : Forward s (recvDest s side).1 := by
  apply Forward.same (recvDest_phase s side)
  cases side <;> simp only [recvDest] <;> repeat' split
  all_goals rfl

theorem rank_advanceRequest (s : Slot) (now : UInt32) :
    s.phase.rank ≤ (advanceRequest s now).phase.rank := by
  unfold advanceRequest
  split
  · rename_i phase
    obtain ⟨result, req, used⟩ := parseConnectRequest (s.c2u.window 0 s.c2uLen) s.req 0
    rw [phase]
    cases result with
    | needMoreData => exact Nat.le_refl _
    | ok => exact show 2 ≤ 3 by decide
    | _ => exact show 2 ≤ 6 by decide
  · exact Nat.le_refl _

theorem rank_advance (s : Slot) (now : UInt32) : s.phase.rank ≤ (advance s now).phase.rank := by
  unfold advance
  split
  · rename_i phase
    obtain ⟨result, info, used⟩ := parseGreeting (s.c2u.window 0 s.c2uLen) {} 0
    rw [phase]
    cases result with
    | needMoreData => exact Nat.le_of_eq (congrArg Phase.rank phase.symm)
    | ok =>
        refine Nat.le_trans ?_ (rank_advanceRequest _ now)
        exact show 1 ≤ 2 by decide
    | _ => exact show 1 ≤ 6 by decide
  · exact rank_advanceRequest s now

/-- Received bytes move a slot forward: through the handshake, or nowhere. -/
theorem forward_onRecvData {s : Slot} (live : isLive s = true) (side : Side) (n : Nat)
    (now : UInt32) : Forward s (onRecvData s side n now) := by
  have notClosed : s.phase ≠ .closed := by
    simp only [isLive, ne_eq, Bool.and_eq_true, decide_eq_true_eq] at live
    exact live.2
  refine .live notClosed ?_
  cases side with
  | client =>
      simp only [onRecvData]
      split
      · refine Nat.le_trans (Nat.le_of_eq ?_) (rank_advance _ now)
        rfl
      · split
        · simp only [touch_phase, Nat.le_refl]
        · exact Nat.le_refl _
  | up =>
      simp only [onRecvData]
      repeat' split
      all_goals simp only [touch_phase, Nat.le_refl]

theorem moves_doRecv {s : Slot} {h : History} (follows : Follows s h) (side : Side)
    (answer : RecvAnswer) (now : UInt32) :
    Moves s (doRecv s side answer now).1
      (h.received s.dropUp (doRecv s side answer now).2 side) := by
  have ready := follows_recvDest follows side
  have still : s.phase = .relay → (recvDest s side).1.phase = .relay :=
    (recvDest_phase s side).trans
  have begun := forward_recvDest s side
  unfold doRecv
  dsimp only
  by_cases closed : (recvDest s side).2.2 = 0
  · rw [if_pos closed]
    exact ⟨_, by simpa only [History.received_nil] using ready, .refl _, begun, still⟩
  rw [if_neg closed]
  cases answer with
  | fails code err =>
      simp only [recvCall, storeInbound_nil, History.received_nil]
      exact ⟨_, ready, quiet_onRecv (by omega) side err now, begun, still⟩
  | returns bytes err =>
      simp only [recvCall]
      generalize taken : bytes.take (recvDest s side).2.2 = data
      have bounded : data.length ≤ (recvDest s side).2.2 := by
        rw [← taken, List.length_take]
        exact Nat.min_le_left _ _
      by_cases nothing : data = []
      · subst nothing
        simp only [storeInbound_nil, History.received_nil, List.length_nil]
        exact ⟨_, ready, quiet_onRecv (by omega) side err now, begun, still⟩
      have some : 0 < data.length := List.length_pos_iff.mpr nothing
      have offered := recvDest_room side follows.ordered closed
      cases side with
      | client =>
          obtain ⟨reading, position, room⟩ := offered
          have fits : (recvDest s .client).1.c2uLen + data.length ≤ kBufSize := by omega
          rw [position]
          have live : isLive (storeInbound (recvDest s .client).1 .client
              (recvDest s .client).1.c2uLen data) = true := by
            rcases reading with handshake | phase
            · exact live_of_handshake handshake
            · exact live_of_relay phase
          rw [onRecv_data live some]
          have moved : Follows
              (onRecvData (storeInbound (recvDest s .client).1 .client
                (recvDest s .client).1.c2uLen data) .client data.length now)
              (h.received s.dropUp data .client) := by
            rcases reading with handshake | phase
            · exact follows_handshake_recv ready handshake fits _ now
            · exact follows_relay_recvClient ready phase fits _ now
          have forward := forward_onRecvData live .client data.length now
          refine ⟨_, moved, quiet_relayUpdate _ now, begun.trans ⟨forward.rank, forward.closed⟩,
            fun phase => ?_⟩
          apply onRecvData_relay
          exact still phase
      | up =>
          obtain ⟨phase, position, front, room⟩ := offered
          rw [position]
          have live : isLive (storeInbound (recvDest s .up).1 .up
              (recvDest s .up).1.u2cLen data) = true := live_of_relay phase
          rw [onRecv_data live some]
          have empty : u2cPending (recvDest s .up).1 = [] := by
            have offset := ready.ordered.u2cOrdered
            rw [front] at offset
            rw [u2cPending, front, Nat.le_zero.mp offset, Memory.window_self]
          have moved := follows_relay_recvUp ready phase empty front
            (show data.length ≤ kBufSize by omega) now
          rw [recvDest_dropUp s .up] at moved
          have forward := forward_onRecvData live .up data.length now
          refine ⟨_, moved, quiet_relayUpdate _ now, begun.trans ⟨forward.rank, forward.closed⟩,
            fun _ => ?_⟩
          apply onRecvData_relay
          exact phase

/-! ## Sending -/

/-- After a `send` that took nothing a live slot is as it was, or it is closed: for the
reason of a flush, or for one other than `done`. -/
theorem onSend_took_nothing {s : Slot} {ret : Int} (live : isLive s = true) (nothing : ret ≤ 0)
    (toward : Side) (err : Errno) (now : UInt32) :
    ∃ t, onSend s toward ret err now = relayUpdate t now ∧
      (t = s ∨ ∃ why, (why = s.flushReason ∨ why ≠ .done) ∧ t = closeSlot s why) := by
  have noData : ¬ ret > 0 := by omega
  have alive : ¬ (!isLive s) = true := by simp [live]
  rw [onSend, if_neg alive, classifySend, if_neg noData]
  refine ⟨_, rfl, ?_⟩
  split
  · rename_i data
    split at data
    · cases data
    · cases err <;> cases data
  · exact .inl rfl
  · exact .inl rfl
  all_goals
    refine .inr ⟨_, ?_, rfl⟩
    split
    · exact .inl rfl
    · exact .inr (by decide)

theorem quiet_onSend {s : Slot} {ret : Int} (nothing : ret ≤ 0) (toward : Side) (err : Errno)
    (now : UInt32) : Quiet s (onSend s toward ret err now) := by
  cases live : isLive s with
  | false =>
      rw [onSend, live]
      exact .refl s
  | true =>
      obtain ⟨t, given, next⟩ := onSend_took_nothing live nothing toward err now
      rw [given]
      refine Quiet.trans ?_ (quiet_relayUpdate t now)
      rcases next with rfl | ⟨why, -, rfl⟩
      · exact .refl t
      · exact quiet_closeSlot s why

theorem onSend_data {s : Slot} {n : Nat} (live : isLive s = true) (some : 0 < n) (toward : Side)
    (err : Errno) (now : UInt32) :
    onSend s toward n err now =
      relayUpdate (if (onSendData s toward n).phase = .relay then touch (onSendData s toward n) now
        else onSendData s toward n) now := by
  have positive : (n : Int) > 0 := by omega
  simp only [onSend, live, Bool.not_true, Bool.false_eq_true, ↓reduceIte, classifySend, positive,
    Int.toNat_natCast]

theorem clipPending_eq {n off len : Nat} (ordered : off ≤ len) (fits : len ≤ kBufSize)
    (pending : n ≤ len - off) : clipPending n off len = n := by
  rw [clipPending, wrapSub_buffer ordered fits, if_neg (by omega)]

/-- `n` bytes leave the front of the window toward the upstream. -/
def giveUp (s : Slot) (n : Nat) : Slot :=
  if s.c2uOff + n = s.c2uLen then { s with c2uOff := 0, c2uLen := 0 }
  else { s with c2uOff := s.c2uOff + n }

/-- `n` bytes leave the front of the window toward the client. -/
def giveClient (s : Slot) (n : Nat) : Slot :=
  if s.u2cOff + n = s.u2cLen then { s with u2cOff := 0, u2cLen := 0 }
  else { s with u2cOff := s.u2cOff + n }

theorem onSendData_up {s : Slot} {n : Nat} (ordered : Ordered s)
    (pending : n ≤ s.c2uLen - s.c2uOff) : onSendData s .up n = giveUp s n := by
  have c2uOrdered := ordered.c2uOrdered
  have c2uFits := ordered.c2uFits
  have advanced : truncate 16 (s.c2uOff + clipPending n s.c2uOff s.c2uLen) = s.c2uOff + n := by
    rw [clipPending_eq c2uOrdered c2uFits pending, truncate_buffer (by omega)]
  simp only [onSendData, advanced, giveUp]

theorem onSendData_client {s : Slot} {n : Nat} (ordered : Ordered s)
    (pending : n ≤ s.u2cLen - s.u2cOff) :
    onSendData s .client n =
      if (giveClient s n).phase = .flush ∧ (giveClient s n).u2cLen = 0 then
        closeSlot (giveClient s n) (giveClient s n).flushReason
      else giveClient s n := by
  have u2cOrdered := ordered.u2cOrdered
  have u2cFits := ordered.u2cFits
  have advanced : truncate 16 (s.u2cOff + clipPending n s.u2cOff s.u2cLen) = s.u2cOff + n := by
    rw [clipPending_eq u2cOrdered u2cFits pending, truncate_buffer (by omega)]
  unfold onSendData giveClient
  dsimp only
  rw [advanced]

/-- Bytes taken by a send toward the upstream leave the front of the payload. -/
theorem follows_sendUp {s : Slot} {h : History} {n : Nat} (follows : Follows s h)
    (phase : s.phase = .relay) (pending : n ≤ s.c2uLen - s.c2uOff) :
    Follows (giveUp s n) (h.sent (s.c2u.window s.c2uOff (s.c2uOff + n)) .up) := by
  have ordered := follows.ordered
  have relays := follows.relay phase
  have c2uOrdered := ordered.c2uOrdered
  have divided : c2uPending s = s.c2u.window s.c2uOff (s.c2uOff + n) ++
      s.c2u.window (s.c2uOff + n) s.c2uLen :=
    s.c2u.window_split (by omega) (by omega)
  have stream : StripsHandshake h.clientIn
      (h.upOut ++ s.c2u.window s.c2uOff (s.c2uOff + n) ++ s.c2u.window (s.c2uOff + n) s.c2uLen) := by
    rw [List.append_assoc, ← divided]
    exact relays.stream
  unfold giveUp
  split
  · rename_i drained
    refine ⟨⟨Nat.le_refl 0, Nat.zero_le _, ordered.u2cOrdered, ordered.u2cFits⟩, ?_⟩
    simp only [PhaseFollows, phase]
    refine ⟨?_, relays.reply, relays.kept, relays.whole⟩
    rw [drained, Memory.window_self] at stream
    simpa only [History.sent, c2uPending, Memory.window_self, drained] using stream
  · refine ⟨⟨?_, ordered.c2uFits, ordered.u2cOrdered, ordered.u2cFits⟩, ?_⟩
    · dsimp only
      omega
    · simp only [PhaseFollows, phase]
      exact ⟨stream, relays.reply, relays.kept, relays.whole⟩

/-- A slot whose client-bound window gave `bytes` from its front. -/
structure GaveClient (s t : Slot) (bytes : List UInt8) : Prop where
  ordered : Ordered t
  phase : t.phase = s.phase
  c2u : c2uPending t = c2uPending s
  c2uOff : t.c2uOff = s.c2uOff
  c2uLen : t.c2uLen = s.c2uLen
  u2cLen : t.u2cLen ≤ s.u2cLen
  u2c : bytes ++ u2cPending t = u2cPending s
  dropUp : t.dropUp = s.dropUp

theorem Follows.gaveClient {s t : Slot} {h : History} {bytes : List UInt8}
    (follows : Follows s h) (gave : GaveClient s t bytes) (some : bytes ≠ [])
    (notClosed : s.phase ≠ .closed) (remaining : t.phase = .flush → t.u2cOff < t.u2cLen) :
    Follows t (h.sent bytes .client) := by
  refine ⟨gave.ordered, ?_⟩
  have old := follows.phase
  unfold PhaseFollows at old ⊢
  rw [gave.phase]
  have moved : ∀ total, h.clientOut ++ u2cPending s = total →
      (h.clientOut ++ bytes) ++ u2cPending t = total := by
    intro total reply
    rw [List.append_assoc, gave.u2c]
    exact reply
  split at old
  · exact old
  · obtain ⟨waiting, _⟩ := old
    have nothing : u2cPending s = [] := by
      have offset := follows.ordered.u2cOrdered
      rw [waiting.u2cLen] at offset
      rw [u2cPending, waiting.u2cLen, Nat.le_zero.mp offset, Memory.window_self]
    exact absurd (List.append_eq_nil_iff.mp (gave.u2c.trans nothing)).1 some
  · obtain ⟨⟨c2uOff, u2cLen, stream, upOut, upIn, upKept, reply⟩, bound⟩ := old
    exact ⟨⟨gave.c2uOff.trans c2uOff, Nat.le_trans gave.u2cLen u2cLen, gave.c2u.symm ▸ stream,
      upOut, upIn, upKept, moved _ reply⟩, gave.c2uLen ▸ bound⟩
  · exact ⟨Nat.le_trans gave.u2cLen old.u2cLen, gave.c2u.symm ▸ old.stream, old.upOut, old.upIn,
      old.upKept, moved _ old.reply⟩
  · exact ⟨Nat.le_trans gave.u2cLen old.u2cLen, gave.c2u.symm ▸ old.stream, old.upOut, old.upIn,
      old.upKept, moved _ old.reply⟩
  · exact ⟨gave.c2u.symm ▸ old.stream, moved _ old.reply, old.kept,
      fun forwarding => old.whole (gave.dropUp ▸ forwarding)⟩
  · rename_i phase
    exact ⟨gave.c2uLen.trans old.c2uLen, remaining (gave.phase.trans phase),
      Nat.le_trans gave.u2cLen old.u2cLen, old.upOut, old.upKept,
      old.reply.imp (moved _) (moved _)⟩
  · rename_i phase
    exact absurd phase notClosed

/-- A flush that gave its last bytes leaves a legal history behind. -/
theorem Follows.gaveLast {s t : Slot} {h : History} {bytes : List UInt8}
    (follows : Follows s h) (phase : s.phase = .flush) (gave : GaveClient s t bytes) :
    Legal (h.sent bytes .client) := by
  have flushes := follows.flush phase
  refine ⟨.inl flushes.upOut, ?_, by simp [History.sent, flushes.upKept]⟩
  have front : ∀ total, h.clientOut ++ u2cPending s = total → h.clientOut ++ bytes <+: total := by
    intro total reply
    rw [← reply, ← gave.u2c, ← List.append_assoc]
    exact List.prefix_append _ _
  rcases flushes.reply with reply | reply
  · exact .inl (front _ reply)
  · exact .inr (.inl (front _ reply))

theorem gaveClient_window {s : Slot} {n : Nat} (ordered : Ordered s)
    (pending : n ≤ s.u2cLen - s.u2cOff) :
    GaveClient s (giveClient s n) (s.u2c.window s.u2cOff (s.u2cOff + n)) := by
  have u2cOrdered := ordered.u2cOrdered
  have divided : u2cPending s = s.u2c.window s.u2cOff (s.u2cOff + n) ++
      s.u2c.window (s.u2cOff + n) s.u2cLen :=
    s.u2c.window_split (by omega) (by omega)
  unfold giveClient
  split
  · rename_i drained
    refine ⟨⟨ordered.c2uOrdered, ordered.c2uFits, Nat.le_refl 0, Nat.zero_le _⟩, rfl, rfl, rfl,
      rfl, Nat.zero_le _, ?_, rfl⟩
    rw [divided, drained]
    simp only [u2cPending, Memory.window_self]
  · refine ⟨⟨ordered.c2uOrdered, ordered.c2uFits, ?_, ordered.u2cFits⟩, rfl, rfl, rfl, rfl,
      Nat.le_refl _, divided.symm, rfl⟩
    dsimp only
    omega

theorem giveClient_left {s : Slot} {n : Nat} (ordered : Ordered s)
    (pending : n ≤ s.u2cLen - s.u2cOff) :
    (giveClient s n).u2cLen = 0 ∨ (giveClient s n).u2cOff < (giveClient s n).u2cLen := by
  have u2cOrdered := ordered.u2cOrdered
  unfold giveClient
  split
  · exact .inl rfl
  · refine .inr ?_
    dsimp only
    omega

theorem follows_sendClient {s : Slot} {h : History} {n : Nat} (follows : Follows s h)
    (notClosed : s.phase ≠ .closed) (some : 0 < n) (pending : n ≤ s.u2cLen - s.u2cOff) :
    Follows (onSendData s .client n)
      (h.sent (s.u2c.window s.u2cOff (s.u2cOff + n)) .client) := by
  have gave := gaveClient_window follows.ordered pending
  have nonempty : s.u2c.window s.u2cOff (s.u2cOff + n) ≠ [] := by
    have fits := follows.ordered.u2cFits
    rw [Ne, s.u2c.window_eq_nil_iff (by omega) (by omega)]
    omega
  rw [onSendData_client follows.ordered pending]
  split
  · rename_i last
    have closed : (closeSlot (giveClient s n) (giveClient s n).flushReason).phase = .closed := by
      simp [closeSlot, last.1]
    refine ⟨(quiet_closeSlot _ _).ordered gave.ordered, ?_⟩
    simp only [PhaseFollows, closed]
    exact follows.gaveLast (gave.phase.symm.trans last.1) gave
  · rename_i more
    refine follows.gaveClient gave nonempty notClosed ?_
    intro flushing
    rcases giveClient_left follows.ordered pending with empty | left
    · exact absurd ⟨flushing, empty⟩ more
    · exact left

@[simp] theorem History.sent_nil (h : History) (toward : Side) : h.sent [] toward = h := by
  cases toward <;> simp [History.sent]

theorem outboundBytes_zero (s : Slot) (toward : Side) (position : Nat) :
    outboundBytes s toward position 0 = [] := by
  cases toward <;> simp [outboundBytes]

theorem follows_touch_if {s : Slot} {h : History} (follows : Follows s h) (now : UInt32) :
    Follows (if s.phase = .relay then touch s now else s) h := by
  split
  · exact follows.quiet (quiet_touch s now)
  · exact follows

/-- Where `sendSrc` offers bytes the slot is live and they are pending. -/
theorem sendSrc_pending {s : Slot} {toward : Side} {n : Nat} (ordered : Ordered s)
    (offered : (sendSrc s toward).2 ≠ 0) (bounded : n ≤ (sendSrc s toward).2) :
    isLive s = true ∧ match toward with
      | .up => s.phase = .relay ∧ n ≤ s.c2uLen - s.c2uOff
      | .client => n ≤ s.u2cLen - s.u2cOff := by
  cases toward with
  | up =>
      simp only [sendSrc] at offered bounded
      have phase : s.phase = .relay := by
        by_contra other
        exact offered (if_neg other)
      rw [if_pos phase, wrapSub_buffer ordered.c2uOrdered ordered.c2uFits] at bounded
      exact ⟨live_of_relay phase, phase, bounded⟩
  | client =>
      simp only [sendSrc] at offered bounded
      split at offered
      · rename_i mayWrite
        rw [if_pos mayWrite, wrapSub_buffer ordered.u2cOrdered ordered.u2cFits] at bounded
        refine ⟨?_, bounded⟩
        simp only [isHandshake, Bool.or_eq_true, decide_eq_true_eq] at mayWrite
        rcases mayWrite with ((((phase | phase) | phase) | phase) | phase) | phase <;>
          simp [isLive, phase]
      · exact absurd rfl offered

theorem giveUp_phase (s : Slot) (n : Nat) : (giveUp s n).phase = s.phase := by
  unfold giveUp
  split <;> rfl

theorem onSendData_relay {s : Slot} {n : Nat} (ordered : Ordered s) (phase : s.phase = .relay)
    (pending : n ≤ s.u2cLen - s.u2cOff) : (onSendData s .client n).phase = .relay := by
  have same := (gaveClient_window ordered pending).phase.trans phase
  rw [onSendData_client ordered pending, if_neg (by simp [same])]
  exact same

theorem forward_onSendData {s : Slot} {n : Nat} (ordered : Ordered s) (notClosed : s.phase ≠ .closed)
    (pending : n ≤ s.u2cLen - s.u2cOff) : Forward s (onSendData s .client n) := by
  have gave := gaveClient_window ordered pending
  have given : Forward s (giveClient s n) := .live notClosed (gave.phase ▸ Nat.le_refl _)
  rw [onSendData_client ordered pending]
  split
  · exact given.trans (quiet_closeSlot _ _).forward
  · exact given

theorem touch_if_phase (s : Slot) (now : UInt32) :
    (if s.phase = .relay then touch s now else s).phase = s.phase := by
  split
  · exact touch_phase s now
  · rfl

theorem moves_doSend {s : Slot} {h : History} (follows : Follows s h) (toward : Side)
    (answer : SendAnswer) (now : UInt32) :
    Moves s (doSend s toward answer now).1 (h.sent (doSend s toward answer now).2 toward) := by
  unfold doSend
  dsimp only
  by_cases closed : (sendSrc s toward).2 = 0
  · rw [if_pos closed]
    simpa only [History.sent_nil] using follows.moves (.refl s)
  rw [if_neg closed]
  cases answer with
  | fails code err =>
      simp only [sendCall, outboundBytes_zero, History.sent_nil]
      exact follows.moves (quiet_onSend (by omega) toward err now)
  | takes count err =>
      simp only [sendCall]
      generalize taken : min count (sendSrc s toward).2 = n
      by_cases nothing : n = 0
      · subst nothing
        simp only [outboundBytes_zero, History.sent_nil]
        exact follows.moves (quiet_onSend (by omega) toward err now)
      have some : 0 < n := Nat.pos_of_ne_zero nothing
      have bounded : n ≤ (sendSrc s toward).2 := taken ▸ Nat.min_le_right _ _
      obtain ⟨live, pending⟩ := sendSrc_pending follows.ordered closed bounded
      rw [onSend_data live some]
      cases toward with
      | up =>
          obtain ⟨phase, pending⟩ := pending
          rw [onSendData_up follows.ordered pending]
          have same : (if (giveUp s n).phase = .relay then touch (giveUp s n) now
              else giveUp s n).phase = s.phase :=
            (touch_if_phase _ now).trans (giveUp_phase s n)
          exact ⟨_, follows_touch_if (follows_sendUp follows phase pending) now,
            quiet_relayUpdate _ now, .live (by simp [phase]) (same ▸ Nat.le_refl _), same.trans⟩
      | client =>
          have notClosed : s.phase ≠ .closed := by
            simp only [isLive, ne_eq, Bool.and_eq_true, decide_eq_true_eq] at live
            simpa using live.2
          have forward := forward_onSendData follows.ordered notClosed pending
          have same := touch_if_phase (onSendData s .client n) now
          refine ⟨_, follows_touch_if (follows_sendClient follows notClosed some pending) now,
            quiet_relayUpdate _ now, .live notClosed ?_, fun phase => ?_⟩
          · rw [same]
            exact forward.rank
          rw [same]
          exact onSendData_relay follows.ordered phase pending

/-! ## Connecting and timers -/

theorem follows_connectFailed {s : Slot} {h : History} (follows : Follows s h)
    (phase : s.phase = .needConnect ∨ s.phase = .connecting) (why : CloseReason) (now : UInt32) :
    Follows (connectFailed s why now) h := by
  have waiting := follows.connect phase
  exact follows_enterFlush s follows.ordered waiting.u2cLen (by decide) (by decide) waiting.upOut
    waiting.upKept (.inr (congrArg (· ++ kReplyFail) waiting.reply)) why now

/-- The reply goes behind the method answer and the payload starts to flow. -/
theorem follows_connected {s : Slot} {h : History} (follows : Follows s h)
    (phase : s.phase = .needConnect ∨ s.phase = .connecting) (now : UInt32) :
    Follows
      { queueClient s kReplyOk with phase := .relay, phaseStartMs := now, lastActivityMs := now }
      h := by
  have waiting := follows.connect phase
  have ordered := follows.ordered
  have early := waiting.u2cLen
  have room : s.u2cLen + kReplyOk.length ≤ kBufSize := by
    simp only [kReplyOk, kBufSize, List.length_cons, List.length_nil]
    omega
  have queued := queueClient_eq s room
  have pending := u2cPending_queueClient s ordered.u2cOrdered room
  refine ⟨?_, ?_, ?_, ?_, ?_⟩
  · rw [queued]
    exact ⟨ordered.c2uOrdered, ordered.c2uFits,
      Nat.le_trans ordered.u2cOrdered (Nat.le_add_right _ _), room⟩
  · rw [queued, waiting.upOut]
    exact waiting.stream
  · have reply := congrArg (· ++ kReplyOk) waiting.reply
    rw [waiting.upKept, List.append_nil, ← reply]
    simp only [List.append_assoc, ← pending]
    rfl
  · rw [waiting.upKept]
    exact List.nil_prefix
  · intro _
    rw [waiting.upKept, waiting.upIn]

theorem follows_onConnectStarted {s : Slot} {h : History} (follows : Follows s h) (upFd : Int)
    (now : UInt32) : Follows (onConnectStarted s upFd now) h := by
  unfold onConnectStarted
  split
  · exact follows
  · rename_i asking
    have waiting := follows.connect (.inl (not_not.mp asking))
    exact ⟨⟨follows.ordered.c2uOrdered, follows.ordered.c2uFits, follows.ordered.u2cOrdered,
      follows.ordered.u2cFits⟩, ⟨waiting.u2cLen, waiting.stream, waiting.upOut, waiting.upIn,
      waiting.upKept, waiting.reply⟩⟩

theorem follows_onConnectResult {s : Slot} {h : History} (follows : Follows s h) (ok : Bool)
    (now : UInt32) : Follows (onConnectResult s ok now) h := by
  unfold onConnectResult
  split
  · exact follows
  · rename_i waiting
    have phase : s.phase = .needConnect ∨ s.phase = .connecting := by
      by_contra other
      exact waiting (not_or.mp other)
    split
    · exact follows_connectFailed follows phase .connectFail now
    · exact follows_connected follows phase now

theorem moves_onConnectStarted {s : Slot} {h : History} (follows : Follows s h) (upFd : Int)
    (now : UInt32) : Moves s (onConnectStarted s upFd now) h := by
  refine ⟨_, follows_onConnectStarted follows upFd now, .refl _, ?_, fun phase => ?_⟩
  · unfold onConnectStarted
    split
    · exact .refl s
    · rename_i asking
      rw [not_not] at asking
      exact .enters .connecting asking rfl (by decide) (by decide)
  · rw [onConnectStarted, if_pos (by simp [phase])]
    exact phase

theorem moves_onConnectResult {s : Slot} {h : History} (follows : Follows s h) (ok : Bool)
    (now : UInt32) : Moves s (onConnectResult s ok now) h := by
  refine ⟨_, follows_onConnectResult follows ok now, .refl _, ?_, fun phase => ?_⟩
  · unfold onConnectResult
    split
    · exact .refl s
    · rename_i waiting
      have phase : s.phase = .needConnect ∨ s.phase = .connecting := by
        by_contra other
        exact waiting (not_or.mp other)
      split
      · rcases phase with phase | phase <;> exact .enters .flush phase rfl (by decide) (by decide)
      · rcases phase with phase | phase <;> exact .enters .relay phase rfl (by decide) (by decide)
  · rw [onConnectResult, if_pos (by simp [phase])]
    exact phase

/-- Only a connection attempt that timed out queues bytes from the timer. -/
theorem moves_onTimer {s : Slot} {h : History} (follows : Follows s h) (t : Timing)
    (now : UInt32) : Moves s (onTimer s t now) h := by
  cases phase : s.phase with
  | needConnect | connecting =>
      simp only [onTimer, phase]
      split
      · refine ⟨_, follows_connectFailed follows (by simp [phase]) .connectTimeout now, .refl _, ?_,
          by simp [phase]⟩
        exact .enters .flush phase rfl (by decide) (by decide)
      · exact follows.moves (.refl s)
  | greeting | request | flush =>
      simp only [onTimer, phase]
      split
      · exact follows.moves (quiet_closeSlot s _)
      · exact follows.moves (.refl s)
  | free | closed =>
      simp only [onTimer, phase]
      exact follows.moves (.refl s)
  | relay =>
      simp only [onTimer, phase]
      repeat' split
      · exact follows.moves (quiet_closeSlot s _)
      · exact follows.moves (quiet_closeSlot s _)
      · exact follows.moves ⟨rfl, rfl, rfl, rfl, rfl, rfl, rfl, .inl phase.symm, fun _ => rfl, id⟩
      · exact follows.moves (.refl s)

end FryFirmware.Relay
