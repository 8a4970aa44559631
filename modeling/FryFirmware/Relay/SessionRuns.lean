import FryFirmware.Relay.SessionProperties

/-!
# What every run of a session guarantees

Byte fidelity of the relay and the representation invariant of the slot, over
all orders of operations and all answers of the network.
-/

set_option autoImplicit false

namespace FryFirmware.Relay

open Lib

/-! ## Byte fidelity -/

/-- The bytes relayed in both directions are the right ones. -/
structure Faithful (w : Session) : Prop where
  /-- A prefix of the client's stream without its greeting and request. -/
  up : w.history.upOut = [] ∨
    ∃ payload, StripsHandshake w.history.clientIn payload ∧ w.history.upOut <+: payload
  /-- While relaying, sent and pending bytes together are the whole payload. -/
  upWhole : w.slot.phase = .relay →
    StripsHandshake w.history.clientIn (w.history.upOut ++ c2uPending w.slot)
  client : w.history.clientOut <+: kMethodNone ∨
    w.history.clientOut <+: kMethodOk ++ kReplyFail ∨
    w.history.clientOut <+: kMethodOk ++ kReplyOk ++ w.history.upIn
  /-- While relaying and not dropping, nothing the upstream sent is missing. -/
  clientWhole : w.slot.phase = .relay → w.slot.dropUp = false →
    w.history.clientOut ++ u2cPending w.slot = kMethodOk ++ kReplyOk ++ w.history.upIn
  /-- Nothing received after the drop began ever reaches the client. -/
  dropped : w.slot.dropUp = true → ∀ more : List CoreOp,
    (w.run more).history.clientOut <+: kMethodOk ++ kReplyOk ++ w.history.upIn

theorem upKept_step {w : Session} (dropping : w.slot.dropUp = true) (op : CoreOp) :
    (w.step op).history.upKept = w.history.upKept := by
  cases op with
  | shim op =>
      cases op with
      | recv side answer now =>
          cases side <;> simp [Session.step, Session.shimStep, Session.recvStep, History.received,
            dropping]
      | send toward answer now => cases toward <;> rfl
      | forwardFin side drained now => simp [Session.step, Session.shimStep]
      | takeShutdown side => simp [Session.step, Session.shimStep]
      | timer | connectStarted | connectResult | forceClose => rfl
  | takeFinAction side => simp [Session.step]
  | sideClosed side now => rfl

/-- What had been kept when the drop began is all that is ever kept. -/
theorem upKept_run {w : Session} (lawful : Lawful w.slot w.history)
    (dropping : w.slot.dropUp = true) (ops : List CoreOp) :
    (w.run ops).slot.dropUp = true ∧ (w.run ops).history.upKept = w.history.upKept := by
  induction ops generalizing w with
  | nil => exact ⟨dropping, rfl⟩
  | cons op ops ih =>
      have step := carries_step lawful op
      obtain ⟨still, kept⟩ := ih (lawful.carry step) (step.dropUp dropping)
      exact ⟨still, kept.trans (upKept_step dropping op)⟩

theorem Lawful.dropped {w : Session} (lawful : Lawful w.slot w.history)
    (dropping : w.slot.dropUp = true) (more : List CoreOp) :
    (w.run more).history.clientOut <+: kMethodOk ++ kReplyOk ++ w.history.upIn := by
  obtain ⟨still, kept⟩ := upKept_run lawful dropping more
  have relays := (lawful_run lawful more).armed
    (.inr (.inr (.inr (.inr (.inr still)))))
  have sent : (w.run more).history.clientOut <+: kMethodOk ++ kReplyOk ++ w.history.upKept := by
    rw [← kept, ← relays.reply]
    exact List.prefix_append _ _
  exact sent.trans ((List.prefix_append_right_inj _).mpr lawful.follows.legal.kept)

theorem Lawful.faithful {w : Session} (lawful : Lawful w.slot w.history) : Faithful w where
  up := lawful.follows.legal.up
  upWhole := fun relaying => (lawful.follows.relay relaying).stream
  client := by
    have legal := lawful.follows.legal
    rcases legal.client with none | fail | ok
    · exact .inl none
    · exact .inr (.inl fail)
    · exact .inr (.inr (ok.trans ((List.prefix_append_right_inj _).mpr legal.kept)))
  clientWhole := by
    intro relaying forwarding
    have relays := lawful.follows.relay relaying
    rw [relays.reply, relays.whole forwarding]
  dropped := lawful.dropped

/-- Byte fidelity of the relay. -/
theorem session_run_faithful (c2u u2c : Memory UInt8 kBufSize) (clientFd : Int)
    (now finGraceMs : UInt32) (ops : List CoreOp) :
    Faithful ((Session.start c2u u2c clientFd now finGraceMs).run ops) :=
  (lawful_run (lawful_start c2u u2c clientFd now finGraceMs) ops).faithful

/-! ## Representation -/

/-- Every reply the core queues for the client. -/
def replies : List (List UInt8) := [kMethodOk, kMethodNone, kReplyOk, kReplyFail]

/-- The representation invariant of a slot. -/
structure Represents (s : Slot) : Prop where
  c2u : s.c2uOff ≤ s.c2uLen ∧ s.c2uLen ≤ 1024
  u2c : s.u2cOff ≤ s.u2cLen ∧ s.u2cLen ≤ 1024
  used : s.phase ≠ .free
  /-- A handshake holds few bytes and can always read more. -/
  handshake : isHandshake s = true → s.c2uLen - s.c2uOff ≤ 261 ∧ 0 < (recvDest s .client).2.2
  /-- Before the relay phase the client-bound buffer is short. -/
  short : s.phase ≠ .relay → s.phase ≠ .closed → s.u2cLen ≤ 12
  /-- Two replies in a row, the most one operation queues, are both appended. -/
  queued : s.phase.rank < Phase.relay.rank → ∀ first ∈ replies, ∀ second ∈ replies,
    u2cPending (queueClient s first) = u2cPending s ++ first ∧
    u2cPending (queueClient (queueClient s first) second) = u2cPending s ++ first ++ second
  flushing : s.phase = .flush → s.u2cOff < s.u2cLen
  /-- A relaying slot always waits for some descriptor. -/
  wants : s.phase = .relay → slotWants s ≠ {}

theorem Follows.short {s : Slot} {h : History} (follows : Follows s h)
    (before : s.phase.rank < Phase.relay.rank) : s.u2cLen ≤ 2 := by
  cases phase : s.phase with
  | free =>
      have none := follows.phase
      simp only [PhaseFollows, phase] at none
  | greeting =>
      have empty := (follows.greeting phase).1.u2cLen
      omega
  | request => exact (follows.request phase).1.u2cLen
  | needConnect => exact (follows.connect (.inl phase)).u2cLen
  | connecting => exact (follows.connect (.inr phase)).u2cLen
  | relay | flush | closed =>
      rw [phase] at before
      exact absurd before (by decide)

theorem Follows.handshake {s : Slot} {h : History} (follows : Follows s h)
    (handshake : isHandshake s = true) :
    s.c2uLen - s.c2uOff ≤ 261 ∧ 0 < (recvDest s .client).2.2 := by
  have bound : s.c2uLen ≤ 261 := by
    simp only [isHandshake, Bool.or_eq_true, decide_eq_true_eq] at handshake
    rcases handshake with phase | phase
    · exact Nat.le_trans (follows.greeting phase).2 (by decide)
    · exact (follows.request phase).2
  have room : (recvDest s .client).2.2 = kBufSize - s.c2uLen := by
    simp only [recvDest, handshake, ↓reduceIte]
    exact wrapSub_buffer follows.ordered.c2uFits (Nat.le_refl _)
  rw [room]
  simp only [kBufSize]
  omega

theorem queueClient_replies {s : Slot} (ordered : Ordered s) (short : s.u2cLen ≤ 2)
    {first second : List UInt8} (isFirst : first ∈ replies) (isSecond : second ∈ replies) :
    u2cPending (queueClient s first) = u2cPending s ++ first ∧
    u2cPending (queueClient (queueClient s first) second) =
      u2cPending s ++ first ++ second := by
  have bounded : ∀ reply ∈ replies, reply.length ≤ 10 := by decide
  have firstBound := bounded first isFirst
  have secondBound := bounded second isSecond
  have offset := ordered.u2cOrdered
  have room : s.u2cLen + first.length ≤ kBufSize := by
    simp only [kBufSize]
    omega
  have appended := u2cPending_queueClient s offset room
  have queued := queueClient_eq s room
  refine ⟨appended, ?_⟩
  rw [u2cPending_queueClient, appended]
  · rw [queued]
    dsimp only
    omega
  · rw [queued]
    simp only [kBufSize]
    omega

/-- A slot with work left waits for a descriptor. -/
theorem slotWants_busy {s : Slot} (ordered : Ordered s) (relaying : s.phase = .relay)
    (busy : ¬ Finished s) : slotWants s ≠ {} := by
  intro nothing
  apply busy
  simp only [slotWants, relaying, Wants.mk.injEq, Bool.and_eq_false_iff,
    Bool.not_eq_eq_eq_not, Bool.not_false, decide_eq_true_eq, decide_eq_false_iff_not] at nothing
  obtain ⟨clientRd, u2c, upRd, c2u⟩ := nothing
  have c2uOrdered := ordered.c2uOrdered
  have u2cOrdered := ordered.u2cOrdered
  exact ⟨clientRd.resolve_right c2u, upRd.resolve_right u2c, by omega, by omega⟩

theorem Lawful.represents {s : Slot} {h : History} (lawful : Lawful s h) : Represents s where
  c2u := ⟨lawful.follows.ordered.c2uOrdered, lawful.follows.ordered.c2uFits⟩
  u2c := ⟨lawful.follows.ordered.u2cOrdered, lawful.follows.ordered.u2cFits⟩
  used := by
    intro phase
    have none := lawful.follows.phase
    simp only [PhaseFollows, phase] at none
  handshake := lawful.follows.handshake
  short := by
    intro notRelay notClosed
    by_cases before : s.phase.rank < Phase.relay.rank
    · exact Nat.le_trans (lawful.follows.short before) (by decide)
    · cases phase : s.phase with
      | flush => exact (lawful.follows.flush phase).u2cLen
      | relay => exact absurd phase notRelay
      | closed => exact absurd phase notClosed
      | _ => exact absurd (by rw [phase]; decide) before
  queued := fun before _ isFirst _ isSecond =>
    queueClient_replies lawful.follows.ordered (lawful.follows.short before) isFirst isSecond
  flushing := fun phase => (lawful.follows.flush phase).pending
  wants := fun relaying =>
    slotWants_busy lawful.follows.ordered relaying (lawful.busy relaying)

/-- The representation invariant holds in every reachable state, and from there
on phases only move forward and a closed slot keeps its reason. -/
theorem session_run_represents (c2u u2c : Memory UInt8 kBufSize) (clientFd : Int)
    (now finGraceMs : UInt32) (ops : List CoreOp) :
    Represents ((Session.start c2u u2c clientFd now finGraceMs).run ops).slot ∧
      ∀ more : List CoreOp,
        Forward ((Session.start c2u u2c clientFd now finGraceMs).run ops).slot
          (((Session.start c2u u2c clientFd now finGraceMs).run ops).run more).slot := by
  have lawful := lawful_run (lawful_start c2u u2c clientFd now finGraceMs) ops
  exact ⟨lawful.represents, forward_run lawful⟩

end FryFirmware.Relay
