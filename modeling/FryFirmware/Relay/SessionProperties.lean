import FryFirmware.Relay.FinProperties

/-!
# Invariants of a session

Every operation, in any order, keeps the byte history, the FIN flags and the
FIN counters consistent.
-/

set_option autoImplicit false

namespace FryFirmware.Relay

open Lib

/-! ## A relaying slot is never finished -/

theorem settle_busy (s : Slot) (now : UInt32) (relaying : (settle s now).phase = .relay) :
    ¬ Finished (settle s now) := by
  unfold settle at relaying ⊢
  split at relaying
  · exfalso
    unfold closeSlot at relaying
    split at relaying
    · rename_i closed
      rw [closed] at relaying
      cases relaying
    · cases relaying
  · rename_i open_
    rw [if_neg open_]
    rintro ⟨clientRd, upRd, c2u, u2c⟩
    apply open_
    split at clientRd <;> simp_all

theorem relayUpdate_busy (s : Slot) (now : UInt32) (relaying : (relayUpdate s now).phase = .relay) :
    ¬ Finished (relayUpdate s now) := by
  unfold relayUpdate at relaying ⊢
  split at relaying
  · rename_i other
    exact absurd relaying other
  · rename_i phase
    rw [if_neg phase]
    exact settle_busy _ now relaying

theorem Updates.busy {s t : Slot} (updates : Updates s t)
    (busy : s.phase = .relay → ¬ Finished s) : t.phase = .relay → ¬ Finished t := by
  rcases updates with rfl | ⟨between, now, _, rfl⟩
  · exact busy
  · exact relayUpdate_busy between now

theorem takeShutdown_busy {s : Slot} (busy : s.phase = .relay → ¬ Finished s) (side : Side) :
    (takeShutdown s side).1.phase = .relay → ¬ Finished (takeShutdown s side).1 := by
  cases side <;> unfold takeShutdown <;> dsimp only <;> split <;> exact busy

theorem onTimer_busy {s : Slot} (busy : s.phase = .relay → ¬ Finished s) (t : Timing)
    (now : UInt32) : (onTimer s t now).phase = .relay → ¬ Finished (onTimer s t now) := by
  cases phase : s.phase with
  | needConnect | connecting | greeting | request | flush =>
      simp only [onTimer, phase]
      split
      · intro relaying
        first
          | cases relaying
          | (simp [closeSlot, phase] at relaying)
      · exact busy
  | free | closed =>
      simp only [onTimer, phase]
      intro relaying
      cases relaying
  | relay =>
      simp only [onTimer, phase]
      repeat' split
      · intro relaying
        simp [closeSlot, phase] at relaying
      · intro relaying
        simp [closeSlot, phase] at relaying
      · exact fun _ => busy phase
      · exact busy

/-- The success reply is pending when the relay phase begins. -/
theorem connected_busy {s : Slot} {h : History} (follows : Follows s h)
    (phase : s.phase = .needConnect ∨ s.phase = .connecting) (now : UInt32) :
    ¬ Finished
      { queueClient s kReplyOk with
        phase := .relay, phaseStartMs := now, lastActivityMs := now } := by
  have early := (follows.connect phase).u2cLen
  have offset := follows.ordered.u2cOrdered
  have room : s.u2cLen + kReplyOk.length ≤ kBufSize := by
    simp only [kReplyOk, kBufSize, List.length_cons, List.length_nil]
    omega
  rintro ⟨_, _, _, empty⟩
  rw [queueClient_eq s room] at empty
  simp only [kReplyOk, List.length_cons, List.length_nil] at empty
  omega

theorem onConnectResult_busy {s : Slot} {h : History} (follows : Follows s h)
    (busy : s.phase = .relay → ¬ Finished s) (ok : Bool) (now : UInt32) :
    (onConnectResult s ok now).phase = .relay → ¬ Finished (onConnectResult s ok now) := by
  unfold onConnectResult
  split
  · exact busy
  · rename_i waiting
    have phase : s.phase = .needConnect ∨ s.phase = .connecting := by
      by_contra other
      exact waiting (not_or.mp other)
    split
    · intro relaying
      cases relaying
    · exact fun _ => connected_busy follows phase now

/-! ## What an operation does to a session -/

/-- The slot and the history after an operation, and what it may have armed. -/
structure Carries (s : Slot) (h : History) (t : Slot) (after : History) : Prop where
  moves : Moves s t after
  fins : Fins t
  busy : t.phase = .relay → ¬ Finished t
  armed : Armed t → Armed s ∨ s.phase = .relay
  closed : s.phase = .closed → Relays s h → Relays t after
  dropUp : s.dropUp = true → t.dropUp = true

/-- The slot and the history agree, the FIN flags are lawful, a relaying slot has
work left, and whatever was armed was armed while relaying. -/
structure Lawful (s : Slot) (h : History) : Prop where
  follows : Follows s h
  fins : Fins s
  busy : s.phase = .relay → ¬ Finished s
  armed : Armed s → Relays s h

theorem Lawful.carry {s t : Slot} {h after : History} (lawful : Lawful s h)
    (carries : Carries s h t after) : Lawful t after where
  follows := carries.moves.follows
  fins := carries.fins
  busy := carries.busy
  armed := by
    intro armed
    rcases carries.armed armed with before | relaying
    · rcases lawful.fins.late before with relaying | closed
      · exact carries.moves.relays relaying
      · exact carries.closed closed (lawful.armed before)
    · exact carries.moves.relays relaying

theorem recvDest_closed {s : Slot} (closed : s.phase = .closed) (side : Side) :
    (recvDest s side).2.2 = 0 := by
  cases side <;> simp [recvDest, isHandshake, closed]

theorem doRecv_closed {s : Slot} (closed : s.phase = .closed) (side : Side) (answer : RecvAnswer)
    (now : UInt32) : doRecv s side answer now = (s, []) := by
  have refused := recvDest_closed closed side
  unfold doRecv
  dsimp only
  rw [if_pos refused, recvDest_refused side refused]

theorem doSend_closed {s : Slot} (closed : s.phase = .closed) (toward : Side) (answer : SendAnswer)
    (now : UInt32) : doSend s toward answer now = (s, []) := by
  have empty : (sendSrc s toward).2 = 0 := by
    cases toward <;> simp [sendSrc, isHandshake, closed]
  unfold doSend
  dsimp only
  rw [if_pos empty]

theorem queueClient_armed {s : Slot} {d : List UInt8} (armed : Armed (queueClient s d)) :
    Armed s := by
  have move := earlyMove_queueClient s d
  simpa only [Armed, move.pendShutUp, move.upWrShut, move.graceUp, move.pendShutClient,
    move.clientWrShut, move.dropUp] using armed

theorem Updates.dropUp {s t : Slot} (updates : Updates s t) (dropping : s.dropUp = true) :
    t.dropUp = true := by
  rcases updates with rfl | ⟨between, now, keeps, rfl⟩
  · exact dropping
  · exact (quiet_relayUpdate between now).dropUp (keeps.dropUp.trans dropping)

theorem onTimer_dropUp (s : Slot) (t : Timing) (now : UInt32) (dropping : s.dropUp = true) :
    (onTimer s t now).dropUp = true := by
  have failed : (connectFailed s .connectTimeout now).dropUp = s.dropUp :=
    (earlyMove_reject s kReplyFail (by decide) now).dropUp
  have closed := fun why => (quiet_closeSlot s why).dropUp dropping
  unfold onTimer
  repeat' split
  all_goals first
    | exact dropping
    | exact failed.trans dropping
    | exact closed _

/-- The buffer that feeds `side` holds nothing to send. -/
def Drained (s : Slot) : Side → Prop
  | .up => s.c2uOff = s.c2uLen
  | .client => s.u2cOff = s.u2cLen

/-- The empty buffer may serve as scratch: no stream notices. -/
theorem relays_drainAndClose {s : Slot} {h : History} {side : Side} (relays : Relays s h)
    (empty : Drained s side) (drained : List (List UInt8)) :
    Relays (drainAndClose s side drained) h := by
  cases side with
  | up =>
      have same : s.c2uOff = s.c2uLen := empty
      have stream := relays.stream
      rw [c2uPending, same, Memory.window_self] at stream
      unfold drainAndClose
      dsimp only
      split
      · refine ⟨?_, relays.reply, relays.kept, relays.whole⟩
        simpa only [c2uPending, same, Memory.window_self] using stream
      · exact relays
  | client =>
      have same : s.u2cOff = s.u2cLen := empty
      have reply := relays.reply
      rw [u2cPending, same, Memory.window_self] at reply
      unfold drainAndClose
      dsimp only
      split
      · refine ⟨relays.stream, ?_, relays.kept, relays.whole⟩
        simpa only [u2cPending, same, Memory.window_self] using reply
      · exact relays

theorem drainAndClose_phase (s : Slot) (side : Side) (drained : List (List UInt8)) :
    (drainAndClose s side drained).phase = s.phase := by
  cases side <;> unfold drainAndClose <;> dsimp only <;> split <;> rfl

theorem drainAndClose_reason (s : Slot) (side : Side) (drained : List (List UInt8)) :
    (drainAndClose s side drained).reason = s.reason := by
  cases side <;> unfold drainAndClose <;> dsimp only <;> split <;> rfl

theorem drainAndClose_ordered {s : Slot} (ordered : Ordered s) (side : Side)
    (drained : List (List UInt8)) : Ordered (drainAndClose s side drained) := by
  cases side <;> unfold drainAndClose <;> dsimp only <;> split <;>
    exact ⟨ordered.c2uOrdered, ordered.c2uFits, ordered.u2cOrdered, ordered.u2cFits⟩

theorem follows_drainAndClose {s : Slot} {h : History} {side : Side} (follows : Follows s h)
    (late : s.phase = .relay ∨ s.phase = .closed) (empty : Drained s side)
    (drained : List (List UInt8)) : Follows (drainAndClose s side drained) h := by
  have ordered := drainAndClose_ordered follows.ordered side drained
  rcases late with relaying | closed
  · refine ⟨ordered, ?_⟩
    have phase := (drainAndClose_phase s side drained).trans relaying
    simp only [PhaseFollows, phase]
    exact relays_drainAndClose (follows.relay relaying) empty drained
  · exact follows.close ordered ((drainAndClose_phase s side drained).trans closed)

theorem takeShutdown_phase (s : Slot) (side : Side) : (takeShutdown s side).1.phase = s.phase := by
  cases side <;> unfold takeShutdown <;> dsimp only <;> split <;> rfl

/-- An action other than `none` was armed, and leaves the side handed out. -/
theorem takeFinAction_taken {s : Slot} {side : Side} (taken : (takeFinAction s side).2 ≠ .none) :
    match side with
    | .up => s.pendShutUp = true ∧ (takeFinAction s side).1.upWrShut = true
    | .client => s.pendShutClient = true ∧ (takeFinAction s side).1.clientWrShut = true := by
  cases side with
  | up =>
      cases armed : s.pendShutUp with
      | false => simp [takeFinAction, takeShutdown, armed] at taken
      | true => simp [takeFinAction, takeShutdown, armed]
  | client =>
      cases armed : s.pendShutClient with
      | false => simp [takeFinAction, takeShutdown, armed] at taken
      | true => simp [takeFinAction, takeShutdown, armed]

theorem takeFinAction_drained {s : Slot} {side : Side} (fins : Fins s)
    (taken : (takeFinAction s side).2 ≠ .none) :
    Armed s ∧ Drained (takeFinAction s side).1 side := by
  have after := fins_takeFinAction fins side
  have armed := takeFinAction_taken taken
  cases side with
  | up => exact ⟨.inl armed.1, (after.up (.inr (.inl armed.2))).2⟩
  | client =>
      exact ⟨.inr (.inr (.inr (.inl armed.1))), (after.client (.inr armed.2)).2⟩

section
variable {s : Slot} {h : History} (lawful : Lawful s h)
include lawful

theorem carries_doRecv (side : Side) (answer : RecvAnswer) (now : UInt32) :
    Carries s h (doRecv s side answer now).1
      (h.received s.dropUp (doRecv s side answer now).2 side) := by
  have updates := updates_doRecv s side answer now
  refine ⟨moves_doRecv lawful.follows side answer now, updates.fins lawful.fins,
    updates.busy lawful.busy, updates.arms.armed, fun closed relays => ?_, updates.dropUp⟩
  rw [doRecv_closed closed, History.received_nil]
  exact relays

theorem carries_doSend (toward : Side) (answer : SendAnswer) (now : UInt32) :
    Carries s h (doSend s toward answer now).1 (h.sent (doSend s toward answer now).2 toward) := by
  have updates := updates_doSend lawful.fins lawful.follows.ordered toward answer now
  refine ⟨moves_doSend lawful.follows toward answer now, updates.fins lawful.fins,
    updates.busy lawful.busy, updates.arms.armed, fun closed relays => ?_, updates.dropUp⟩
  rw [doSend_closed closed, History.sent_nil]
  exact relays

theorem carries_onTimer (t : Timing) (now : UInt32) : Carries s h (onTimer s t now) h := by
  refine ⟨moves_onTimer lawful.follows t now, fins_onTimer lawful.fins t now,
    onTimer_busy lawful.busy t now, (arms_onTimer lawful.fins t now).armed, fun closed relays => ?_,
    onTimer_dropUp s t now⟩
  simpa only [onTimer, closed] using relays

theorem carries_onConnectStarted (upFd : Int) (now : UInt32) :
    Carries s h (onConnectStarted s upFd now) h := by
  refine ⟨moves_onConnectStarted lawful.follows upFd now, fins_onConnectStarted lawful.fins upFd now,
    ?_, ?_, fun closed relays => ?_, ?_⟩
  · unfold onConnectStarted
    split
    · exact lawful.busy
    · intro relaying
      cases relaying
  · unfold onConnectStarted
    split
    · exact .inl
    · exact .inl
  · rw [onConnectStarted, if_pos (by simp [closed])]
    exact relays
  · unfold onConnectStarted
    split <;> exact id

theorem carries_onConnectResult (ok : Bool) (now : UInt32) :
    Carries s h (onConnectResult s ok now) h := by
  refine ⟨moves_onConnectResult lawful.follows ok now, fins_onConnectResult lawful.fins ok now,
    onConnectResult_busy lawful.follows lawful.busy ok now, ?_, fun closed relays => ?_, ?_⟩
  · unfold onConnectResult
    split
    · exact .inl
    · split
      · exact fun armed => .inl (queueClient_armed armed)
      · exact fun armed => .inl (queueClient_armed armed)
  · rw [onConnectResult, if_pos (by simp [closed])]
    exact relays
  · unfold onConnectResult
    repeat' split
    · exact id
    · exact (earlyMove_queueClient s kReplyFail).dropUp.trans
    · exact (earlyMove_queueClient s kReplyOk).dropUp.trans

theorem carries_slotForceClose (why : ForceReason) :
    Carries s h (slotForceClose s why.reason) h := by
  have keeps : Keeps s (slotForceClose s why.reason) :=
    keeps_closeSlot s (by cases why <;> decide)
  have quiet : Quiet s (slotForceClose s why.reason) := quiet_closeSlot s _
  refine ⟨lawful.follows.moves quiet, lawful.fins.keeps keeps, ?_, keeps.arms.armed,
    fun _ relays => relays.quiet quiet, quiet.dropUp⟩
  intro relaying
  unfold slotForceClose closeSlot at relaying ⊢
  split at relaying
  · rename_i closed
    rw [closed] at relaying
    cases relaying
  · cases relaying

theorem carries_onSideClosed (side : Side) (now : UInt32) :
    Carries s h (onSideClosed s side now) h := by
  have updates := updates_onSideClosed s side now
  have quiet := quiet_onSideClosed s side now
  exact ⟨lawful.follows.moves quiet, updates.fins lawful.fins, updates.busy lawful.busy,
    updates.arms.armed, fun _ relays => relays.quiet quiet, quiet.dropUp⟩

theorem carries_takeShutdown (side : Side) : Carries s h (takeShutdown s side).1 h := by
  have quiet := quiet_takeShutdown s side
  exact ⟨lawful.follows.moves quiet, fins_takeShutdown lawful.fins side,
    takeShutdown_busy lawful.busy side, (arms_takeShutdown s side).armed,
    fun _ relays => relays.quiet quiet, quiet.dropUp⟩

theorem carries_takeFinAction (side : Side) : Carries s h (takeFinAction s side).1 h := by
  rw [takeFinAction_slot]
  exact carries_takeShutdown lawful side

theorem carries_forwardFin (side : Side) (drained : List (List UInt8)) (now : UInt32) :
    Carries s h (forwardFin s side drained now).1 h := by
  have taken := carries_takeFinAction lawful side
  by_cases closing : (takeFinAction s side).2 = .close
  · have acts : (takeFinAction s side).2 ≠ .none := by simp [closing]
    obtain ⟨armed, empty⟩ := takeFinAction_drained lawful.fins acts
    have quiet := quiet_takeFinAction s side
    have late : (takeFinAction s side).1.phase = .relay ∨
        (takeFinAction s side).1.phase = .closed := by
      rcases quiet.phase with same | closed
      · rw [same]
        exact lawful.fins.late armed
      · exact .inr closed
    have same : (forwardFin s side drained now).1 =
        onSideClosed (drainAndClose (takeFinAction s side).1 side drained) side now := by
      simp only [forwardFin_eq, closing, ↓reduceIte]
    have forward : Forward (takeFinAction s side).1
        (drainAndClose (takeFinAction s side).1 side drained) :=
      .same (drainAndClose_phase _ side drained) (drainAndClose_reason _ side drained)
    have finished := quiet_onSideClosed
      (drainAndClose (takeFinAction s side).1 side drained) side now
    refine ⟨⟨_, follows_drainAndClose taken.moves.follows late empty drained, same ▸ finished,
      quiet.forward.trans forward, fun relaying => ?_⟩,
      fins_forwardFin lawful.fins side drained now, ?_,
      (arms_forwardFin s side drained now).armed, fun closed relays => ?_, fun dropping => ?_⟩
    · rw [drainAndClose_phase, takeFinAction_slot, takeShutdown_phase]
      exact relaying
    · rw [same]
      exact relayUpdate_busy _ now
    · rw [same]
      exact (relays_drainAndClose (relays.quiet quiet) empty drained).quiet finished
    · rw [same]
      apply finished.dropUp
      rw [(keeps_drainAndClose _ side drained).dropUp]
      exact quiet.dropUp dropping
  · have same : (forwardFin s side drained now).1 = (takeFinAction s side).1 := by
      simp only [forwardFin_eq, closing, ↓reduceIte]
    rw [same]
    exact taken

end

/-! ## Runs -/

@[simp] theorem Session.noteEof_slot (w : Session) (seen : Bool) (side : Side) :
    (w.noteEof seen side).slot = w.slot := by
  cases side <;> rfl

@[simp] theorem Session.noteEof_history (w : Session) (seen : Bool) (side : Side) :
    (w.noteEof seen side).history = w.history := by
  cases side <;> rfl

@[simp] theorem Session.countFin_slot (w : Session) (taken : Bool) (side : Side) :
    (w.countFin taken side).slot = w.slot := by
  cases side <;> rfl

@[simp] theorem Session.countFin_history (w : Session) (taken : Bool) (side : Side) :
    (w.countFin taken side).history = w.history := by
  cases side <;> rfl

theorem carries_step {w : Session} (lawful : Lawful w.slot w.history) (op : CoreOp) :
    Carries w.slot w.history (w.step op).slot (w.step op).history := by
  cases op with
  | shim op =>
      cases op with
      | recv side answer now =>
          simpa [Session.step, Session.shimStep, Session.recvStep] using
            carries_doRecv lawful side answer now
      | send toward answer now => exact carries_doSend lawful toward answer now
      | timer t now => exact carries_onTimer lawful t now
      | connectStarted upFd now => exact carries_onConnectStarted lawful upFd now
      | connectResult ok now => exact carries_onConnectResult lawful ok now
      | forwardFin side drained now =>
          simpa [Session.step, Session.shimStep] using carries_forwardFin lawful side drained now
      | takeShutdown side =>
          simpa [Session.step, Session.shimStep] using carries_takeShutdown lawful side
      | forceClose why => exact carries_slotForceClose lawful why
  | takeFinAction side => simpa [Session.step] using carries_takeFinAction lawful side
  | sideClosed side now => exact carries_onSideClosed lawful side now

theorem lawful_start (c2u u2c : Memory UInt8 kBufSize) (clientFd : Int) (now finGraceMs : UInt32) :
    Lawful (Session.start c2u u2c clientFd now finGraceMs).slot
      (Session.start c2u u2c clientFd now finGraceMs).history where
  follows := by
    refine ⟨⟨Nat.le_refl 0, Nat.zero_le _, Nat.le_refl 0, Nat.zero_le _⟩,
      ⟨rfl, rfl, ?_, rfl, rfl, rfl, rfl⟩, Nat.zero_le _⟩
    exact (c2u.window_self 0).symm
  fins := by
    constructor <;> simp [Session.start, slotInit]
  busy := fun relaying => by cases relaying
  armed := fun armed => by simp [Armed, Session.start, slotInit] at armed

theorem lawful_run {w : Session} (lawful : Lawful w.slot w.history) (ops : List CoreOp) :
    Lawful (w.run ops).slot (w.run ops).history := by
  induction ops generalizing w with
  | nil => exact lawful
  | cons op ops ih => exact ih (lawful.carry (carries_step lawful op))

/-- Phases only move forward over a whole run. -/
theorem forward_run {w : Session} (lawful : Lawful w.slot w.history) (ops : List CoreOp) :
    Forward w.slot (w.run ops).slot := by
  induction ops generalizing w with
  | nil => exact .refl w.slot
  | cons op ops ih =>
      have step := carries_step lawful op
      exact step.moves.forward.trans (ih (lawful.carry step))

end FryFirmware.Relay
