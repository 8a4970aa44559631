import FryFirmware.Relay.SessionProperties

/-!
# The FIN protocol under the shim

Under the shim's own operations a side is finished only because its peer said
so or because its FIN was handed out. That ties the answer of `takeFinAction`
to what the peers really sent.
-/

set_option autoImplicit false

namespace FryFirmware.Relay

open Lib

/-- The side may still be read. -/
def Slot.rdOpen (s : Slot) : Side → Bool
  | .client => s.clientRdOpen
  | .up => s.upRdOpen

/-- The FIN toward the side is armed. -/
def Slot.pendShut (s : Slot) : Side → Bool
  | .client => s.pendShutClient
  | .up => s.pendShutUp

/-- The FIN toward the side has been handed out. -/
def Slot.wrShut (s : Slot) : Side → Bool
  | .client => s.clientWrShut
  | .up => s.upWrShut

/-- The side's peer delivered its EOF. -/
def Session.eof (w : Session) : Side → Bool
  | .client => w.clientEof
  | .up => w.upEof

/-- How often a FIN toward the side was handed out. -/
def Session.fins (w : Session) : Side → Nat
  | .client => w.finsClient
  | .up => w.finsUp

/-! ## Open sides -/

theorem closeSlot_rdOpen (s : Slot) (why : CloseReason) (side : Side) :
    (closeSlot s why).rdOpen side = s.rdOpen side := by
  unfold closeSlot
  split <;> rfl

theorem touch_rdOpen (s : Slot) (now : UInt32) (side : Side) :
    (touch s now).rdOpen side = s.rdOpen side := by
  unfold touch
  dsimp only
  split <;> rfl

theorem relayUpdate_rdOpen (s : Slot) (now : UInt32) (side : Side) :
    (relayUpdate s now).rdOpen side = s.rdOpen side := by
  have armedUp : (armUp s now).rdOpen side = s.rdOpen side := by
    unfold armUp
    repeat' split
    all_goals rfl
  have armedClient : (armClient (armUp s now)).rdOpen side = (armUp s now).rdOpen side := by
    unfold armClient
    split <;> rfl
  unfold relayUpdate
  split
  · rfl
  · rw [← armedUp, ← armedClient]
    unfold settle
    split
    · exact closeSlot_rdOpen _ .done side
    · split <;> rfl

theorem relayUpdate_wrShut (s : Slot) (now : UInt32) (side : Side) :
    (relayUpdate s now).wrShut side = s.wrShut side := by
  have armedUp : (armUp s now).wrShut side = s.wrShut side := by
    unfold armUp
    repeat' split
    all_goals rfl
  have armedClient : (armClient (armUp s now)).wrShut side = (armUp s now).wrShut side := by
    unfold armClient
    split <;> rfl
  unfold relayUpdate
  split
  · rfl
  · rw [← armedUp, ← armedClient]
    unfold settle closeSlot
    repeat' split
    all_goals rfl

theorem EarlyMove.rdOpen {s t : Slot} (move : EarlyMove s t) (side : Side) :
    t.rdOpen side = s.rdOpen side := by
  cases side
  · exact move.clientRd
  · exact move.upRd

theorem EarlyMove.wrShut {s t : Slot} (move : EarlyMove s t) (side : Side) :
    t.wrShut side = s.wrShut side := by
  cases side
  · exact move.clientWrShut
  · exact move.upWrShut

theorem Keeps.wrShut {s t : Slot} (keeps : Keeps s t) (side : Side) :
    t.wrShut side = s.wrShut side := by
  cases side
  · exact keeps.clientWrShut
  · exact keeps.upWrShut

theorem Updates.wrShut {s t : Slot} (updates : Updates s t) (side : Side) :
    t.wrShut side = s.wrShut side := by
  rcases updates with rfl | ⟨between, now, keeps, rfl⟩
  · rfl
  · exact (relayUpdate_wrShut between now side).trans (keeps.wrShut side)

theorem onRecvData_rdOpen (s : Slot) (side : Side) (n : Nat) (now : UInt32) (other : Side) :
    (onRecvData s side n now).rdOpen other = s.rdOpen other := by
  cases side with
  | client =>
      simp only [onRecvData]
      split
      · exact (earlyMove_advance _ now).rdOpen other
      · split
        · exact touch_rdOpen _ now other
        · rfl
  | up =>
      simp only [onRecvData]
      repeat' split
      · exact touch_rdOpen _ now other
      · exact touch_rdOpen _ now other
      · rfl

/-- Only an EOF in the relay phase finishes a side by reading. -/
theorem onRecv_rdOpen {s : Slot} (live : isLive s = true) (side : Side) (ret : Int) (err : Errno)
    (now : UInt32) (other : Side) :
    (onRecv s side ret err now).rdOpen other =
      (s.rdOpen other && !(decide (other = side) && decide (ret = 0) &&
        decide (s.phase = .relay))) := by
  unfold onRecv
  rw [if_neg (by simp [live]), relayUpdate_rdOpen]
  by_cases positive : ret > 0
  · have nonzero : ret ≠ 0 := by omega
    simp only [classifyRecv, positive, ↓reduceIte, onRecvData_rdOpen, nonzero, decide_false,
      Bool.and_false, Bool.false_and, Bool.not_false, Bool.and_true]
  by_cases zero : ret = 0
  · subst zero
    have eof : classifyRecv 0 err = .eof := rfl
    simp only [eof, decide_true, Bool.and_true]
    split
    · rename_i handshake
      have notRelay : s.phase ≠ .relay := by
        intro relaying
        simp [isHandshake, relaying] at handshake
      simp [closeSlot_rdOpen, notRelay]
    · split
      · rename_i relaying
        rw [touch_rdOpen]
        cases side <;> cases other <;> simp [finishSide, Slot.rdOpen, relaying]
      · rename_i notRelay
        simp [notRelay]
  · simp only [classifyRecv, positive, zero, ↓reduceIte, decide_false, Bool.and_false,
      Bool.false_and, Bool.not_false, Bool.and_true]
    cases err <;> simp [classifyErrno, closeSlot_rdOpen]

theorem recvDest_rdOpen (s : Slot) (side other : Side) :
    (recvDest s side).1.rdOpen other = s.rdOpen other := by
  cases side <;> simp only [recvDest] <;> repeat' split
  all_goals rfl

theorem storeInbound_rdOpen (s : Slot) (side : Side) (position : Nat) (data : List UInt8)
    (other : Side) : (storeInbound s side position data).rdOpen other = s.rdOpen other := by
  cases side <;> rfl

theorem storeInbound_phase (s : Slot) (side : Side) (position : Nat) (data : List UInt8) :
    (storeInbound s side position data).phase = s.phase := by
  cases side <;> rfl

theorem doRecv_rdOpen (s : Slot) (side : Side) (answer : RecvAnswer) (now : UInt32)
    (other : Side) :
    (doRecv s side answer now).1.rdOpen other =
      (s.rdOpen other && !(decide (other = side) && sawEof s side answer &&
        decide (s.phase = .relay))) := by
  unfold doRecv sawEof
  dsimp only
  by_cases refused : (recvDest s side).2.2 = 0
  · rw [if_pos refused, recvDest_rdOpen]
    simp [refused]
  · have live := live_storeInbound (recvDest_reading side refused).live side (recvDest s side).2.1
      (recvCall (recvDest s side).2.2 answer).1
    rw [if_neg refused, onRecv_rdOpen live, storeInbound_rdOpen, recvDest_rdOpen,
      storeInbound_phase, recvDest_phase]
    simp [refused]

theorem isHandshake_recvDest (s : Slot) (side : Side) :
    isHandshake (recvDest s side).1 = isHandshake s := by
  simp only [isHandshake, recvDest_phase]

/-- An EOF during the handshake closes the slot. -/
theorem doRecv_eof {s : Slot} {side : Side} {answer : RecvAnswer}
    (seen : sawEof s side answer = true) (now : UInt32) :
    s.phase = .relay ∨ (isHandshake s = true ∧ (doRecv s side answer now).1.phase = .closed) := by
  unfold sawEof at seen
  simp only [ne_eq, Bool.and_eq_true, decide_eq_true_eq] at seen
  obtain ⟨room, zero⟩ := seen
  have reading := recvDest_reading side room
  by_cases handshake : isHandshake s = true
  · refine .inr ⟨handshake, ?_⟩
    have live := live_storeInbound reading.live side (recvDest s side).2.1
      (recvCall (recvDest s side).2.2 answer).1
    have shaking : isHandshake (storeInbound (recvDest s side).1 side (recvDest s side).2.1
        (recvCall (recvDest s side).2.2 answer).1) = true := by
      rw [isHandshake, storeInbound_phase, recvDest_phase]
      exact handshake
    have eof : ∀ err, classifyRecv 0 err = .eof := fun _ => rfl
    have closes : ∀ (t : Slot), isLive t = true → (closeSlot t .handshakeEof).phase = .closed := by
      intro t _
      unfold closeSlot
      split
      · assumption
      · rfl
    unfold doRecv
    dsimp only
    rw [if_neg room, zero]
    simp only [onRecv, live, eof, shaking, Bool.not_true, Bool.false_eq_true, ↓reduceIte]
    rw [relayUpdate, if_pos (by rw [closes _ live]; decide)]
    exact closes _ live
  · left
    cases side with
    | client =>
        rcases reading with shaking | ⟨relaying, _⟩
        · rw [isHandshake_recvDest] at shaking
          exact absurd shaking handshake
        · rw [recvDest_phase] at relaying
          exact relaying
    | up =>
        have relaying := reading.1
        rw [recvDest_phase] at relaying
        exact relaying

/-! ## The invariant -/

/-- Counters, EOFs and open sides of a session agree. -/
structure Tracked (w : Session) : Prop where
  lawful : Lawful w.slot w.history
  count : ∀ side, w.fins side = (w.slot.wrShut side).toNat
  finished : ∀ side, w.slot.rdOpen side = false → w.eof side = true ∨ w.slot.wrShut side = true
  seen : ∀ side, w.eof side = true →
    w.slot.rdOpen side = false ∨ (¬ Armed w.slot ∧ w.slot.phase = .closed)

/-- A slot that closed unarmed stays so. -/
theorem Carries.unarmed {s t : Slot} {h after : History} (carries : Carries s h t after)
    (before : ¬ Armed s ∧ s.phase = .closed) : ¬ Armed t ∧ t.phase = .closed := by
  refine ⟨fun armed => ?_, (carries.moves.forward.closed before.2).1⟩
  rcases carries.armed armed with was | relaying
  · exact before.1 was
  · rw [before.2] at relaying
    cases relaying

/-- An operation that neither finishes a side nor hands out a FIN. -/
theorem Tracked.still {w : Session} {t : Slot} {after : History} (tracked : Tracked w)
    (carries : Carries w.slot w.history t after)
    (sameOpen : ∀ side, t.rdOpen side = w.slot.rdOpen side)
    (sameShut : ∀ side, t.wrShut side = w.slot.wrShut side) :
    Tracked { w with slot := t, history := after } where
  lawful := tracked.lawful.carry carries
  count := fun side => (tracked.count side).trans (congrArg _ (sameShut side).symm)
  finished := by
    intro side closed
    rw [sameShut]
    exact tracked.finished side ((sameOpen side).symm.trans closed)
  seen := by
    intro side eof
    rcases tracked.seen side eof with closed | unarmed
    · exact .inl ((sameOpen side).trans closed)
    · exact .inr (carries.unarmed unarmed)

theorem tracked_recv {w : Session} (tracked : Tracked w) (side : Side) (answer : RecvAnswer)
    (now : UInt32) : Tracked (w.recvStep side answer now) := by
  have carries := carries_doRecv tracked.lawful side answer now
  have shut := (updates_doRecv w.slot side answer now).wrShut
  have opened := doRecv_rdOpen w.slot side answer now
  have noted : ∀ other, (w.recvStep side answer now).eof other =
      (w.eof other || (decide (other = side) && sawEof w.slot side answer)) := by
    intro other
    cases side <;> cases other <;> simp [Session.recvStep, Session.noteEof, Session.eof]
  have slot : (w.recvStep side answer now).slot = (doRecv w.slot side answer now).1 := by
    simp [Session.recvStep]
  refine ⟨?_, ?_, ?_, ?_⟩
  · simpa [Session.recvStep] using tracked.lawful.carry carries
  · intro other
    rw [slot, shut, ← tracked.count]
    cases side <;> cases other <;> rfl
  · intro other closed
    rw [slot, opened, Bool.and_eq_false_iff] at closed
    rw [noted, slot, shut]
    rcases closed with closed | ended
    · rcases tracked.finished other closed with eof | shut
      · exact .inl (by simp [eof])
      · exact .inr shut
    · simp only [Bool.not_eq_false', Bool.and_eq_true] at ended
      exact .inl (by simp [ended.1.1, ended.1.2])
  · intro other eof
    rw [noted, Bool.or_eq_true, Bool.and_eq_true] at eof
    rw [slot, opened]
    rcases eof with eof | ⟨same, eof⟩
    · rcases tracked.seen other eof with closed | unarmed
      · exact .inl (by simp [closed])
      · exact .inr (carries.unarmed unarmed)
    · rcases doRecv_eof eof now with relaying | ⟨handshake, closed⟩
      · exact .inl (by simp [same, eof, relaying])
      · refine .inr ⟨fun armed => ?_, closed⟩
        have late : w.slot.phase = .relay ∨ w.slot.phase = .closed := by
          rcases carries.armed armed with before | relaying
          · exact tracked.lawful.fins.late before
          · exact .inl relaying
        rcases late with phase | phase <;> simp [isHandshake, phase] at handshake

theorem onSendData_rdOpen (s : Slot) (toward : Side) (n : Nat) (side : Side) :
    (onSendData s toward n).rdOpen side = s.rdOpen side := by
  cases toward <;> simp only [onSendData] <;> repeat' split
  all_goals first
    | rfl
    | exact closeSlot_rdOpen _ _ side

theorem doSend_rdOpen (s : Slot) (toward : Side) (answer : SendAnswer) (now : UInt32)
    (side : Side) : (doSend s toward answer now).1.rdOpen side = s.rdOpen side := by
  unfold doSend
  dsimp only
  split
  · rfl
  · unfold onSend
    split
    · rfl
    · rw [relayUpdate_rdOpen]
      split
      · dsimp only
        split
        · rw [touch_rdOpen, onSendData_rdOpen]
        · exact onSendData_rdOpen s toward _ side
      · rfl
      · rfl
      · exact closeSlot_rdOpen s _ side
      · exact closeSlot_rdOpen s _ side

theorem onTimer_same (s : Slot) (t : Timing) (now : UInt32) (side : Side) :
    (onTimer s t now).rdOpen side = s.rdOpen side ∧
      (onTimer s t now).wrShut side = s.wrShut side := by
  have failed : ∀ why : CloseReason, why ≠ .done → EarlyMove s (connectFailed s why now) :=
    fun why other => earlyMove_reject s kReplyFail other now
  have closed : ∀ why, (closeSlot s why).wrShut side = s.wrShut side := by
    intro why
    unfold closeSlot
    split <;> rfl
  unfold onTimer
  repeat' split
  all_goals first
    | exact ⟨rfl, rfl⟩
    | exact ⟨closeSlot_rdOpen s _ side, closed _⟩
    | exact ⟨(failed _ (by decide)).rdOpen side, (failed _ (by decide)).wrShut side⟩

theorem onConnectStarted_same (s : Slot) (upFd : Int) (now : UInt32) (side : Side) :
    (onConnectStarted s upFd now).rdOpen side = s.rdOpen side ∧
      (onConnectStarted s upFd now).wrShut side = s.wrShut side := by
  unfold onConnectStarted
  split <;> exact ⟨rfl, rfl⟩

theorem onConnectResult_same (s : Slot) (ok : Bool) (now : UInt32) (side : Side) :
    (onConnectResult s ok now).rdOpen side = s.rdOpen side ∧
      (onConnectResult s ok now).wrShut side = s.wrShut side := by
  have queued := earlyMove_queueClient s kReplyOk
  have failed := earlyMove_reject s kReplyFail (show CloseReason.connectFail ≠ .done by decide) now
  unfold onConnectResult
  repeat' split
  · exact ⟨rfl, rfl⟩
  · exact ⟨failed.rdOpen side, failed.wrShut side⟩
  · exact ⟨queued.rdOpen side, queued.wrShut side⟩

theorem slotForceClose_same (s : Slot) (why : CloseReason) (side : Side) :
    (slotForceClose s why).rdOpen side = s.rdOpen side ∧
      (slotForceClose s why).wrShut side = s.wrShut side := by
  unfold slotForceClose closeSlot
  split <;> exact ⟨rfl, rfl⟩

/-! ## Handing out a FIN -/

theorem takeShutdown_rdOpen (s : Slot) (side other : Side) :
    (takeShutdown s side).1.rdOpen other = s.rdOpen other := by
  cases side <;> unfold takeShutdown <;> dsimp only <;> split <;> rfl

/-- A FIN is handed out where none was before. -/
theorem takeShutdown_wrShut {s : Slot} (fins : Fins s) (side other : Side) :
    ((takeShutdown s side).1.wrShut other).toNat =
      (s.wrShut other).toNat + (decide (other = side) && (takeShutdown s side).2).toNat := by
  cases side with
  | up =>
      cases armed : s.pendShutUp with
      | false => cases other <;> simp [takeShutdown, armed]
      | true =>
          have unshut : s.upWrShut = false := by
            cases shut : s.upWrShut with
            | false => rfl
            | true => rw [fins.onceUp shut] at armed; cases armed
          cases other <;> simp [takeShutdown, armed, Slot.wrShut, unshut]
  | client =>
      cases armed : s.pendShutClient with
      | false => cases other <;> simp [takeShutdown, armed]
      | true =>
          have unshut : s.clientWrShut = false := by
            cases shut : s.clientWrShut with
            | false => rfl
            | true => rw [fins.onceClient shut] at armed; cases armed
          cases other <;> simp [takeShutdown, armed, Slot.wrShut, unshut]

theorem takeFinAction_none (s : Slot) (side : Side) :
    decide ((takeFinAction s side).2 ≠ .none) = (takeShutdown s side).2 := by
  cases side <;> unfold takeFinAction takeShutdown <;> dsimp only <;> split <;> simp <;>
    split <;> decide

theorem countFin_fins (w : Session) (taken : Bool) (side other : Side) :
    (w.countFin taken side).fins other = w.fins other + (decide (other = side) && taken).toNat := by
  cases side <;> cases other <;> simp [Session.countFin, Session.fins]

theorem countFin_eof (w : Session) (taken : Bool) (side other : Side) :
    (w.countFin taken side).eof other = w.eof other := by
  cases side <;> cases other <;> rfl

/-- Taking a FIN, whatever the shim then does with it. -/
theorem tracked_fin {w : Session} {t : Slot} (tracked : Tracked w) (side : Side)
    (carries : Carries w.slot w.history t w.history)
    (shut : ∀ other, t.wrShut other = (takeShutdown w.slot side).1.wrShut other)
    (opened : ∀ other, t.rdOpen other = w.slot.rdOpen other ∨
      (t.rdOpen other = false ∧ t.wrShut other = true)) :
    Tracked ({ w with slot := t }.countFin (takeShutdown w.slot side).2 side) := by
  have grown : ∀ other, w.slot.wrShut other = true → t.wrShut other = true := by
    intro other was
    have counted := takeShutdown_wrShut tracked.lawful.fins side other
    rw [shut]
    rw [was] at counted
    cases now : (takeShutdown w.slot side).1.wrShut other with
    | true => rfl
    | false =>
        rw [now] at counted
        simp only [Bool.toNat_false, Bool.toNat_true] at counted
        omega
  refine ⟨?_, ?_, ?_, ?_⟩
  · simpa using tracked.lawful.carry carries
  · intro other
    rw [countFin_fins, Session.countFin_slot, shut, takeShutdown_wrShut tracked.lawful.fins,
      ← tracked.count]
    cases other <;> rfl
  · intro other closed
    rw [Session.countFin_slot] at closed ⊢
    rw [countFin_eof]
    rcases opened other with same | ⟨_, handed⟩
    · rcases tracked.finished other (same.symm.trans closed) with eof | was
      · exact .inl (by cases other <;> exact eof)
      · exact .inr (grown other was)
    · exact .inr handed
  · intro other eof
    rw [Session.countFin_slot]
    rw [countFin_eof] at eof
    rcases tracked.seen other (by cases other <;> exact eof) with closed | unarmed
    · rcases opened other with same | ⟨now, _⟩
      · exact .inl (same.trans closed)
      · exact .inl now
    · exact .inr (carries.unarmed unarmed)

theorem drainAndClose_rdOpen (s : Slot) (side : Side) (drained : List (List UInt8))
    (other : Side) : (drainAndClose s side drained).rdOpen other = s.rdOpen other := by
  cases side <;> unfold drainAndClose <;> dsimp only <;> split <;> rfl

theorem finishSide_rdOpen (s : Slot) (side other : Side) :
    (finishSide s side).rdOpen other = (s.rdOpen other && decide (other ≠ side)) := by
  cases side <;> cases other <;> simp [finishSide, Slot.rdOpen]

theorem tracked_forwardFin {w : Session} (tracked : Tracked w) (side : Side)
    (drained : List (List UInt8)) (now : UInt32) :
    Tracked (w.shimStep (.forwardFin side drained now)) := by
  have carries := carries_forwardFin tracked.lawful side drained now
  have taken : decide ((forwardFin w.slot side drained now).2 ≠ .none) =
      (takeShutdown w.slot side).2 := by
    rw [forwardFin_eq]
    exact takeFinAction_none w.slot side
  unfold Session.shimStep
  dsimp only
  rw [taken]
  by_cases closing : (takeFinAction w.slot side).2 = .close
  · have same : (forwardFin w.slot side drained now).1 =
        onSideClosed (drainAndClose (takeFinAction w.slot side).1 side drained) side now := by
      simp only [forwardFin_eq, closing, ↓reduceIte]
    have shut : ∀ other, (forwardFin w.slot side drained now).1.wrShut other =
        (takeShutdown w.slot side).1.wrShut other := by
      intro other
      rw [same, (updates_onSideClosed _ side now).wrShut,
        (keeps_drainAndClose _ side drained).wrShut, takeFinAction_slot]
    refine tracked_fin tracked side carries shut fun other => ?_
    have opened : (forwardFin w.slot side drained now).1.rdOpen other =
        (w.slot.rdOpen other && decide (other ≠ side)) := by
      rw [same, onSideClosed, relayUpdate_rdOpen, finishSide_rdOpen, drainAndClose_rdOpen,
        takeFinAction_slot, takeShutdown_rdOpen]
    by_cases own : other = side
    · subst own
      refine .inr ⟨by rw [opened]; simp, ?_⟩
      have acts : (takeFinAction w.slot other).2 ≠ .none := by simp [closing]
      have handed := takeFinAction_taken acts
      rw [shut, ← takeFinAction_slot]
      cases other
      · exact handed.2
      · exact handed.2
    · exact .inl (by rw [opened]; simp [own])
  · have same : (forwardFin w.slot side drained now).1 = (takeShutdown w.slot side).1 := by
      simp only [forwardFin_eq, closing, ↓reduceIte, takeFinAction_slot]
    rw [same] at carries ⊢
    exact tracked_fin tracked side carries (fun _ => rfl)
      (fun other => .inl (takeShutdown_rdOpen w.slot side other))

theorem tracked_shimStep {w : Session} (tracked : Tracked w) (op : ShimOp) :
    Tracked (w.shimStep op) := by
  have lawful := tracked.lawful
  cases op with
  | recv side answer now => exact tracked_recv tracked side answer now
  | send toward answer now =>
      exact tracked.still (carries_doSend lawful toward answer now)
        (doSend_rdOpen w.slot toward answer now)
        (updates_doSend lawful.fins lawful.follows.ordered toward answer now).wrShut
  | timer t now =>
      exact tracked.still (carries_onTimer lawful t now)
        (fun side => (onTimer_same w.slot t now side).1)
        (fun side => (onTimer_same w.slot t now side).2)
  | connectStarted upFd now =>
      exact tracked.still (carries_onConnectStarted lawful upFd now)
        (fun side => (onConnectStarted_same w.slot upFd now side).1)
        (fun side => (onConnectStarted_same w.slot upFd now side).2)
  | connectResult ok now =>
      exact tracked.still (carries_onConnectResult lawful ok now)
        (fun side => (onConnectResult_same w.slot ok now side).1)
        (fun side => (onConnectResult_same w.slot ok now side).2)
  | forwardFin side drained now => exact tracked_forwardFin tracked side drained now
  | takeShutdown side =>
      exact tracked_fin tracked side (carries_takeShutdown lawful side) (fun _ => rfl)
        (fun other => .inl (takeShutdown_rdOpen w.slot side other))
  | forceClose why =>
      exact tracked.still (carries_slotForceClose lawful why)
        (fun side => (slotForceClose_same w.slot why.reason side).1)
        (fun side => (slotForceClose_same w.slot why.reason side).2)

theorem tracked_start (c2u u2c : Memory UInt8 kBufSize) (clientFd : Int)
    (now finGraceMs : UInt32) : Tracked (Session.start c2u u2c clientFd now finGraceMs) where
  lawful := lawful_start c2u u2c clientFd now finGraceMs
  count := fun side => by cases side <;> rfl
  finished := fun side closed => by cases side <;> cases closed
  seen := fun side eof => by cases side <;> cases eof

theorem tracked_shimRun {w : Session} (tracked : Tracked w) (ops : List ShimOp) :
    Tracked (w.shimRun ops) := by
  induction ops generalizing w with
  | nil => exact tracked
  | cons op ops ih => exact ih (tracked_shimStep tracked op)

/-! ## The law -/

/-- The slot waits until the side can be written. -/
def wantsWrite (s : Slot) : Side → Bool
  | .client => (slotWants s).clientWr
  | .up => (slotWants s).upWr

/-- What the FIN protocol promises in one state of a session. -/
structure FinLaw (w : Session) : Prop where
  once : ∀ side, w.fins side ≤ 1
  /-- A side is finished by its peer, or by the shim after its FIN. -/
  finished : ∀ side, w.slot.rdOpen side = false → w.eof side = true ∨ w.fins side = 1
  up : ∀ op, w.fins .up < (w.shimStep op).fins .up →
    w.slot.clientRdOpen = false ∧ StripsHandshake w.history.clientIn w.history.upOut
  client : ∀ op, w.fins .client < (w.shimStep op).fins .client →
    w.slot.upRdOpen = false ∧ u2cPending w.slot = [] ∧
      w.history.clientOut = kMethodOk ++ kReplyOk ++ w.history.upKept
  grace : w.slot.graceUp = true → w.slot.pendShutUp = false ∧ w.fins .up = 0
  halfClose : ∀ side, (takeFinAction w.slot side).2 = .halfClose → w.eof side = true
  /-- A closed side was open, and its buffer is empty from then on. -/
  close : ∀ side, (takeFinAction w.slot side).2 = .close →
    w.eof side = false ∧ Drained w.slot side ∧
      ∀ drained now more,
        Drained ((w.shimStep (.forwardFin side drained now)).shimRun more).slot side ∧
        wantsWrite ((w.shimStep (.forwardFin side drained now)).shimRun more).slot side = false
  done : w.slot.phase = .closed → w.slot.reason = .done → Finished w.slot

theorem fins_shimStep_mono (w : Session) (op : ShimOp) (side : Side) :
    w.fins side ≤ (w.shimStep op).fins side := by
  cases op with
  | recv from_ answer now => cases from_ <;> cases side <;> exact Nat.le_refl _
  | forwardFin of_ drained now =>
      simp only [Session.shimStep, countFin_fins]
      cases side <;> exact Nat.le_add_right _ _
  | takeShutdown of_ =>
      simp only [Session.shimStep, countFin_fins]
      cases side <;> exact Nat.le_add_right _ _
  | send | timer | connectStarted | connectResult | forceClose => cases side <;> exact Nat.le_refl _

theorem fins_shimRun_mono (w : Session) (ops : List ShimOp) (side : Side) :
    w.fins side ≤ (w.shimRun ops).fins side := by
  induction ops generalizing w with
  | nil => exact Nat.le_refl _
  | cons op ops ih => exact Nat.le_trans (fins_shimStep_mono w op side) (ih (w.shimStep op))

theorem takeShutdown_taken (s : Slot) (side : Side) :
    (takeShutdown s side).2 = s.pendShut side := by
  cases side with
  | up => cases armed : s.pendShutUp <;> simp [takeShutdown, Slot.pendShut, armed]
  | client => cases armed : s.pendShutClient <;> simp [takeShutdown, Slot.pendShut, armed]

theorem countFin_grows {w : Session} {t : Slot} {taken : Bool} {side other : Side}
    (grows : w.fins other < ({ w with slot := t }.countFin taken side).fins other) :
    other = side ∧ taken = true := by
  have same : { w with slot := t }.fins other = w.fins other := by cases other <;> rfl
  rw [countFin_fins, same] at grows
  cases counted : decide (other = side) && taken with
  | true => simpa only [Bool.and_eq_true, decide_eq_true_eq] using counted
  | false =>
      rw [counted] at grows
      exact absurd grows (Nat.lt_irrefl _)

/-- A FIN was armed before it is handed out. -/
theorem pending_of_handed {w : Session} {side : Side} (op : ShimOp)
    (handed : w.fins side < (w.shimStep op).fins side) : w.slot.pendShut side = true := by
  rw [← takeShutdown_taken]
  cases op with
  | recv from_ answer now => cases from_ <;> cases side <;> exact absurd handed (Nat.lt_irrefl _)
  | forwardFin of_ drained now =>
      simp only [Session.shimStep] at handed
      obtain ⟨rfl, taken⟩ := countFin_grows handed
      rw [forwardFin_eq, takeFinAction_none] at taken
      exact taken
  | takeShutdown of_ =>
      simp only [Session.shimStep] at handed
      obtain ⟨rfl, taken⟩ := countFin_grows handed
      exact taken
  | send | timer | connectStarted | connectResult | forceClose =>
      cases side <;> exact absurd handed (Nat.lt_irrefl _)

/-- A FIN is armed only behind an empty buffer whose source is finished. -/
theorem Lawful.pending {s : Slot} {h : History} (lawful : Lawful s h) {side : Side}
    (armed : s.pendShut side = true) : Relays s h ∧ Drained s side ∧ s.wrShut side = false := by
  cases side with
  | up =>
      refine ⟨lawful.armed (.inl armed), (lawful.fins.up (.inl armed)).2, ?_⟩
      cases shut : s.upWrShut with
      | false => exact shut
      | true => exact absurd armed (by simp [Slot.pendShut, lawful.fins.onceUp shut])
  | client =>
      refine ⟨lawful.armed (.inr (.inr (.inr (.inl armed)))), (lawful.fins.client (.inl armed)).2, ?_⟩
      cases shut : s.clientWrShut with
      | false => exact shut
      | true => exact absurd armed (by simp [Slot.pendShut, lawful.fins.onceClient shut])

theorem Tracked.up {w : Session} (tracked : Tracked w) (op : ShimOp)
    (handed : w.fins .up < (w.shimStep op).fins .up) :
    w.slot.clientRdOpen = false ∧ StripsHandshake w.history.clientIn w.history.upOut := by
  have armed := pending_of_handed op handed
  obtain ⟨relays, empty, _⟩ := tracked.lawful.pending armed
  have same : w.slot.c2uOff = w.slot.c2uLen := empty
  refine ⟨(tracked.lawful.fins.up (.inl armed)).1, ?_⟩
  simpa only [c2uPending, same, Memory.window_self, List.append_nil] using relays.stream

theorem Tracked.client {w : Session} (tracked : Tracked w) (op : ShimOp)
    (handed : w.fins .client < (w.shimStep op).fins .client) :
    w.slot.upRdOpen = false ∧ u2cPending w.slot = [] ∧
      w.history.clientOut = kMethodOk ++ kReplyOk ++ w.history.upKept := by
  have armed := pending_of_handed op handed
  obtain ⟨relays, empty, _⟩ := tracked.lawful.pending armed
  have same : w.slot.u2cOff = w.slot.u2cLen := empty
  have nothing : u2cPending w.slot = [] := by rw [u2cPending, same, Memory.window_self]
  refine ⟨(tracked.lawful.fins.client (.inl armed)).1, nothing, ?_⟩
  rw [← relays.reply, nothing, List.append_nil]

/-- What the answer of `takeFinAction` says about the slot. -/
theorem takeFinAction_answer (s : Slot) (side : Side) :
    (takeFinAction s side).2 =
      if s.pendShut side = false then .none
      else if s.rdOpen side then .close else .halfClose := by
  cases side with
  | up =>
      cases armed : s.pendShutUp <;> cases opened : s.upRdOpen <;>
        simp [takeFinAction, takeShutdown, peerFinSeen, Slot.pendShut, Slot.rdOpen, armed, opened]
  | client =>
      cases armed : s.pendShutClient <;> cases opened : s.clientRdOpen <;>
        simp [takeFinAction, takeShutdown, peerFinSeen, Slot.pendShut, Slot.rdOpen, armed, opened]

theorem Tracked.halfClose {w : Session} (tracked : Tracked w) (side : Side)
    (answer : (takeFinAction w.slot side).2 = .halfClose) : w.eof side = true := by
  rw [takeFinAction_answer] at answer
  split at answer
  · cases answer
  · rename_i armed
    split at answer
    · cases answer
    · rename_i closed
      have unshut := (tracked.lawful.pending (eq_true_of_ne_false armed)).2.2
      rcases tracked.finished side (eq_false_of_ne_true closed) with eof | shut
      · exact eof
      · rw [unshut] at shut
        cases shut

theorem Tracked.shut {w : Session} (tracked : Tracked w) {side : Side}
    (handed : 1 ≤ w.fins side) : w.slot.wrShut side = true := by
  rw [tracked.count] at handed
  cases shut : w.slot.wrShut side with
  | true => rfl
  | false =>
      rw [shut] at handed
      exact absurd handed (by decide)

/-- Once a FIN was handed out, its side has nothing to send. -/
theorem Tracked.handed {w : Session} (tracked : Tracked w) {side : Side}
    (handed : 1 ≤ w.fins side) : Drained w.slot side ∧ wantsWrite w.slot side = false := by
  have shut := tracked.shut handed
  have fins := tracked.lawful.fins
  cases side with
  | up =>
      have same := (fins.up (.inr (.inl shut))).2
      refine ⟨same, ?_⟩
      rcases fins.late_up (.inr (.inl shut)) with phase | phase <;>
        simp [wantsWrite, slotWants, phase, same]
  | client =>
      have same := (fins.client (.inr shut)).2
      refine ⟨same, ?_⟩
      rcases fins.late_client (.inr shut) with phase | phase <;>
        simp [wantsWrite, slotWants, phase, same]

theorem Tracked.close {w : Session} (tracked : Tracked w) (side : Side)
    (answer : (takeFinAction w.slot side).2 = .close) :
    w.eof side = false ∧ Drained w.slot side ∧
      ∀ drained now more,
        Drained ((w.shimStep (.forwardFin side drained now)).shimRun more).slot side ∧
        wantsWrite ((w.shimStep (.forwardFin side drained now)).shimRun more).slot side = false := by
  have closing := answer
  rw [takeFinAction_answer] at answer
  split at answer
  · cases answer
  rename_i unpending
  have pending := eq_true_of_ne_false unpending
  split at answer
  · rename_i opened
    obtain ⟨_, empty, _⟩ := tracked.lawful.pending pending
    refine ⟨?_, empty, fun drained now more => ?_⟩
    · cases eof : w.eof side with
      | false => rfl
      | true =>
          rcases tracked.seen side eof with closed | ⟨unarmed, _⟩
          · rw [opened] at closed
            cases closed
          · refine absurd ?_ unarmed
            cases side
            · exact .inr (.inr (.inr (.inl pending)))
            · exact .inl pending
    · apply (tracked_shimRun (tracked_forwardFin tracked side drained now) more).handed
      refine Nat.le_trans ?_ (fins_shimRun_mono _ more side)
      simp only [Session.shimStep, countFin_fins, forwardFin_eq, closing, ne_eq, reduceCtorEq,
        not_false_eq_true, decide_true, Bool.and_self, Bool.toNat_true]
      exact Nat.le_add_left _ _
  · cases answer

theorem Tracked.finLaw {w : Session} (tracked : Tracked w) : FinLaw w where
  once := by
    intro side
    rw [tracked.count]
    exact Bool.toNat_le _
  finished := by
    intro side closed
    rcases tracked.finished side closed with eof | shut
    · exact .inl eof
    · exact .inr (by rw [tracked.count, shut]; rfl)
  up := tracked.up
  client := tracked.client
  grace := by
    intro waiting
    obtain ⟨unarmed, unshut⟩ := tracked.lawful.fins.grace waiting
    refine ⟨unarmed, ?_⟩
    rw [tracked.count]
    simp only [Slot.wrShut, unshut, Bool.toNat_false]
  halfClose := tracked.halfClose
  close := tracked.close
  done := tracked.lawful.fins.done

/-- The FIN protocol holds in every state of every shim run. -/
theorem shim_run_finLaw (c2u u2c : Memory UInt8 kBufSize) (clientFd : Int)
    (now finGraceMs : UInt32) (ops : List ShimOp) :
    FinLaw ((Session.start c2u u2c clientFd now finGraceMs).shimRun ops) :=
  (tracked_shimRun (tracked_start c2u u2c clientFd now finGraceMs) ops).finLaw

end FryFirmware.Relay
