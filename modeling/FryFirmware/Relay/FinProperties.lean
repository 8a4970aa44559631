import FryFirmware.Relay.HistoryProperties

/-!
# The FIN flags of a slot

A FIN is armed or waiting only toward a side whose feeding buffer is empty and
whose source is finished. `Keeps` covers every operation that neither arms nor
hands out a FIN; the others have a lemma each.
-/

set_option autoImplicit false

namespace FryFirmware.Relay

open Lib

structure Fins (s : Slot) : Prop where
  up : s.pendShutUp = true ∨ s.upWrShut = true ∨ s.graceUp = true →
    s.clientRdOpen = false ∧ s.c2uOff = s.c2uLen
  client : s.pendShutClient = true ∨ s.clientWrShut = true →
    s.upRdOpen = false ∧ s.u2cOff = s.u2cLen
  grace : s.graceUp = true → s.pendShutUp = false ∧ s.upWrShut = false
  onceUp : s.upWrShut = true → s.pendShutUp = false
  onceClient : s.clientWrShut = true → s.pendShutClient = false
  early : s.phase ≠ .relay → s.phase ≠ .closed →
    s.pendShutUp = false ∧ s.upWrShut = false ∧ s.graceUp = false ∧
      s.pendShutClient = false ∧ s.clientWrShut = false ∧ s.dropUp = false
  done : s.phase = .closed → s.reason = .done → Finished s
  flushReason : s.flushReason ≠ .done

/-- The operation neither arms nor hands out a FIN, reopens no side, refills no
buffer whose source is finished, and closes for no reason of its own but others
than `done`. -/
structure Keeps (s t : Slot) : Prop where
  pendShutUp : t.pendShutUp = s.pendShutUp
  upWrShut : t.upWrShut = s.upWrShut
  graceUp : t.graceUp = s.graceUp
  pendShutClient : t.pendShutClient = s.pendShutClient
  clientWrShut : t.clientWrShut = s.clientWrShut
  clientRd : s.clientRdOpen = false → t.clientRdOpen = false
  upRd : s.upRdOpen = false → t.upRdOpen = false
  c2u : s.phase = .relay ∨ s.phase = .closed → s.clientRdOpen = false →
    s.c2uOff = s.c2uLen → t.c2uOff = t.c2uLen
  u2c : s.phase = .relay ∨ s.phase = .closed → s.upRdOpen = false →
    s.u2cOff = s.u2cLen → t.u2cOff = t.u2cLen
  late : s.phase = .relay ∨ s.phase = .closed → t.phase = .relay ∨ t.phase = .closed
  done : t.phase = .closed → t.reason = .done → s.phase = .closed ∧ s.reason = .done
  flushReason : s.flushReason ≠ .done → t.flushReason ≠ .done
  relay : t.phase = .relay → s.phase = .relay
  dropUp : t.dropUp = s.dropUp

theorem Keeps.refl (s : Slot) : Keeps s s :=
  ⟨rfl, rfl, rfl, rfl, rfl, id, id, fun _ _ => id, fun _ _ => id, id, fun closed done =>
    ⟨closed, done⟩, id, id, rfl⟩

theorem Keeps.trans {s t u : Slot} (first : Keeps s t) (second : Keeps t u) : Keeps s u where
  pendShutUp := second.pendShutUp.trans first.pendShutUp
  upWrShut := second.upWrShut.trans first.upWrShut
  graceUp := second.graceUp.trans first.graceUp
  pendShutClient := second.pendShutClient.trans first.pendShutClient
  clientWrShut := second.clientWrShut.trans first.clientWrShut
  clientRd := fun closed => second.clientRd (first.clientRd closed)
  upRd := fun closed => second.upRd (first.upRd closed)
  c2u := fun late closed empty =>
    second.c2u (first.late late) (first.clientRd closed) (first.c2u late closed empty)
  u2c := fun late closed empty =>
    second.u2c (first.late late) (first.upRd closed) (first.u2c late closed empty)
  late := fun late => second.late (first.late late)
  done := fun closed done =>
    first.done (second.done closed done).1 (second.done closed done).2
  flushReason := fun reason => second.flushReason (first.flushReason reason)
  relay := fun relaying => first.relay (second.relay relaying)
  dropUp := second.dropUp.trans first.dropUp

/-- A FIN toward either side is waiting, armed or handed out, or upstream bytes
are being dropped. -/
def Armed (s : Slot) : Prop :=
  s.pendShutUp = true ∨ s.upWrShut = true ∨ s.graceUp = true ∨ s.pendShutClient = true ∨
    s.clientWrShut = true ∨ s.dropUp = true

theorem Fins.late {s : Slot} (fins : Fins s) (armed : Armed s) :
    s.phase = .relay ∨ s.phase = .closed := by
  by_contra other
  rw [not_or] at other
  obtain ⟨pendUp, shutUp, grace, pendClient, shutClient, dropping⟩ := fins.early other.1 other.2
  simp [Armed, pendUp, shutUp, grace, pendClient, shutClient, dropping] at armed

theorem Fins.late_up {s : Slot} (fins : Fins s)
    (armed : s.pendShutUp = true ∨ s.upWrShut = true ∨ s.graceUp = true) :
    s.phase = .relay ∨ s.phase = .closed := by
  apply fins.late
  rcases armed with armed | armed | armed <;> simp [Armed, armed]

theorem Fins.late_client {s : Slot} (fins : Fins s)
    (armed : s.pendShutClient = true ∨ s.clientWrShut = true) :
    s.phase = .relay ∨ s.phase = .closed := by
  apply fins.late
  rcases armed with armed | armed <;> simp [Armed, armed]

theorem Fins.keeps {s t : Slot} (fins : Fins s) (keeps : Keeps s t) : Fins t where
  up := by
    rw [keeps.pendShutUp, keeps.upWrShut, keeps.graceUp]
    intro armed
    obtain ⟨closed, empty⟩ := fins.up armed
    exact ⟨keeps.clientRd closed, keeps.c2u (fins.late_up armed) closed empty⟩
  client := by
    rw [keeps.pendShutClient, keeps.clientWrShut]
    intro armed
    obtain ⟨closed, empty⟩ := fins.client armed
    exact ⟨keeps.upRd closed, keeps.u2c (fins.late_client armed) closed empty⟩
  grace := by
    rw [keeps.pendShutUp, keeps.upWrShut, keeps.graceUp]
    exact fins.grace
  onceUp := by
    rw [keeps.pendShutUp, keeps.upWrShut]
    exact fins.onceUp
  onceClient := by
    rw [keeps.pendShutClient, keeps.clientWrShut]
    exact fins.onceClient
  early := by
    intro notRelay notClosed
    rw [keeps.pendShutUp, keeps.upWrShut, keeps.graceUp, keeps.pendShutClient, keeps.clientWrShut,
      keeps.dropUp]
    apply fins.early
    · exact fun relay => (keeps.late (.inl relay)).elim notRelay notClosed
    · exact fun closed => (keeps.late (.inr closed)).elim notRelay notClosed
  done := by
    intro closed done
    obtain ⟨wasClosed, wasDone⟩ := keeps.done closed done
    obtain ⟨clientRd, upRd, c2u, u2c⟩ := fins.done wasClosed wasDone
    exact ⟨keeps.clientRd clientRd, keeps.upRd upRd, keeps.c2u (.inr wasClosed) clientRd c2u,
      keeps.u2c (.inr wasClosed) upRd u2c⟩
  flushReason := keeps.flushReason fins.flushReason

/-! ## Operations that keep the flags -/

theorem keeps_closeSlot (s : Slot) {why : CloseReason} (other : why ≠ .done) :
    Keeps s (closeSlot s why) := by
  unfold closeSlot
  split
  · exact .refl s
  · exact ⟨rfl, rfl, rfl, rfl, rfl, id, id, fun _ _ => id, fun _ _ => id, fun _ => .inr rfl,
      fun _ done => absurd done other, id, fun relaying => (by cases relaying), rfl⟩

theorem keeps_touch (s : Slot) (now : UInt32) : Keeps s (touch s now) := by
  unfold touch
  dsimp only
  split <;>
    exact ⟨rfl, rfl, rfl, rfl, rfl, id, id, fun _ _ => id, fun _ _ => id, id,
      fun closed done => ⟨closed, done⟩, id, id, rfl⟩

theorem keeps_finishSide (s : Slot) (side : Side) : Keeps s (finishSide s side) := by
  cases side
  · exact ⟨rfl, rfl, rfl, rfl, rfl, fun _ => rfl, id, fun _ _ => id, fun _ _ => id, id,
      fun closed done => ⟨closed, done⟩, id, id, rfl⟩
  · exact ⟨rfl, rfl, rfl, rfl, rfl, id, fun _ => rfl, fun _ _ => id, fun _ _ => id, id,
      fun closed done => ⟨closed, done⟩, id, id, rfl⟩

theorem keeps_recvDest (s : Slot) (side : Side) : Keeps s (recvDest s side).1 := by
  cases side <;> simp only [recvDest] <;> repeat' split
  all_goals first
    | exact .refl s
    | exact ⟨rfl, rfl, rfl, rfl, rfl, id, id, fun _ _ _ => rfl, fun _ _ => id, id,
        fun closed done => ⟨closed, done⟩, id, id, rfl⟩
    | exact ⟨rfl, rfl, rfl, rfl, rfl, id, id, fun _ _ => id, fun _ _ _ => rfl, id,
        fun closed done => ⟨closed, done⟩, id, id, rfl⟩

/-- Flags stay, the slot does not close, and a new flush reason is not `done`. -/
structure EarlyMove (s t : Slot) : Prop where
  pendShutUp : t.pendShutUp = s.pendShutUp
  upWrShut : t.upWrShut = s.upWrShut
  graceUp : t.graceUp = s.graceUp
  pendShutClient : t.pendShutClient = s.pendShutClient
  clientWrShut : t.clientWrShut = s.clientWrShut
  clientRd : t.clientRdOpen = s.clientRdOpen
  upRd : t.upRdOpen = s.upRdOpen
  phase : s.phase ≠ .closed → t.phase ≠ .closed
  flushReason : s.flushReason ≠ .done → t.flushReason ≠ .done
  relay : t.phase = .relay → s.phase = .relay
  dropUp : t.dropUp = s.dropUp

theorem EarlyMove.refl (s : Slot) : EarlyMove s s :=
  ⟨rfl, rfl, rfl, rfl, rfl, rfl, rfl, id, id, id, rfl⟩

theorem EarlyMove.trans {s t u : Slot} (first : EarlyMove s t) (second : EarlyMove t u) :
    EarlyMove s u where
  pendShutUp := second.pendShutUp.trans first.pendShutUp
  upWrShut := second.upWrShut.trans first.upWrShut
  graceUp := second.graceUp.trans first.graceUp
  pendShutClient := second.pendShutClient.trans first.pendShutClient
  clientWrShut := second.clientWrShut.trans first.clientWrShut
  clientRd := second.clientRd.trans first.clientRd
  upRd := second.upRd.trans first.upRd
  phase := fun live => second.phase (first.phase live)
  flushReason := fun reason => second.flushReason (first.flushReason reason)
  relay := fun relaying => first.relay (second.relay relaying)
  dropUp := second.dropUp.trans first.dropUp

/-- Before the relay phase the buffers do not matter to the flags. -/
theorem EarlyMove.keeps {s t : Slot} (move : EarlyMove s t) (notRelay : s.phase ≠ .relay)
    (notClosed : s.phase ≠ .closed) : Keeps s t where
  pendShutUp := move.pendShutUp
  upWrShut := move.upWrShut
  graceUp := move.graceUp
  pendShutClient := move.pendShutClient
  clientWrShut := move.clientWrShut
  clientRd := fun closed => move.clientRd.trans closed
  upRd := fun closed => move.upRd.trans closed
  c2u := fun late => (late.elim notRelay notClosed).elim
  u2c := fun late => (late.elim notRelay notClosed).elim
  late := fun late => (late.elim notRelay notClosed).elim
  done := fun closed => absurd closed (move.phase notClosed)
  flushReason := move.flushReason
  relay := move.relay
  dropUp := move.dropUp

theorem earlyMove_queueClient (s : Slot) (d : List UInt8) : EarlyMove s (queueClient s d) := by
  unfold queueClient compactClient
  dsimp only
  repeat' split
  all_goals exact ⟨rfl, rfl, rfl, rfl, rfl, rfl, rfl, id, id, id, rfl⟩

theorem earlyMove_consumeFront (s : Slot) (n : Nat) : EarlyMove s (consumeFront s n) :=
  ⟨rfl, rfl, rfl, rfl, rfl, rfl, rfl, id, id, id, rfl⟩

theorem earlyMove_enterFlush (s : Slot) {why : CloseReason} (other : why ≠ .done) (now : UInt32) :
    EarlyMove s (enterFlush s why now) :=
  ⟨rfl, rfl, rfl, rfl, rfl, rfl, rfl, fun _ => by simp [enterFlush], fun _ => other,
    fun relaying => (by cases relaying), rfl⟩

/-- A phase change within the handshake. -/
theorem earlyMove_phase (s : Slot) {phase : Phase} (notClosed : phase ≠ .closed)
    (notRelay : phase ≠ .relay) (start : UInt32) :
    EarlyMove s { s with phase := phase, phaseStartMs := start } :=
  ⟨rfl, rfl, rfl, rfl, rfl, rfl, rfl, fun _ => notClosed, id,
    fun relaying => absurd relaying notRelay, rfl⟩

theorem earlyMove_reject (s : Slot) (d : List UInt8) {why : CloseReason} (other : why ≠ .done)
    (now : UInt32) : EarlyMove s (enterFlush (queueClient s d) why now) :=
  (earlyMove_queueClient s d).trans (earlyMove_enterFlush _ other now)

theorem earlyMove_advanceRequest (s : Slot) (now : UInt32) :
    EarlyMove s (advanceRequest s now) := by
  unfold advanceRequest
  split
  · obtain ⟨result, req, used⟩ := parseConnectRequest (s.c2u.window 0 s.c2uLen) s.req 0
    have asked : EarlyMove s { s with req } := ⟨rfl, rfl, rfl, rfl, rfl, rfl, rfl, id, id, id, rfl⟩
    cases result with
    | needMoreData => exact asked
    | ok =>
        exact asked.trans ((earlyMove_consumeFront _ used).trans
          (earlyMove_phase _ (by decide) (by decide) now))
    | _ => exact asked.trans (earlyMove_reject _ kReplyFail (by decide) now)
  · exact .refl s

theorem earlyMove_advance (s : Slot) (now : UInt32) : EarlyMove s (advance s now) := by
  unfold advance
  split
  · obtain ⟨result, info, used⟩ := parseGreeting (s.c2u.window 0 s.c2uLen) {} 0
    cases result with
    | needMoreData => exact .refl s
    | ok =>
        exact (earlyMove_queueClient s kMethodOk).trans ((earlyMove_consumeFront _ used).trans
          ((earlyMove_phase _ (by decide) (by decide) now).trans (earlyMove_advanceRequest _ now)))
    | _ => exact earlyMove_reject s kMethodNone (by decide) now
  · exact earlyMove_advanceRequest s now

/-- Bytes of `side` may be read. -/
def Reading (s : Slot) : Side → Prop
  | .client => isHandshake s = true ∨ (s.phase = .relay ∧ s.clientRdOpen = true)
  | .up => s.phase = .relay ∧ s.upRdOpen = true

/-- Bytes are read only from a side that is still open, so no buffer behind an
armed FIN is refilled. -/
theorem keeps_onRecvData {s : Slot} {n : Nat} (side : Side)
    (reading : Reading s side)
    (position : Nat) (data : List UInt8) (now : UInt32) :
    Keeps s (onRecvData (storeInbound s side position data) side n now) := by
  cases side with
  | client =>
      rcases reading with handshake | ⟨relaying, reading⟩
      · have early : s.phase ≠ .relay ∧ s.phase ≠ .closed := by
          simp only [isHandshake, Bool.or_eq_true, decide_eq_true_eq] at handshake
          rcases handshake with phase | phase <;> simp [phase]
        have shaking : isHandshake (storeInbound s .client position data) = true := handshake
        unfold onRecvData
        dsimp only
        rw [if_pos shaking]
        refine EarlyMove.keeps (EarlyMove.trans ?_ (earlyMove_advance _ now)) early.1 early.2
        exact ⟨rfl, rfl, rfl, rfl, rfl, rfl, rfl, id, id, id, rfl⟩
      · have silent : ¬ isHandshake (storeInbound s .client position data) = true := by
          simp [isHandshake, storeInbound, relaying]
        have phase : (storeInbound s .client position data).phase = .relay := relaying
        unfold onRecvData
        dsimp only
        rw [if_neg silent, if_pos phase]
        refine Keeps.trans ?_ (keeps_touch _ now)
        exact ⟨rfl, rfl, rfl, rfl, rfl, id, id,
          fun _ closed => absurd closed (by simp [reading]), fun _ _ => id, id,
          fun closed done => ⟨closed, done⟩, id, id, rfl⟩
  | up =>
      obtain ⟨relaying, reading⟩ := reading
      have phase : (storeInbound s .up position data).phase = .relay := relaying
      unfold onRecvData
      dsimp only
      rw [if_pos phase]
      split
      · refine Keeps.trans ?_ (keeps_touch _ now)
        exact ⟨rfl, rfl, rfl, rfl, rfl, id, id, fun _ _ => id, fun _ _ => id, id,
          fun closed done => ⟨closed, done⟩, id, id, rfl⟩
      · refine Keeps.trans ?_ (keeps_touch _ now)
        exact ⟨rfl, rfl, rfl, rfl, rfl, id, id, fun _ _ => id,
          fun _ closed => absurd closed (by simp [reading]), id,
          fun closed done => ⟨closed, done⟩, id, id, rfl⟩

theorem keeps_giveUp {s : Slot} {n : Nat} (ordered : Ordered s)
    (pending : n ≤ s.c2uLen - s.c2uOff) : Keeps s (giveUp s n) := by
  have c2uOrdered := ordered.c2uOrdered
  unfold giveUp
  split
  · exact ⟨rfl, rfl, rfl, rfl, rfl, id, id, fun _ _ _ => rfl, fun _ _ => id, id,
      fun closed done => ⟨closed, done⟩, id, id, rfl⟩
  · refine ⟨rfl, rfl, rfl, rfl, rfl, id, id, fun _ _ empty => ?_, fun _ _ => id, id,
      fun closed done => ⟨closed, done⟩, id, id, rfl⟩
    dsimp only
    omega

theorem keeps_giveClient {s : Slot} {n : Nat} (ordered : Ordered s)
    (pending : n ≤ s.u2cLen - s.u2cOff) : Keeps s (giveClient s n) := by
  have u2cOrdered := ordered.u2cOrdered
  unfold giveClient
  split
  · exact ⟨rfl, rfl, rfl, rfl, rfl, id, id, fun _ _ => id, fun _ _ _ => rfl, id,
      fun closed done => ⟨closed, done⟩, id, id, rfl⟩
  · refine ⟨rfl, rfl, rfl, rfl, rfl, id, id, fun _ _ => id, fun _ _ empty => ?_, id,
      fun closed done => ⟨closed, done⟩, id, id, rfl⟩
    dsimp only
    omega

/-- A send empties buffers; it never refills one. -/
theorem keeps_onSendData {s : Slot} (fins : Fins s) (ordered : Ordered s) (toward : Side) (n : Nat)
    (pending : match toward with
      | .up => n ≤ s.c2uLen - s.c2uOff
      | .client => n ≤ s.u2cLen - s.u2cOff) :
    Keeps s (onSendData s toward n) := by
  cases toward with
  | up =>
      rw [onSendData_up ordered pending]
      exact keeps_giveUp ordered pending
  | client =>
      have moved := keeps_giveClient ordered pending
      rw [onSendData_client ordered pending]
      split
      · exact moved.trans (keeps_closeSlot _ (moved.flushReason fins.flushReason))
      · exact moved

/-! ## Arming -/

theorem fins_armUp {s : Slot} (fins : Fins s) (phase : s.phase = .relay) (now : UInt32) :
    Fins (armUp s now) := by
  unfold armUp
  split
  · rename_i drained
    simp only [Bool.and_eq_true, Bool.not_eq_true', decide_eq_true_eq] at drained
    obtain ⟨⟨closed, empty⟩, unshut⟩ := drained
    split
    · rename_i waiting
      simp only [Bool.and_eq_true, Bool.not_eq_true'] at waiting
      split
      · exact ⟨fun _ => ⟨closed, empty⟩, fins.client, fun _ => ⟨waiting.2, unshut⟩, fins.onceUp,
          fins.onceClient, fun other => absurd phase other, fins.done, fins.flushReason⟩
      · exact fins
    · exact ⟨fun _ => ⟨closed, empty⟩, fins.client, fun grace => by simp at grace,
        fun shut => absurd shut (by simp [unshut]), fins.onceClient,
        fun other => absurd phase other, fins.done, fins.flushReason⟩
  · exact fins

theorem fins_armClient {s : Slot} (fins : Fins s) (phase : s.phase = .relay) :
    Fins (armClient s) := by
  unfold armClient
  split
  · rename_i drained
    simp only [Bool.and_eq_true, Bool.not_eq_true', decide_eq_true_eq] at drained
    obtain ⟨⟨closed, empty⟩, unshut⟩ := drained
    exact ⟨fins.up, fun _ => ⟨closed, empty⟩, fins.grace, fins.onceUp,
      fun shut => absurd shut (by simp [unshut]), fun other => absurd phase other, fins.done,
      fins.flushReason⟩
  · exact fins

theorem fins_closeDone {s : Slot} (fins : Fins s) (finished : Finished s) :
    Fins (closeSlot s .done) := by
  unfold closeSlot
  split
  · exact fins
  · exact ⟨fins.up, fins.client, fins.grace, fins.onceUp, fins.onceClient,
      fun _ other => absurd rfl other, fun _ _ => finished, fins.flushReason⟩

theorem fins_settle {s : Slot} (fins : Fins s) (now : UInt32) : Fins (settle s now) := by
  unfold settle
  split
  · rename_i finished
    simp only [Bool.and_eq_true, Bool.not_eq_true', decide_eq_true_eq] at finished
    obtain ⟨⟨⟨clientRd, upRd⟩, c2u⟩, u2c⟩ := finished
    exact fins_closeDone fins ⟨clientRd, upRd, c2u, u2c⟩
  · split
    · exact fins.keeps ⟨rfl, rfl, rfl, rfl, rfl, id, id, fun _ _ => id, fun _ _ => id, id,
        fun closed done => ⟨closed, done⟩, id, id, rfl⟩
    · exact fins

theorem armUp_phase (s : Slot) (now : UInt32) : (armUp s now).phase = s.phase := by
  unfold armUp
  repeat' split
  all_goals rfl

theorem armClient_phase (s : Slot) : (armClient s).phase = s.phase := by
  unfold armClient
  split <;> rfl

theorem fins_relayUpdate {s : Slot} (fins : Fins s) (now : UInt32) : Fins (relayUpdate s now) := by
  unfold relayUpdate
  split
  · exact fins
  · rename_i relaying
    have phase := not_not.mp relaying
    have armed := fins_armUp fins phase now
    exact fins_settle (fins_armClient armed ((armUp_phase s now).trans phase)) now

theorem fins_takeShutdown {s : Slot} (fins : Fins s) (side : Side) :
    Fins (takeShutdown s side).1 := by
  cases side with
  | up =>
      unfold takeShutdown
      dsimp only
      split
      · exact fins
      · rename_i armed
        have pend : s.pendShutUp = true := by simpa using armed
        have drained := fins.up (.inl pend)
        refine ⟨fun _ => drained, fins.client, fun grace => ?_, fun _ => rfl, fins.onceClient,
          fun notRelay notClosed => ?_, fins.done, fins.flushReason⟩
        · rw [(fins.grace grace).1] at pend
          cases pend
        · rw [(fins.early notRelay notClosed).1] at pend
          cases pend
  | client =>
      unfold takeShutdown
      dsimp only
      split
      · exact fins
      · rename_i armed
        have pend : s.pendShutClient = true := by simpa using armed
        have drained := fins.client (.inl pend)
        refine ⟨fins.up, fun _ => drained, fins.grace, fins.onceUp, fun _ => rfl,
          fun notRelay notClosed => ?_, fins.done, fins.flushReason⟩
        rw [(fins.early notRelay notClosed).2.2.2.1] at pend
        cases pend

theorem fins_onTimer {s : Slot} (fins : Fins s) (t : Timing) (now : UInt32) :
    Fins (onTimer s t now) := by
  cases phase : s.phase with
  | needConnect | connecting =>
      simp only [onTimer, phase]
      split
      · exact fins.keeps ((earlyMove_reject s kReplyFail (by decide) now).keeps
          (by simp [phase]) (by simp [phase]))
      · exact fins
  | greeting | request =>
      simp only [onTimer, phase]
      split
      · exact fins.keeps (keeps_closeSlot s (by decide))
      · exact fins
  | flush =>
      simp only [onTimer, phase]
      split
      · exact fins.keeps (keeps_closeSlot s fins.flushReason)
      · exact fins
  | free | closed =>
      simp only [onTimer, phase]
      exact fins
  | relay =>
      simp only [onTimer, phase]
      split
      · exact fins.keeps (keeps_closeSlot s (by decide))
      split
      · exact fins.keeps (keeps_closeSlot s (by decide))
      split
      · rename_i expired
        simp only [Bool.and_eq_true] at expired
        have drained := fins.up (.inr (.inr expired.1))
        have unshut := (fins.grace expired.1).2
        exact ⟨fun _ => drained, fins.client, fun grace => by simp at grace,
          fun shut => absurd shut (by simp [unshut]), fins.onceClient,
          fun other => absurd rfl other, fun closed => by simp at closed, fins.flushReason⟩
      · exact fins

theorem fins_onConnectStarted {s : Slot} (fins : Fins s) (upFd : Int) (now : UInt32) :
    Fins (onConnectStarted s upFd now) := by
  unfold onConnectStarted
  split
  · exact fins
  · rename_i asking
    have phase := not_not.mp asking
    have move : EarlyMove s { s with upFd := upFd, phase := .connecting, phaseStartMs := now } :=
      ⟨rfl, rfl, rfl, rfl, rfl, rfl, rfl, fun _ => by simp, id,
        fun relaying => (by cases relaying), rfl⟩
    exact fins.keeps (move.keeps (by simp [phase]) (by simp [phase]))

theorem queueClient_phase (s : Slot) (d : List UInt8) : (queueClient s d).phase = s.phase := by
  unfold queueClient compactClient
  dsimp only
  repeat' split
  all_goals rfl

theorem fins_onConnectResult {s : Slot} (fins : Fins s) (ok : Bool) (now : UInt32) :
    Fins (onConnectResult s ok now) := by
  unfold onConnectResult
  split
  · exact fins
  · rename_i waiting
    have early : s.phase ≠ .relay ∧ s.phase ≠ .closed := by
      constructor <;> intro phase <;> simp [phase] at waiting
    split
    · exact fins.keeps ((earlyMove_reject s kReplyFail (by decide) now).keeps early.1 early.2)
    · have queued := fins.keeps ((earlyMove_queueClient s kReplyOk).keeps early.1 early.2)
      have phase := queueClient_phase s kReplyOk
      obtain ⟨pendUp, shutUp, grace, pendClient, shutClient, _⟩ :=
        queued.early (phase ▸ early.1) (phase ▸ early.2)
      exact ⟨fun armed => by simp [pendUp, shutUp, grace] at armed,
        fun armed => by simp [pendClient, shutClient] at armed, queued.grace, queued.onceUp,
        queued.onceClient, fun other => absurd rfl other, fun closed => (by cases closed),
        queued.flushReason⟩

theorem fins_onSideClosed {s : Slot} (fins : Fins s) (side : Side) (now : UInt32) :
    Fins (onSideClosed s side now) :=
  fins_relayUpdate (fins.keeps (keeps_finishSide s side)) now

theorem keeps_drainAndClose (s : Slot) (side : Side) (drained : List (List UInt8)) :
    Keeps s (drainAndClose s side drained) := by
  cases side <;> unfold drainAndClose <;> dsimp only <;> split
  all_goals first
    | exact .refl s
    | exact ⟨rfl, rfl, rfl, rfl, rfl, id, id, fun _ _ => id, fun _ _ => id, id,
        fun closed done => ⟨closed, done⟩, id, id, rfl⟩

theorem fins_takeFinAction {s : Slot} (fins : Fins s) (side : Side) :
    Fins (takeFinAction s side).1 := by
  rw [takeFinAction_slot]
  exact fins_takeShutdown fins side

/-- `forwardFin` takes the action, and on `close` also drains and finishes the
side. -/
theorem forwardFin_eq (s : Slot) (side : Side) (drained : List (List UInt8)) (now : UInt32) :
    forwardFin s side drained now =
      ((if (takeFinAction s side).2 = .close then
          onSideClosed (drainAndClose (takeFinAction s side).1 side drained) side now
        else (takeFinAction s side).1),
        (takeFinAction s side).2) := by
  unfold forwardFin
  generalize takeFinAction s side = taken
  obtain ⟨slot, action⟩ := taken
  cases action <;> simp

theorem fins_forwardFin {s : Slot} (fins : Fins s) (side : Side) (drained : List (List UInt8))
    (now : UInt32) : Fins (forwardFin s side drained now).1 := by
  have taken := fins_takeFinAction fins side
  rw [forwardFin_eq]
  dsimp only
  split
  · exact fins_onSideClosed (taken.keeps (keeps_drainAndClose _ side drained)) side now
  · exact taken

/-! ## System calls -/

/-- The operation did nothing, or it kept the flags and `relayUpdate` followed. -/
def Updates (s t : Slot) : Prop :=
  t = s ∨ ∃ between now, Keeps s between ∧ t = relayUpdate between now

theorem Updates.fins {s t : Slot} (updates : Updates s t) (fins : Fins s) : Fins t := by
  rcases updates with rfl | ⟨between, now, keeps, rfl⟩
  · exact fins
  · exact fins_relayUpdate (fins.keeps keeps) now

/-- A `recv` that stored nothing may finish the side or close the slot, never
with reason `done` of its own. -/
theorem updates_onRecv_nothing {s between : Slot} {ret : Int} (keeps : Keeps s between)
    (live : isLive between = true) (nothing : ret ≤ 0) (side : Side) (err : Errno) (now : UInt32) :
    Updates s (onRecv between side ret err now) := by
  obtain ⟨t, received, next⟩ := onRecv_stored_nothing live nothing side err now
  refine .inr ⟨t, now, keeps.trans ?_, received⟩
  rcases next with rfl | rfl | ⟨why, other, rfl⟩
  · exact .refl t
  · exact (keeps_finishSide between side).trans (keeps_touch _ now)
  · exact keeps_closeSlot between other

/-- `recvDest` offers room only where the side is still open. -/
theorem recvDest_reading {s : Slot} (side : Side) (room : (recvDest s side).2.2 ≠ 0) :
    Reading (recvDest s side).1 side := by
  cases side with
  | client =>
      simp only [recvDest] at room ⊢
      split at room
      · rename_i handshake
        rw [if_pos handshake]
        exact .inl handshake
      · rename_i silent
        rw [if_neg silent]
        split at room
        · rename_i relaying
          rw [if_pos relaying]
          simp only [Bool.and_eq_true, decide_eq_true_eq] at relaying
          exact .inr relaying.1
        · exact absurd rfl room
  | up =>
      simp only [recvDest] at room ⊢
      split at room
      · rename_i relaying
        rw [if_pos relaying]
        simp only [Bool.and_eq_true, decide_eq_true_eq] at relaying
        exact relaying.1
      · exact absurd rfl room

/-- Without room `recvDest` changes nothing. -/
theorem recvDest_refused {s : Slot} (side : Side)
    (room : (recvDest s side).2.2 = 0) : (recvDest s side).1 = s := by
  cases side with
  | client =>
      simp only [recvDest] at room ⊢
      split
      · rfl
      · rename_i silent
        rw [if_neg silent] at room
        split at room
        · simp [kBufSize] at room
        · rename_i busy
          rw [if_neg busy]
  | up =>
      simp only [recvDest] at room ⊢
      split at room
      · simp [kBufSize] at room
      · rename_i busy
        rw [if_neg busy]

theorem Reading.live {s : Slot} {side : Side} (reading : Reading s side) : isLive s = true := by
  cases side with
  | client =>
      rcases reading with handshake | ⟨phase, _⟩
      · exact live_of_handshake handshake
      · exact live_of_relay phase
  | up => exact live_of_relay reading.1

theorem live_storeInbound {s : Slot} (live : isLive s = true) (side : Side) (position : Nat)
    (data : List UInt8) : isLive (storeInbound s side position data) = true := by
  cases side <;> exact live

theorem updates_doRecv (s : Slot) (side : Side) (answer : RecvAnswer) (now : UInt32) :
    Updates s (doRecv s side answer now).1 := by
  have ready := keeps_recvDest s side
  unfold doRecv
  dsimp only
  by_cases closed : (recvDest s side).2.2 = 0
  · rw [if_pos closed]
    exact .inl (recvDest_refused side closed)
  rw [if_neg closed]
  have reading := recvDest_reading side closed
  have live := live_storeInbound reading.live side (recvDest s side).2.1
  cases answer with
  | fails code err =>
      have unread := live []
      simp only [recvCall, storeInbound_nil] at unread ⊢
      exact updates_onRecv_nothing ready unread (by omega) side err now
  | returns bytes err =>
      simp only [recvCall]
      generalize bytes.take (recvDest s side).2.2 = data
      by_cases nothing : data = []
      · subst nothing
        have unread := live []
        simp only [storeInbound_nil, List.length_nil] at unread ⊢
        exact updates_onRecv_nothing ready unread (by omega) side err now
      rw [onRecv_data (live data) (List.length_pos_iff.mpr nothing)]
      exact .inr ⟨_, now, ready.trans (keeps_onRecvData side reading _ data now), rfl⟩

theorem updates_onSend_nothing {s : Slot} {ret : Int} (fins : Fins s) (live : isLive s = true)
    (nothing : ret ≤ 0) (toward : Side) (err : Errno) (now : UInt32) :
    Updates s (onSend s toward ret err now) := by
  obtain ⟨t, given, next⟩ := onSend_took_nothing live nothing toward err now
  refine .inr ⟨t, now, ?_, given⟩
  rcases next with rfl | ⟨why, rfl | other, rfl⟩
  · exact .refl t
  · exact keeps_closeSlot s fins.flushReason
  · exact keeps_closeSlot s other

theorem updates_doSend {s : Slot} (fins : Fins s) (ordered : Ordered s) (toward : Side)
    (answer : SendAnswer) (now : UInt32) : Updates s (doSend s toward answer now).1 := by
  unfold doSend
  dsimp only
  by_cases closed : (sendSrc s toward).2 = 0
  · rw [if_pos closed]
    exact .inl rfl
  rw [if_neg closed]
  have live := (sendSrc_pending ordered closed (Nat.zero_le _)).1
  cases answer with
  | fails code err =>
      exact updates_onSend_nothing fins live (by simp only [sendCall]; omega) toward err now
  | takes count err =>
      simp only [sendCall]
      generalize taken : min count (sendSrc s toward).2 = n
      by_cases nothing : n = 0
      · subst nothing
        exact updates_onSend_nothing fins live (by omega) toward err now
      have bounded : n ≤ (sendSrc s toward).2 := taken ▸ Nat.min_le_right _ _
      have pending := (sendSrc_pending ordered closed bounded).2
      rw [onSend_data live (Nat.pos_of_ne_zero nothing)]
      have given : Keeps s (onSendData s toward n) := by
        apply keeps_onSendData fins ordered
        cases toward with
        | up => exact pending.2
        | client => exact pending
      refine .inr ⟨_, now, ?_, rfl⟩
      split
      · exact given.trans (keeps_touch _ now)
      · exact given

theorem updates_onSideClosed (s : Slot) (side : Side) (now : UInt32) :
    Updates s (onSideClosed s side now) :=
  .inr ⟨_, now, keeps_finishSide s side, rfl⟩

/-! ## Which operations arm -/

/-- Only a slot in the relay phase arms, and no other phase leads there. -/
structure Arms (s t : Slot) : Prop where
  relay : t.phase = .relay → s.phase = .relay
  armed : Armed t → Armed s ∨ s.phase = .relay

theorem Arms.refl (s : Slot) : Arms s s :=
  ⟨id, .inl⟩

theorem Arms.trans {s t u : Slot} (first : Arms s t) (second : Arms t u) : Arms s u := by
  refine ⟨fun relaying => first.relay (second.relay relaying), fun armed => ?_⟩
  rcases second.armed armed with armed | relaying
  · exact first.armed armed
  · exact .inr (first.relay relaying)

theorem Keeps.arms {s t : Slot} (keeps : Keeps s t) : Arms s t := by
  refine ⟨keeps.relay, fun armed => .inl ?_⟩
  simpa only [Armed, keeps.pendShutUp, keeps.upWrShut, keeps.graceUp, keeps.pendShutClient,
    keeps.clientWrShut, keeps.dropUp] using armed

theorem arms_relayUpdate (s : Slot) (now : UInt32) : Arms s (relayUpdate s now) := by
  by_cases relaying : s.phase = .relay
  · exact ⟨fun _ => relaying, fun _ => .inr relaying⟩
  · rw [relayUpdate, if_pos relaying]
    exact .refl s

theorem Updates.arms {s t : Slot} (updates : Updates s t) : Arms s t := by
  rcases updates with rfl | ⟨between, now, keeps, rfl⟩
  · exact .refl t
  · exact keeps.arms.trans (arms_relayUpdate between now)

theorem arms_takeShutdown (s : Slot) (side : Side) : Arms s (takeShutdown s side).1 := by
  cases side with
  | up =>
      unfold takeShutdown
      dsimp only
      split
      · exact .refl s
      · rename_i armed
        exact ⟨id, fun _ => .inl (.inl (by simpa using armed))⟩
  | client =>
      unfold takeShutdown
      dsimp only
      split
      · exact .refl s
      · rename_i armed
        exact ⟨id, fun _ => .inl (.inr (.inr (.inr (.inl (by simpa using armed)))))⟩

theorem arms_forwardFin (s : Slot) (side : Side) (drained : List (List UInt8)) (now : UInt32) :
    Arms s (forwardFin s side drained now).1 := by
  have taken : Arms s (takeFinAction s side).1 := by
    rw [takeFinAction_slot]
    exact arms_takeShutdown s side
  rw [forwardFin_eq]
  dsimp only
  split
  · exact taken.trans ((keeps_drainAndClose _ side drained).arms.trans
      (updates_onSideClosed _ side now).arms)
  · exact taken

theorem arms_onTimer {s : Slot} (fins : Fins s) (t : Timing) (now : UInt32) :
    Arms s (onTimer s t now) := by
  cases phase : s.phase with
  | needConnect | connecting =>
      simp only [onTimer, phase]
      split
      · exact ((earlyMove_reject s kReplyFail (by decide) now).keeps
          (by simp [phase]) (by simp [phase])).arms
      · exact .refl s
  | greeting | request =>
      simp only [onTimer, phase]
      split
      · exact (keeps_closeSlot s (by decide)).arms
      · exact .refl s
  | flush =>
      simp only [onTimer, phase]
      split
      · exact (keeps_closeSlot s fins.flushReason).arms
      · exact .refl s
  | free | closed =>
      simp only [onTimer, phase]
      exact .refl s
  | relay => exact ⟨fun _ => phase, fun _ => .inr phase⟩

end FryFirmware.Relay
