import FryFirmware.Relay.Session
import FryFirmware.Relay.Socks5Properties

/-!
# What the slot operations leave alone

Most operations of the core move flags and clocks only. `Quiet` says that once;
the few operations that move bytes have an equation each.
-/

set_option autoImplicit false

namespace FryFirmware.Relay

open Lib

/-- The bytes waiting to go up. -/
def c2uPending (s : Slot) : List UInt8 := s.c2u.window s.c2uOff s.c2uLen

/-- The bytes waiting to go to the client. -/
def u2cPending (s : Slot) : List UInt8 := s.u2c.window s.u2cOff s.u2cLen

/-- Both windows lie inside their buffers. -/
structure Ordered (s : Slot) : Prop where
  c2uOrdered : s.c2uOff ≤ s.c2uLen
  c2uFits : s.c2uLen ≤ kBufSize
  u2cOrdered : s.u2cOff ≤ s.u2cLen
  u2cFits : s.u2cLen ≤ kBufSize

/-- Buffers and request stay; the phase stays or becomes `closed`; a closed slot
keeps its reason; the drop of upstream bytes is never taken back. -/
structure Quiet (s t : Slot) : Prop where
  c2u : t.c2u = s.c2u
  u2c : t.u2c = s.u2c
  c2uOff : t.c2uOff = s.c2uOff
  c2uLen : t.c2uLen = s.c2uLen
  u2cOff : t.u2cOff = s.u2cOff
  u2cLen : t.u2cLen = s.u2cLen
  req : t.req = s.req
  phase : t.phase = s.phase ∨ t.phase = .closed
  closed : s.phase = .closed → t.reason = s.reason
  dropUp : s.dropUp = true → t.dropUp = true

theorem Quiet.refl (s : Slot) : Quiet s s :=
  ⟨rfl, rfl, rfl, rfl, rfl, rfl, rfl, .inl rfl, fun _ => rfl, id⟩

theorem Quiet.trans {s t u : Slot} (first : Quiet s t) (second : Quiet t u) : Quiet s u where
  c2u := second.c2u.trans first.c2u
  u2c := second.u2c.trans first.u2c
  c2uOff := second.c2uOff.trans first.c2uOff
  c2uLen := second.c2uLen.trans first.c2uLen
  u2cOff := second.u2cOff.trans first.u2cOff
  u2cLen := second.u2cLen.trans first.u2cLen
  req := second.req.trans first.req
  phase := by
    rcases second.phase with same | closed
    · rcases first.phase with earlier | closed
      · exact .inl (same.trans earlier)
      · exact .inr (same.trans closed)
    · exact .inr closed
  closed := by
    intro closed
    have between : t.phase = .closed := first.phase.elim (·.trans closed) id
    exact (second.closed between).trans (first.closed closed)
  dropUp := fun dropping => second.dropUp (first.dropUp dropping)

theorem Quiet.pending {s t : Slot} (quiet : Quiet s t) :
    c2uPending t = c2uPending s ∧ u2cPending t = u2cPending s := by
  simp only [c2uPending, u2cPending, quiet.c2u, quiet.u2c, quiet.c2uOff, quiet.c2uLen,
    quiet.u2cOff, quiet.u2cLen, and_self]

theorem Quiet.ordered {s t : Slot} (quiet : Quiet s t) (ordered : Ordered s) : Ordered t := by
  obtain ⟨c2uOrdered, c2uFits, u2cOrdered, u2cFits⟩ := ordered
  constructor <;> simpa only [quiet.c2uOff, quiet.c2uLen, quiet.u2cOff, quiet.u2cLen]

/-! ## The order of phases -/

/-- The position of a phase on the way from accept to close. -/
def Phase.rank : Phase → Nat
  | .free => 0
  | .greeting => 1
  | .request => 2
  | .needConnect => 3
  | .connecting => 4
  | .relay => 5
  | .flush => 6
  | .closed => 7

theorem Phase.rank_le_closed (phase : Phase) : phase.rank ≤ Phase.closed.rank := by
  cases phase <;> decide

/-- The phase does not move back, and a closed slot stays closed for the same
reason. -/
structure Forward (s t : Slot) : Prop where
  rank : s.phase.rank ≤ t.phase.rank
  closed : s.phase = .closed → t.phase = .closed ∧ t.reason = s.reason

theorem Forward.refl (s : Slot) : Forward s s :=
  ⟨Nat.le_refl _, fun closed => ⟨closed, rfl⟩⟩

theorem Forward.trans {s t u : Slot} (first : Forward s t) (second : Forward t u) :
    Forward s u := by
  refine ⟨Nat.le_trans first.rank second.rank, fun closed => ?_⟩
  obtain ⟨still, reason⟩ := first.closed closed
  obtain ⟨end_, same⟩ := second.closed still
  exact ⟨end_, same.trans reason⟩

theorem Forward.same {s t : Slot} (phase : t.phase = s.phase) (reason : t.reason = s.reason) :
    Forward s t :=
  ⟨phase ▸ Nat.le_refl _, fun closed => ⟨phase.trans closed, reason⟩⟩

theorem Forward.live {s t : Slot} (notClosed : s.phase ≠ .closed)
    (rank : s.phase.rank ≤ t.phase.rank) : Forward s t :=
  ⟨rank, fun closed => absurd closed notClosed⟩

theorem Forward.enters {s t : Slot} {old : Phase} (new : Phase) (before : s.phase = old)
    (after : t.phase = new) (notClosed : old ≠ .closed) (rank : old.rank ≤ new.rank) :
    Forward s t :=
  .live (before ▸ notClosed) (by rw [before, after]; exact rank)

theorem Quiet.forward {s t : Slot} (quiet : Quiet s t) : Forward s t := by
  refine ⟨?_, fun closed => ⟨?_, quiet.closed closed⟩⟩
  · rcases quiet.phase with phase | phase
    · rw [phase]
    · rw [phase]
      exact s.phase.rank_le_closed
  · exact quiet.phase.elim (·.trans closed) id

/-! ## Quiet operations -/

theorem quiet_closeSlot (s : Slot) (why : CloseReason) : Quiet s (closeSlot s why) := by
  unfold closeSlot
  split
  · exact .refl s
  · rename_i open_
    exact ⟨rfl, rfl, rfl, rfl, rfl, rfl, rfl, .inr rfl, fun closed => absurd closed open_, id⟩

theorem quiet_touch (s : Slot) (now : UInt32) : Quiet s (touch s now) := by
  unfold touch
  dsimp only
  split <;> exact ⟨rfl, rfl, rfl, rfl, rfl, rfl, rfl, .inl rfl, fun _ => rfl, id⟩

theorem quiet_armUp (s : Slot) (now : UInt32) : Quiet s (armUp s now) := by
  unfold armUp
  repeat' split
  all_goals first
    | exact .refl s
    | exact ⟨rfl, rfl, rfl, rfl, rfl, rfl, rfl, .inl rfl, fun _ => rfl, id⟩
    | exact ⟨rfl, rfl, rfl, rfl, rfl, rfl, rfl, .inl rfl, fun _ => rfl, fun _ => rfl⟩

theorem quiet_armClient (s : Slot) : Quiet s (armClient s) := by
  unfold armClient
  split
  · exact ⟨rfl, rfl, rfl, rfl, rfl, rfl, rfl, .inl rfl, fun _ => rfl, id⟩
  · exact .refl s

theorem quiet_settle (s : Slot) (now : UInt32) : Quiet s (settle s now) := by
  unfold settle
  split
  · exact quiet_closeSlot s .done
  · split
    · exact ⟨rfl, rfl, rfl, rfl, rfl, rfl, rfl, .inl rfl, fun _ => rfl, id⟩
    · exact .refl s

theorem quiet_relayUpdate (s : Slot) (now : UInt32) : Quiet s (relayUpdate s now) := by
  unfold relayUpdate
  split
  · exact .refl s
  · exact (quiet_armUp s now).trans ((quiet_armClient _).trans (quiet_settle _ now))

theorem quiet_finishSide (s : Slot) (side : Side) : Quiet s (finishSide s side) := by
  cases side <;> exact ⟨rfl, rfl, rfl, rfl, rfl, rfl, rfl, .inl rfl, fun _ => rfl, id⟩

theorem quiet_onSideClosed (s : Slot) (side : Side) (now : UInt32) :
    Quiet s (onSideClosed s side now) :=
  (quiet_finishSide s side).trans (quiet_relayUpdate _ now)

theorem quiet_takeShutdown (s : Slot) (side : Side) : Quiet s (takeShutdown s side).1 := by
  cases side <;> unfold takeShutdown <;> dsimp only <;> split <;>
    first | exact .refl s | exact ⟨rfl, rfl, rfl, rfl, rfl, rfl, rfl, .inl rfl, fun _ => rfl, id⟩

theorem takeFinAction_slot (s : Slot) (side : Side) :
    (takeFinAction s side).1 = (takeShutdown s side).1 := by
  unfold takeFinAction
  dsimp only
  split <;> rfl

theorem quiet_takeFinAction (s : Slot) (side : Side) : Quiet s (takeFinAction s side).1 := by
  rw [takeFinAction_slot]
  exact quiet_takeShutdown s side

/-! ## Operations that move bytes -/

theorem truncate_buffer {n : Nat} (fits : n ≤ kBufSize) : truncate 16 n = n :=
  truncate_of_lt (by simp only [kBufSize] at fits; omega)

theorem wrapSub_buffer {len off : Nat} (ordered : off ≤ len) (fits : len ≤ kBufSize) :
    wrapSub 32 len off = len - off :=
  wrapSub_of_le ordered (by simp only [kBufSize] at fits; omega)

/-- With room for it, a reply is appended. -/
theorem queueClient_eq (s : Slot) {d : List UInt8} (fits : s.u2cLen + d.length ≤ kBufSize) :
    queueClient s d =
      { s with u2c := s.u2c.store s.u2cLen d, u2cLen := s.u2cLen + d.length } := by
  have small : ¬ (s.u2cLen + d.length > kBufSize) := by omega
  simp only [queueClient, small, false_and, ↓reduceIte, truncate_buffer fits]

theorem u2cPending_queueClient (s : Slot) {d : List UInt8} (ordered : s.u2cOff ≤ s.u2cLen)
    (fits : s.u2cLen + d.length ≤ kBufSize) :
    u2cPending (queueClient s d) = u2cPending s ++ d := by
  rw [queueClient_eq s fits]
  exact s.u2c.window_store_append d ordered fits

theorem consumeFront_eq (s : Slot) {n : Nat} (present : n ≤ s.c2uLen)
    (fits : s.c2uLen ≤ kBufSize) :
    consumeFront s n =
      { s with
        c2u := s.c2u.moveFront n (s.c2uLen - n), c2uLen := s.c2uLen - n, c2uOff := 0 } := by
  have small : ¬ (n > s.c2uLen) := by omega
  simp only [consumeFront, small, ↓reduceIte, wrapSub_buffer present fits]
  rw [truncate_buffer (by omega)]

theorem c2uPending_consumeFront (s : Slot) {n : Nat} (present : n ≤ s.c2uLen)
    (fits : s.c2uLen ≤ kBufSize) :
    c2uPending (consumeFront s n) = (s.c2u.window 0 s.c2uLen).drop n := by
  rw [consumeFront_eq s present fits, ← Memory.window_advance]
  have moved := @Memory.window_moveFront _ _ s.c2u n (s.c2uLen - n) (by omega)
  rw [Nat.add_sub_cancel' present] at moved
  simpa only [c2uPending, Nat.zero_add] using moved

end FryFirmware.Relay
