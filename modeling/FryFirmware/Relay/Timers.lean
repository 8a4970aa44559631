import FryFirmware.Relay.Pool
import FryFirmware.Relay.FinProperties
import Mathlib.Tactic.Common

/-!
# Timers and the select deadline

`slotRemainingMs` is the time until `onTimer` next changes a live slot, so the
deadline the pool hands to `select` is never zero after a timer pass and never
sleeps past a slot's next event.
-/

set_option autoImplicit false

namespace FryFirmware.Relay

open Lib

/-! ## Remaining time -/

theorem remaining_eq_zero {limit el : UInt32} : remaining limit el = 0 ↔ limit ≤ el := by
  unfold remaining
  split
  · next due => exact iff_of_true rfl due
  · next early =>
    refine iff_of_false ?_ early
    grind

theorem remaining_zero {limit : UInt32} (positive : 0 < limit) : 0 < remaining limit 0 := by
  unfold remaining
  split <;> grind

theorem elapsed_self (now : UInt32) : elapsed now now = 0 := by
  unfold elapsed
  grind

theorem elapsed_later (now since delay : UInt32) :
    elapsed (now + delay) since = elapsed now since + delay := by
  unfold elapsed
  grind

/-- Time that passes is taken off what remains. -/
theorem remaining_later {limit el delay : UInt32} (within : delay ≤ remaining limit el) :
    remaining limit (el + delay) = remaining limit el - delay := by
  unfold remaining at within ⊢
  split at within <;> split <;> grind

def nearer (r h : UInt32) : UInt32 := if h < r then h else r

theorem nearer_eq_zero {r h : UInt32} : nearer r h = 0 ↔ r = 0 ∨ h = 0 := by
  unfold nearer
  split
  · constructor
    · exact .inr
    · rintro (zero | zero) <;> grind
  · constructor
    · exact .inl
    · rintro (zero | zero) <;> grind

theorem nearer_le_left (r h : UInt32) : nearer r h ≤ r := by
  unfold nearer
  split <;> grind

theorem nearer_le_right (r h : UInt32) : nearer r h ≤ h := by
  unfold nearer
  split <;> grind

theorem nearer_cases (r h : UInt32) : nearer r h = r ∨ nearer r h = h := by
  unfold nearer
  split
  · exact .inr rfl
  · exact .inl rfl

theorem nearer_later {r h delay : UInt32} (within : delay ≤ nearer r h) :
    nearer (r - delay) (h - delay) = nearer r h - delay := by
  unfold nearer at within ⊢
  split at within <;> split <;> grind

/-- The deadline of a relaying slot, from its three clocks. -/
theorem slotRemainingMs_relay {s : Slot} (relaying : s.phase = .relay) (t : Timing) (now : UInt32) :
    slotRemainingMs s t now =
      let idle := remaining t.idleMs (elapsed now s.lastActivityMs)
      let half := if s.halfClosing then
        nearer idle (remaining t.halfCloseMs (elapsed now s.halfCloseStartMs)) else idle
      if s.graceUp then nearer half (remaining s.finGraceMs (elapsed now s.graceStartMs)) else half := by
  simp only [slotRemainingMs, relaying]
  rfl

/-- A live slot's deadline comes closer as time passes. -/
theorem slotRemainingMs_later {s : Slot} (live : isLive s = true) {t : Timing} {now delay : UInt32}
    (within : delay ≤ slotRemainingMs s t now) :
    slotRemainingMs s t (now + delay) = slotRemainingMs s t now - delay := by
  cases phase : s.phase with
  | free => simp [isLive, phase] at live
  | closed => simp [isLive, phase] at live
  | relay =>
      rw [slotRemainingMs_relay phase] at within ⊢
      rw [slotRemainingMs_relay phase]
      simp only [elapsed_later] at within ⊢
      cases halfClosing : s.halfClosing <;> cases grace : s.graceUp <;>
        simp only [halfClosing, grace, ↓reduceIte, Bool.false_eq_true] at within ⊢
      · exact remaining_later within
      · rw [remaining_later (UInt32.le_trans within (nearer_le_left _ _)),
          remaining_later (UInt32.le_trans within (nearer_le_right _ _)), nearer_later within]
      · rw [remaining_later (UInt32.le_trans within (nearer_le_left _ _)),
          remaining_later (UInt32.le_trans within (nearer_le_right _ _)), nearer_later within]
      · have half := UInt32.le_trans within (nearer_le_left _ _)
        rw [remaining_later (UInt32.le_trans half (nearer_le_left _ _)),
          remaining_later (UInt32.le_trans half (nearer_le_right _ _)), nearer_later half,
          remaining_later (UInt32.le_trans within (nearer_le_right _ _)), nearer_later within]
  | _ =>
      simp only [slotRemainingMs, phase, elapsed_later] at within ⊢
      exact remaining_later within

/-! ## One slot's timer -/

/-- All limits of the core's timers are positive. -/
structure Timing.Positive (t : Timing) : Prop where
  greeting : 0 < t.greetingMs
  request : 0 < t.requestMs
  connect : 0 < t.connectMs
  flush : 0 < t.flushMs
  idle : 0 < t.idleMs
  halfClose : 0 < t.halfCloseMs

/-- The slot has a deadline ahead, or it needs none. -/
def Ahead (s : Slot) (t : Timing) (now : UInt32) : Prop :=
  0 < slotRemainingMs s t now ∨ s.phase = .closed

theorem closeSlot_phase (s : Slot) (why : CloseReason) : (closeSlot s why).phase = .closed := by
  unfold closeSlot
  split
  · next closed => exact closed
  · rfl

theorem closeSlot_changes {s : Slot} (live : s.phase ≠ .closed) (why : CloseReason) :
    closeSlot s why ≠ s := by
  intro same
  exact live (same ▸ closeSlot_phase s why)

theorem connectFailed_phase (s : Slot) (why : CloseReason) (now : UInt32) :
    (connectFailed s why now).phase = .flush := rfl

theorem connectFailed_changes {s : Slot} (waiting : s.phase ≠ .flush) (why : CloseReason)
    (now : UInt32) : connectFailed s why now ≠ s := by
  intro same
  exact waiting (same ▸ connectFailed_phase s why now)

theorem ite_changes {s t : Slot} {due : Prop} [Decidable due] (changes : t ≠ s) :
    (if due then t else s) ≠ s ↔ due := by
  split
  · next holds => exact iff_of_true changes holds
  · next fails => exact iff_of_false (fun other => other rfl) fails

/-- The timer changes a relaying slot when one of its three clocks has run out. -/
theorem onTimer_relay {s : Slot} (relaying : s.phase = .relay) (t : Timing) (now : UInt32) :
    onTimer s t now ≠ s ↔
      t.idleMs ≤ elapsed now s.lastActivityMs ∨
      (s.halfClosing = true ∧ t.halfCloseMs ≤ elapsed now s.halfCloseStartMs) ∨
      (s.graceUp = true ∧ s.finGraceMs ≤ elapsed now s.graceStartMs) := by
  have notClosed : s.phase ≠ .closed := by simp [relaying]
  simp only [onTimer, relaying, ge_iff_le, Bool.and_eq_true, decide_eq_true_eq]
  split
  · next idle => exact iff_of_true (closeSlot_changes notClosed .idle) (.inl idle)
  · next active =>
    split
    · next half => exact iff_of_true (closeSlot_changes notClosed _) (.inr (.inl half))
    · next whole =>
      split
      · next grace =>
        refine iff_of_true ?_ (.inr (.inr grace))
        intro same
        have cleared := (congrArg Slot.graceUp same).trans grace.1
        cases cleared
      · next waits =>
        refine iff_of_false (fun other => other rfl) ?_
        rintro (idle | half | grace)
        · exact active idle
        · exact whole half
        · exact waits grace

theorem slotRemainingMs_relay_eq_zero {s : Slot} (relaying : s.phase = .relay) (t : Timing)
    (now : UInt32) :
    slotRemainingMs s t now = 0 ↔
      t.idleMs ≤ elapsed now s.lastActivityMs ∨
      (s.halfClosing = true ∧ t.halfCloseMs ≤ elapsed now s.halfCloseStartMs) ∨
      (s.graceUp = true ∧ s.finGraceMs ≤ elapsed now s.graceStartMs) := by
  rw [slotRemainingMs_relay relaying]
  cases halfClosing : s.halfClosing <;> cases grace : s.graceUp <;>
    simp [remaining_eq_zero, nearer_eq_zero, or_assoc]

/-- The timer acts on a live slot exactly when no time remains. -/
theorem onTimer_acts {s : Slot} (live : isLive s = true) (t : Timing) (now : UInt32) :
    onTimer s t now ≠ s ↔ slotRemainingMs s t now = 0 := by
  have notClosed : s.phase ≠ .closed := by
    intro closed
    simp [isLive, closed] at live
  cases phase : s.phase with
  | free => simp [isLive, phase] at live
  | closed => exact absurd phase notClosed
  | relay => rw [onTimer_relay phase, slotRemainingMs_relay_eq_zero phase]
  | greeting | request | flush =>
      simp only [onTimer, slotRemainingMs, phase, remaining_eq_zero]
      exact ite_changes (closeSlot_changes notClosed _)
  | needConnect | connecting =>
      simp only [onTimer, slotRemainingMs, phase, remaining_eq_zero]
      exact ite_changes (connectFailed_changes (by simp [phase]) _ now)

theorem onTimer_dead {s : Slot} (dead : isLive s = false) (t : Timing) (now : UInt32) :
    onTimer s t now = s := by
  cases phase : s.phase with
  | free | closed => simp only [onTimer, phase]
  | _ => simp [isLive, phase] at dead

/-- Before the deadline the timer leaves the slot alone. -/
theorem onTimer_early {s : Slot} (live : isLive s = true) {t : Timing} {now delay : UInt32}
    (early : delay < slotRemainingMs s t now) : onTimer s t (now + delay) = s := by
  by_contra acts
  have zero := (onTimer_acts live t (now + delay)).mp acts
  rw [slotRemainingMs_later live (UInt32.le_of_lt early)] at zero
  grind

/-- At the deadline the timer acts. -/
theorem onTimer_due {s : Slot} (live : isLive s = true) (t : Timing) (now : UInt32) :
    onTimer s t (now + slotRemainingMs s t now) ≠ s := by
  rw [onTimer_acts live, slotRemainingMs_later live (UInt32.le_refl _)]
  exact UInt32.sub_self _

theorem ahead_of_ne_zero {s : Slot} {t : Timing} {now : UInt32}
    (left : slotRemainingMs s t now ≠ 0) : Ahead s t now := by
  left
  grind

/-- Right after the grace time ran out, the other two clocks still run. -/
theorem onTimer_relay_ahead {s : Slot} (relaying : s.phase = .relay) (t : Timing) (now : UInt32) :
    Ahead (onTimer s t now) t now := by
  simp only [onTimer, relaying, ge_iff_le, Bool.and_eq_true, decide_eq_true_eq]
  split
  · exact .inr (closeSlot_phase s _)
  · next active =>
    split
    · exact .inr (closeSlot_phase s _)
    · next whole =>
      split
      · apply ahead_of_ne_zero
        rw [ne_eq, slotRemainingMs_relay_eq_zero rfl]
        rintro (idle | half | ⟨grace, _⟩)
        · exact active idle
        · exact whole half
        · cases grace
      · next waits =>
        apply ahead_of_ne_zero
        rw [ne_eq, slotRemainingMs_relay_eq_zero relaying]
        rintro (idle | half | grace)
        · exact active idle
        · exact whole half
        · exact waits grace

/-- A slot that waits on one clock and is closed when it runs out. -/
theorem closes_ahead {s : Slot} {t : Timing} {now limit el : UInt32} {why : CloseReason}
    (clock : slotRemainingMs s t now = remaining limit el) :
    Ahead (if el ≥ limit then closeSlot s why else s) t now := by
  split
  · exact .inr (closeSlot_phase s why)
  · next early =>
    apply ahead_of_ne_zero
    rwa [clock, ne_eq, remaining_eq_zero]

/-- A slot that waits to connect goes on to flush its failure reply. -/
theorem fails_ahead {s : Slot} {t : Timing} {now el : UInt32} (positive : t.Positive)
    (clock : slotRemainingMs s t now = remaining t.connectMs el) :
    Ahead (if el ≥ t.connectMs then connectFailed s .connectTimeout now else s) t now := by
  split
  · left
    have flushing : slotRemainingMs (connectFailed s .connectTimeout now) t now =
        remaining t.flushMs (elapsed now now) := rfl
    rw [flushing, elapsed_self]
    exact remaining_zero positive.flush
  · next early =>
    apply ahead_of_ne_zero
    rwa [clock, ne_eq, remaining_eq_zero]

/-- After the timer a slot has time left or is closed. -/
theorem onTimer_ahead (s : Slot) {t : Timing} (positive : t.Positive) (now : UInt32) :
    Ahead (onTimer s t now) t now := by
  cases phase : s.phase with
  | free =>
      left
      simp only [onTimer, phase, slotRemainingMs, kNoDeadline]
      decide
  | closed =>
      right
      simp only [onTimer, phase]
  | relay => exact onTimer_relay_ahead phase t now
  | greeting | request | flush =>
      simp only [onTimer, phase]
      exact closes_ahead (by simp only [slotRemainingMs, phase])
  | needConnect | connecting =>
      simp only [onTimer, phase]
      exact fails_ahead positive (by simp only [slotRemainingMs, phase])

/-! ## FINs after the timer -/

/-- The operation moves no clock and keeps the phase. -/
structure SameClocks (s u : Slot) : Prop where
  phase : u.phase = s.phase
  phaseStart : u.phaseStartMs = s.phaseStartMs
  lastActivity : u.lastActivityMs = s.lastActivityMs
  halfClosing : u.halfClosing = s.halfClosing
  halfCloseStart : u.halfCloseStartMs = s.halfCloseStartMs
  graceUp : u.graceUp = s.graceUp
  graceStart : u.graceStartMs = s.graceStartMs
  finGrace : u.finGraceMs = s.finGraceMs

theorem SameClocks.ahead {s u : Slot} (same : SameClocks s u) {t : Timing} {now : UInt32}
    (ahead : Ahead s t now) : Ahead u t now := by
  have clock : slotRemainingMs u t now = slotRemainingMs s t now := by
    simp only [slotRemainingMs, same.phase, same.phaseStart, same.lastActivity, same.halfClosing,
      same.halfCloseStart, same.graceUp, same.graceStart, same.finGrace]
  rcases ahead with left | closed
  · exact .inl (clock ▸ left)
  · exact .inr (same.phase.trans closed)

theorem takeShutdown_clocks (s : Slot) (side : Side) : SameClocks s (takeShutdown s side).1 := by
  cases side <;> simp only [takeShutdown] <;> split <;> exact ⟨rfl, rfl, rfl, rfl, rfl, rfl, rfl, rfl⟩

theorem drainAndClose_clocks (s : Slot) (side : Side) (drained : List (List UInt8)) :
    SameClocks s (drainAndClose s side drained) := by
  cases side <;> simp only [drainAndClose] <;> split <;> exact ⟨rfl, rfl, rfl, rfl, rfl, rfl, rfl, rfl⟩

theorem finishSide_clocks (s : Slot) (side : Side) : SameClocks s (finishSide s side) := by
  cases side <;> exact ⟨rfl, rfl, rfl, rfl, rfl, rfl, rfl, rfl⟩

theorem armClient_clocks (s : Slot) : SameClocks s (armClient s) := by
  unfold armClient
  split <;> exact ⟨rfl, rfl, rfl, rfl, rfl, rfl, rfl, rfl⟩

theorem relay_ahead_iff {s : Slot} (relaying : s.phase = .relay) {t : Timing} {now : UInt32} :
    Ahead s t now ↔
      ¬ t.idleMs ≤ elapsed now s.lastActivityMs ∧
      ¬ (s.halfClosing = true ∧ t.halfCloseMs ≤ elapsed now s.halfCloseStartMs) ∧
      ¬ (s.graceUp = true ∧ s.finGraceMs ≤ elapsed now s.graceStartMs) := by
  rw [← not_or, ← not_or, ← slotRemainingMs_relay_eq_zero relaying]
  constructor
  · rintro (left | closed)
    · grind
    · simp [relaying] at closed
  · exact ahead_of_ne_zero

theorem late_of_zero {limit now : UInt32} (positive : 0 < limit) : ¬ limit ≤ elapsed now now := by
  rw [elapsed_self]
  grind

/-- A grace wait that starts now has its whole time ahead. -/
theorem armUp_ahead {s : Slot} (relaying : s.phase = .relay) {t : Timing} {now : UInt32}
    (ahead : Ahead s t now) : Ahead (armUp s now) t now := by
  obtain ⟨idle, half, grace⟩ := (relay_ahead_iff relaying).mp ahead
  rw [relay_ahead_iff (by rw [armUp_phase, relaying])]
  unfold armUp
  split
  · split
    · next waits =>
      split
      · refine ⟨idle, half, fun due => late_of_zero ?_ due.2⟩
        simp only [Bool.and_eq_true, decide_eq_true_eq] at waits
        have positive := waits.1.2
        grind
      · exact ⟨idle, half, grace⟩
    · exact ⟨idle, half, fun due => Bool.false_ne_true due.1⟩
  · exact ⟨idle, half, grace⟩

/-- A half-close clock that starts now has its whole time ahead. -/
theorem settle_ahead {s : Slot} (relaying : s.phase = .relay) {t : Timing} (positive : t.Positive)
    {now : UInt32} (ahead : Ahead s t now) : Ahead (settle s now) t now := by
  unfold settle
  split
  · exact .inr (closeSlot_phase s _)
  · split
    · obtain ⟨idle, _, grace⟩ := (relay_ahead_iff relaying).mp ahead
      rw [relay_ahead_iff (by exact relaying)]
      exact ⟨idle, fun due => late_of_zero positive.halfClose due.2, grace⟩
    · exact ahead

theorem relayUpdate_ahead {s : Slot} {t : Timing} (positive : t.Positive) {now : UInt32}
    (ahead : Ahead s t now) : Ahead (relayUpdate s now) t now := by
  unfold relayUpdate
  split
  · exact ahead
  · next relaying =>
    have phase := not_not.mp relaying
    apply settle_ahead (by rw [armClient_phase, armUp_phase, phase]) positive
    exact (armClient_clocks _).ahead (armUp_ahead phase ahead)

theorem forwardFin_ahead {s : Slot} (side : Side) (drained : List (List UInt8)) {t : Timing}
    (positive : t.Positive) {now : UInt32} (ahead : Ahead s t now) :
    Ahead (forwardFin s side drained now).1 t now := by
  have taken : Ahead (takeFinAction s side).1 t now := by
    rw [takeFinAction_slot]
    exact (takeShutdown_clocks s side).ahead ahead
  rw [forwardFin_eq]
  dsimp only
  split
  · apply relayUpdate_ahead positive
    apply (finishSide_clocks _ side).ahead
    exact (drainAndClose_clocks _ side drained).ahead taken
  · exact taken

theorem forwardFins_ahead {s : Slot} (fins : FinBuild) {t : Timing} (positive : t.Positive)
    {now : UInt32} (ahead : Ahead s t now) : Ahead (forwardFins s now fins) t now := by
  cases fins with
  | close drainedUp drainedClient =>
      exact forwardFin_ahead .client drainedClient positive (forwardFin_ahead .up drainedUp positive ahead)
  | halfClose =>
      exact (takeShutdown_clocks _ .client).ahead ((takeShutdown_clocks s .up).ahead ahead)

/-! ## The pool's deadline -/

/-- Every slot of the pool has time left or is closed. -/
def PoolAhead (slots : Pool) (t : Timing) (now : UInt32) : Prop :=
  ∀ s, some s ∈ slots → Ahead s t now

theorem timerPass_ahead (slots : Pool) {t : Timing} (positive : t.Positive) (now : UInt32) :
    PoolAhead (timerPass slots t now) t now := by
  intro s present
  simp only [timerPass, List.mem_map, Option.map_eq_some_iff] at present
  obtain ⟨_, _, before, _, rfl⟩ := present
  exact onTimer_ahead before positive now

theorem relayTimerPass_ahead (slots : Pool) {t : Timing} (positive : t.Positive) (now : UInt32)
    (fins : Nat → FinBuild) : PoolAhead (relayTimerPass slots t now fins) t now := by
  intro s present
  simp only [relayTimerPass, List.mem_map, List.mem_mapIdx] at present
  obtain ⟨serviced, ⟨i, inside, rfl⟩, kept⟩ := present
  rw [Option.filter_eq_some_iff, Option.map_eq_some_iff] at kept
  obtain ⟨⟨before, found, rfl⟩, _⟩ := kept
  apply forwardFins_ahead (fins i) positive
  exact timerPass_ahead slots positive now before (found ▸ List.getElem_mem inside)

theorem poolSelectTimeoutMs_dead {s : Slot} (dead : isLive s = false) (slots : Pool) (t : Timing)
    (now maxMs : UInt32) :
    poolSelectTimeoutMs (some s :: slots) t now maxMs = poolSelectTimeoutMs slots t now maxMs := by
  simp only [poolSelectTimeoutMs, List.foldl_cons, dead, Bool.not_false, ↓reduceIte]

theorem poolSelectTimeoutMs_live {s : Slot} (live : isLive s = true) (slots : Pool) (t : Timing)
    (now maxMs : UInt32) :
    poolSelectTimeoutMs (some s :: slots) t now maxMs =
      poolSelectTimeoutMs slots t now (nearer maxMs (slotRemainingMs s t now)) := by
  simp only [poolSelectTimeoutMs, List.foldl_cons, live, Bool.not_true, Bool.false_eq_true,
    ↓reduceIte, nearer]

theorem poolSelectTimeoutMs_le (slots : Pool) (t : Timing) (now maxMs : UInt32) :
    poolSelectTimeoutMs slots t now maxMs ≤ maxMs := by
  induction slots generalizing maxMs with
  | nil => exact UInt32.le_refl _
  | cons slot slots ih =>
      cases slot with
      | none => exact ih maxMs
      | some s =>
          cases live : isLive s with
          | false => rw [poolSelectTimeoutMs_dead live]; exact ih maxMs
          | true =>
              rw [poolSelectTimeoutMs_live live]
              exact UInt32.le_trans (ih _) (nearer_le_left _ _)

theorem poolSelectTimeoutMs_le_slot {slots : Pool} {s : Slot} (present : some s ∈ slots)
    (live : isLive s = true) (t : Timing) (now maxMs : UInt32) :
    poolSelectTimeoutMs slots t now maxMs ≤ slotRemainingMs s t now := by
  induction slots generalizing maxMs with
  | nil => cases present
  | cons slot slots ih =>
      rcases List.mem_cons.mp present with rfl | later
      · rw [poolSelectTimeoutMs_live live]
        exact UInt32.le_trans (poolSelectTimeoutMs_le _ _ _ _) (nearer_le_right _ _)
      · cases slot with
        | none => exact ih later maxMs
        | some other =>
            cases alive : isLive other with
            | false => rw [poolSelectTimeoutMs_dead alive]; exact ih later maxMs
            | true => rw [poolSelectTimeoutMs_live alive]; exact ih later _

/-- The timeout is the cap, or the deadline of one of the slots. -/
theorem poolSelectTimeoutMs_cases (slots : Pool) (t : Timing) (now maxMs : UInt32) :
    poolSelectTimeoutMs slots t now maxMs = maxMs ∨
      ∃ s, some s ∈ slots ∧ isLive s = true ∧
        poolSelectTimeoutMs slots t now maxMs = slotRemainingMs s t now := by
  induction slots generalizing maxMs with
  | nil => exact .inl rfl
  | cons slot slots ih =>
      cases slot with
      | none =>
          rcases ih maxMs with cap | ⟨s, present, live, at_⟩
          · exact .inl cap
          · exact .inr ⟨s, .tail _ present, live, at_⟩
      | some s =>
          cases live : isLive s with
          | false =>
              rw [poolSelectTimeoutMs_dead live]
              rcases ih maxMs with cap | ⟨other, present, alive, at_⟩
              · exact .inl cap
              · exact .inr ⟨other, .tail _ present, alive, at_⟩
          | true =>
              rw [poolSelectTimeoutMs_live live]
              rcases ih (nearer maxMs (slotRemainingMs s t now)) with cap | ⟨other, present, alive, at_⟩
              · rcases nearer_cases maxMs (slotRemainingMs s t now) with keeps | own
                · exact .inl (cap.trans keeps)
                · exact .inr ⟨s, .head _, live, cap.trans own⟩
              · exact .inr ⟨other, .tail _ present, alive, at_⟩

/-! ## The law -/

/-- The deadline of a live slot is the time until its timer next acts. -/
structure DeadlineLaw (s : Slot) (t : Timing) (now : UInt32) : Prop where
  acts : onTimer s t now ≠ s ↔ slotRemainingMs s t now = 0
  ahead : 0 < slotRemainingMs (onTimer s t now) t now ∨ (onTimer s t now).phase = .closed
  quiet : ∀ delay, delay < slotRemainingMs s t now → onTimer s t (now + delay) = s
  due : onTimer s t (now + slotRemainingMs s t now) ≠ s

/-- `select` neither spins nor sleeps past an event of the pool. -/
structure SelectLaw (slots : Pool) (t : Timing) (now maxMs : UInt32) : Prop where
  positive : 0 < poolSelectTimeoutMs slots t now maxMs
  capped : poolSelectTimeoutMs slots t now maxMs ≤ maxMs
  bounded : ∀ s, some s ∈ slots → isLive s = true →
    poolSelectTimeoutMs slots t now maxMs ≤ slotRemainingMs s t now
  quiet : ∀ s, some s ∈ slots → ∀ delay, delay < poolSelectTimeoutMs slots t now maxMs →
    onTimer s t (now + delay) = s
  /-- A timeout below the cap ends at an event. -/
  due : poolSelectTimeoutMs slots t now maxMs = maxMs ∨
    ∃ s, some s ∈ slots ∧ onTimer s t (now + poolSelectTimeoutMs slots t now maxMs) ≠ s

theorem PoolAhead.selectLaw {slots : Pool} {t : Timing} {now maxMs : UInt32}
    (ahead : PoolAhead slots t now) (cap : 0 < maxMs) : SelectLaw slots t now maxMs where
  positive := by
    rcases poolSelectTimeoutMs_cases slots t now maxMs with same | ⟨s, present, live, same⟩
    · rw [same]
      exact cap
    · rw [same]
      rcases ahead s present with left | closed
      · exact left
      · simp [isLive, closed] at live
  capped := poolSelectTimeoutMs_le slots t now maxMs
  bounded := fun s present live => poolSelectTimeoutMs_le_slot present live t now maxMs
  quiet := by
    intro s present delay early
    cases live : isLive s with
    | false => exact onTimer_dead live t _
    | true =>
        have bound := poolSelectTimeoutMs_le_slot present live t now maxMs
        exact onTimer_early live (UInt32.lt_of_lt_of_le early bound)
  due := by
    rcases poolSelectTimeoutMs_cases slots t now maxMs with same | ⟨s, present, live, same⟩
    · exact .inl same
    · refine .inr ⟨s, present, ?_⟩
      rw [same]
      exact onTimer_due live t now

/-- Timer and deadline agree on every live slot, and after a pass of the timers,
with or without the FINs the relay task then carries out, the pool's timeout is
positive and ends no later than the next event. -/
theorem timers_agree (t : Timing) (positive : t.Positive) (now : UInt32) :
    (∀ s, isLive s = true → DeadlineLaw s t now) ∧
    ∀ (slots : Pool) (maxMs : UInt32), 0 < maxMs →
      SelectLaw (timerPass slots t now) t now maxMs ∧
      ∀ fins, SelectLaw (relayTimerPass slots t now fins) t now maxMs := by
  constructor
  · intro s live
    exact ⟨onTimer_acts live t now, onTimer_ahead s positive now,
      fun _ => onTimer_early live, onTimer_due live t now⟩
  · intro slots maxMs cap
    exact ⟨(timerPass_ahead slots positive now).selectLaw cap,
      fun fins => (relayTimerPass_ahead slots positive now fins).selectLaw cap⟩

/-- A relaying slot whose grace time has just run out. -/
def graceOver : Slot :=
  { slotInit (.filled kBufSize 0) (.filled kBufSize 0) 5 0 with
    phase := .relay, upFd := 6, clientRdOpen := false, graceUp := true, finGraceMs := 500 }

theorem timers_agree_graceOver :
    onTimer graceOver {} 500 ≠ graceOver ∧
      0 < poolSelectTimeoutMs (relayTimerPass [some graceOver, none] {} 500 fun _ => .close [] [])
        {} 500 1000 := by
  have positive : Timing.Positive {} := by constructor <;> decide
  have law := timers_agree {} positive 500
  constructor
  · rw [(law.1 graceOver (by decide)).acts]
    decide
  · exact ((law.2 [some graceOver, none] 1000 (by decide)).2 _).positive

end FryFirmware.Relay
