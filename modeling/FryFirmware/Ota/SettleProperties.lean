import FryFirmware.Ota.Settle
import Mathlib.Data.List.Induction

/-!
# What the settle waits leave behind

A wait ends at the first look that finds the heap settled, or else at its bound. Over the
checks of a boot the level they wait for is a block that one of them started on, and it
falls only when a wait has run into the bound.
-/

set_option autoImplicit false

namespace FryFirmware.Ota

open Lib

theorem settleWant_le_iff {before slackBytes blk : UInt32} :
    settleWant before slackBytes ≤ blk ↔ before.toNat ≤ blk.toNat + slackBytes.toNat :=
  floored_sub_le_iff

/-- The block is back, or short of it by no more than the slack. -/
def Back (blk before : UInt32) : Prop := before.toNat ≤ blk.toNat + kOtaSettleSlackBytes.toNat

theorem back_iff {blk : UInt32} (before : UInt32) (fits : blk.toNat + kOtaSettleSlackBytes.toNat < 2 ^ 32) :
    blk + kOtaSettleSlackBytes ≥ before ↔ Back blk before := by
  rw [ge_iff_le, UInt32.le_iff_toNat_le, UInt32.toNat_add, Nat.mod_eq_of_lt fits, Back]

theorem decideHeapSettle_hold_iff {blk before slackBytes held most : UInt32} :
    decideHeapSettle blk before slackBytes held most = .hold ↔
      ¬ before.toNat ≤ blk.toNat + slackBytes.toNat ∧ ¬ most ≤ held := by
  rw [decideHeapSettle, ← settleWant_le_iff]
  split
  · next back => simp [ge_iff_le.mp back]
  · next short =>
    split
    · next late => simp [ge_iff_le.mp late]
    · next early => simp_all

theorem decideClosingSettle_hold_iff {closingPcbs held most : UInt32} :
    decideClosingSettle closingPcbs held most = .hold ↔ closingPcbs ≠ 0 ∧ ¬ most ≤ held := by
  rw [decideClosingSettle]
  by_cases none_left : closingPcbs = 0
  · simp [none_left]
  · rw [if_neg (by simpa using none_left)]
    split
    · next late => simp [ge_iff_le.mp late]
    · next early => simp_all

/-! ## After a session -/

/-- The looks of a loop: at least the delay apart, and the second reading of the clock not
far behind the first. -/
structure Looked (gap t0 : Nat) (looks : Nat → Look) : Prop where
  polled : Polled kOtaSettlePollMs.toNat gap t0 fun n => (looks n).heapTime
  closing : ∀ n, (looks n).heapTime ≤ (looks n).closingTime ∧
    (looks n).closingTime < (looks n).heapTime + gap

/-- Neither criterion holds the loop: it is met, or its clock shows the bound. -/
def Look.Settled (look : Look) (before : UInt32) (t0 : Nat) : Prop :=
  (Back look.blk before ∨ t0 + kOtaSettleMaxMs.toNat ≤ look.heapTime) ∧
    (look.closingPcbs = 0 ∨ t0 + kOtaSettleMaxMs.toNat ≤ look.closingTime)

theorem heldAfterSession_eq_false_iff {before : UInt32} {t0 : Nat} {look : Look}
    (ordered : t0 ≤ look.heapTime ∧ look.heapTime ≤ look.closingTime)
    (recent : look.closingTime < t0 + 2 ^ 32) :
    heldAfterSession before t0 look = false ↔ look.Settled before t0 := by
  obtain ⟨started, later⟩ := ordered
  simp only [heldAfterSession, Bool.or_eq_false_iff, beq_eq_false_iff_ne, ne_eq,
    decideHeapSettle_hold_iff, decideClosingSettle_hold_iff, elapsed_iff started (by omega),
    elapsed_iff (Nat.le_trans started later) recent, Look.Settled, Back]
  tauto

section

variable {gap t0 : Nat} {looks : Nat → Look}

/-- The loop ends, at the first look at which the heap is settled. -/
theorem settleLoop_ends (before : UInt32) (looked : Looked gap t0 looks)
    (short : kOtaSettleMaxMs.toNat + 2 * gap ≤ 2 ^ 32) :
    ∃ n, settleLoop before t0 looks settleLooks = some (looks n) ∧ (looks n).Settled before t0 ∧
      (∀ j, j < n → ¬ (looks j).Settled before t0) ∧
      (looks n).heapTime < t0 + kOtaSettleMaxMs.toNat + gap := by
  have started : ∀ n, t0 ≤ (looks n).heapTime := looked.polled.started
  have recent : ∀ n, (looks n).heapTime < t0 + kOtaSettleMaxMs.toNat + gap →
      (looks n).closingTime < t0 + 2 ^ 32 := fun n soon => by
    have := (looked.closing n).2
    omega
  have settled_iff : ∀ n, (looks n).heapTime < t0 + kOtaSettleMaxMs.toNat + gap →
      (heldAfterSession before t0 (looks n) = false ↔ (looks n).Settled before t0) := fun n soon =>
    heldAfterSession_eq_false_iff ⟨started n, (looked.closing n).1⟩ (recent n soon)
  have bounded : ∀ n, t0 + kOtaSettleMaxMs.toNat ≤ (looks n).heapTime →
      (looks n).heapTime < t0 + kOtaSettleMaxMs.toNat + gap →
      heldAfterSession before t0 (looks n) = false := fun n late soon =>
    (settled_iff n soon).mpr ⟨.inr late, .inr (Nat.le_trans late (looked.closing n).1)⟩
  obtain ⟨n, found⟩ := wait_ends looked.polled bounded
    (kOtaSettleMaxMs.toNat / kOtaSettlePollMs.toNat) (by decide)
  obtain ⟨-, -, free, earlier⟩ := waitFrom_eq_some_iff.mp found
  have inside := held_inside looked.polled bounded fun j before => earlier j (Nat.zero_le j) before
  have soon := looked.polled.soon inside
  refine ⟨n, by rw [settleLoop, settleLooks, found]; rfl, (settled_iff n soon).mp free, ?_, soon⟩
  intro j before settled
  have in_bound := inside j before
  have free := (settled_iff j (by omega)).mpr settled
  rw [earlier j (Nat.zero_le j) before] at free
  cases free

/-- The two loops after a session end inside the bound and one gap, at the first look at which
the heap is settled, and their lines say whether the block was back. -/
theorem settled_after_session (before : UInt32) (looked : Looked gap t0 looks)
    (short : kOtaSettleMaxMs.toNat + 2 * gap ≤ 2 ^ 32)
    (fits : ∀ n, (looks n).blk.toNat + kOtaSettleSlackBytes.toNat < 2 ^ 32) :
    ∃ n waited, (looks n).Settled before t0 ∧ (∀ j, j < n → ¬ (looks j).Settled before t0) ∧
      (looks n).heapTime < t0 + kOtaSettleMaxMs.toNat + gap ∧
      waited = counter (looks n).doneTime - counter t0 ∧
      (∃ line, settleAfterManifest before t0 looks settleLooks = some line ∧
        (line = none ↔ waited = 0) ∧
        ∀ l ∈ line, (l.settled = true ↔ Back (looks n).blk before)) ∧
      ∃ line, settleAfterHop before t0 looks settleLooks = some (waited, line) ∧
        (line = none ↔ Back (looks n).blk before) := by
  obtain ⟨n, found, settled, first, soon⟩ := settleLoop_ends before looked short
  have back := back_iff before (fits n)
  refine ⟨n, _, settled, first, soon, rfl, ?_, ?_⟩
  · simp only [settleAfterManifest, found, Option.bind_eq_bind, Option.bind_some]
    by_cases at_once : counter (looks n).doneTime - counter t0 = 0
    · rw [if_pos (by simpa using at_once)]
      exact ⟨none, rfl, by simp [at_once], nofun⟩
    · rw [if_neg (by simpa using at_once)]
      refine ⟨_, rfl, by simp [at_once], ?_⟩
      rintro _ ⟨⟩
      rw [decide_eq_true_iff, back]
  · simp only [settleAfterHop, found, Option.bind_eq_bind, Option.bind_some]
    rw [ge_iff_le, ← UInt32.not_lt] at back
    split
    · next short =>
      exact ⟨_, rfl, by simp [← back, short]⟩
    · next enough => exact ⟨_, rfl, iff_of_true rfl (back.mp enough)⟩

end

/-- A heap that is back while the connection closes for three more looks. -/
def closingLooks (n : Nat) : Look :=
  { blk := 39448, heapTime := 70000 + 20 * n, closingPcbs := if n < 3 then 1 else 0,
    closingTime := 70000 + 20 * n, doneTime := 70001 + 20 * n }

theorem settled_after_session_closing :
    ∃ n, (closingLooks n).Settled 39448 70000 ∧
      (∀ j, j < n → ¬ (closingLooks j).Settled 39448 70000) ∧
      ∃ line, settleAfterHop 39448 70000 closingLooks settleLooks = some line := by
  have looked : Looked 21 70000 closingLooks := by
    refine ⟨⟨by decide, fun n => ?_, fun n => ?_⟩, fun n => ?_⟩ <;>
      simp only [closingLooks, kOtaSettlePollMs, UInt32.reduceToNat] <;> omega
  obtain ⟨n, waited, settled, first, -, -, -, line, ended, -⟩ :=
    settled_after_session 39448 looked (by decide) fun _ =>
      show (39448 : UInt32).toNat + kOtaSettleSlackBytes.toNat < 2 ^ 32 by decide
  exact ⟨n, settled, first, _, ended⟩

/-! ## One wait before a check -/

namespace CheckStart

/-- When the variables were last set. -/
def time (c : CheckStart) : Nat → Nat
  | 0 => c.t0
  | n + 1 => (c.looks n).time

def Steady (gap : Nat) (c : CheckStart) : Prop := Polled kOtaSettlePollMs.toNat gap c.t0 c.time

variable {c : CheckStart} {gap : Nat} {base : UInt32}

theorem held_waitAfter (c : CheckStart) (n : Nat) :
    (c.waitAfter n).held = counter (c.time n) - counter c.t0 := by
  cases n with
  | zero => simp [waitAfter, begin, time]
  | succ n => rfl

/-- `last` follows the block, and `changedAt` is when the block became what it is. -/
theorem waitAfter_changed (c : CheckStart) (n : Nat) :
    (c.waitAfter n).last = (c.waitAfter n).blk ∧
      ∃ m ≤ n, (c.waitAfter n).changedAt = counter (c.time m) ∧
        ∀ j, m ≤ j → j ≤ n → (c.waitAfter j).blk = (c.waitAfter n).blk := by
  induction n with
  | zero =>
      refine ⟨rfl, 0, Nat.le_refl _, rfl, fun j _ last => ?_⟩
      rw [Nat.le_zero.mp last]
  | succ n ih =>
      obtain ⟨follows, m, early, since, same⟩ := ih
      by_cases changed : (c.looks n).blk = (c.waitAfter n).last
      · have unbroken : (c.waitAfter (n + 1)).blk = (c.waitAfter n).blk := changed.trans follows
        refine ⟨by simp [waitAfter, turn, changed], m, by omega, ?_, ?_⟩
        · rw [← since]
          simp [waitAfter, turn, changed]
        · intro j from_m to_n
          rcases Nat.eq_or_lt_of_le to_n with rfl | before
          · rfl
          · rw [unbroken]
            exact same j from_m (Nat.le_of_lt_succ before)
      · refine ⟨by simp [waitAfter, turn, changed], n + 1, Nat.le_refl _, ?_, ?_⟩
        · simp [waitAfter, turn, changed, time]
        · intro j from_n to_n
          rw [Nat.le_antisymm to_n from_n]

theorem stable_waitAfter (c : CheckStart) (n : Nat) :
    (c.waitAfter n).stable = counter (c.time n) - (c.waitAfter n).changedAt := by
  cases n with
  | zero => simp [waitAfter, begin, time]
  | succ n => rfl

/-- What `stable` shows has passed since the block changed. -/
theorem Steady.unchanged (steady : Steady gap c) {limit : UInt32} {n : Nat}
    (shown : limit ≤ (c.waitAfter n).stable) :
    ∃ m ≤ n, c.time m + limit.toNat ≤ c.time n ∧
      ∀ j, m ≤ j → j ≤ n → (c.waitAfter j).blk = (c.waitAfter n).blk := by
  obtain ⟨-, m, early, since, unbroken⟩ := waitAfter_changed c n
  rw [stable_waitAfter, since] at shown
  exact ⟨m, early, passed_of_elapsed (Polled.ordered steady early) shown, unbroken⟩

/-- The wait ran into its bound. -/
def CutOff (w : StartWait) : Prop := kOtaSettleMaxMs ≤ w.held

/-- What lets a wait for a level end: the block is back at it, or, with no level yet, the
block has been the same for long enough. -/
def Level (base : UInt32) (w : StartWait) : Prop :=
  if base = 0 then kOtaCheckStartStableMs ≤ w.stable else Back w.blk base

theorem heldBefore_eq_false_iff {n : Nat} :
    c.heldBefore base n = false ↔ CutOff (c.waitAfter n) ∨ Level base (c.waitAfter n) := by
  simp only [heldBefore, decideCheckStartSettle, beq_eq_false_iff_ne, ne_eq, CutOff, Level, Back,
    ← settleWant_le_iff, beq_iff_eq, ge_iff_le]
  split
  · next late => simp [late]
  · next early =>
    simp only [early, false_or]
    split <;> split <;> simp_all

/-- The loop before a check ends, at the first turn that leaves nothing to wait for. -/
theorem startLoop_ends (steady : Steady gap c) (short : kOtaSettleMaxMs.toNat + gap ≤ 2 ^ 32) :
    ∃ n, c.startLoop base settleLooks = some (c.waitAfter n) ∧
      (CutOff (c.waitAfter n) ∨ Level base (c.waitAfter n)) ∧
      (∀ j, j < n → ¬ CutOff (c.waitAfter j) ∧ ¬ Level base (c.waitAfter j)) ∧
      (CutOff (c.waitAfter n) ↔ c.t0 + kOtaSettleMaxMs.toNat ≤ c.time n) ∧
      c.time n < c.t0 + kOtaSettleMaxMs.toNat + gap := by
  have cutOff_iff : ∀ n, c.time n < c.t0 + kOtaSettleMaxMs.toNat + gap →
      (CutOff (c.waitAfter n) ↔ c.t0 + kOtaSettleMaxMs.toNat ≤ c.time n) := fun n soon => by
    rw [CutOff, held_waitAfter]
    exact elapsed_iff (steady.started n) (by omega)
  have bounded : ∀ n, c.t0 + kOtaSettleMaxMs.toNat ≤ c.time n →
      c.time n < c.t0 + kOtaSettleMaxMs.toNat + gap → c.heldBefore base n = false :=
    fun n late soon => heldBefore_eq_false_iff.mpr (.inl ((cutOff_iff n soon).mpr late))
  obtain ⟨n, found⟩ := wait_ends steady bounded
    (kOtaSettleMaxMs.toNat / kOtaSettlePollMs.toNat) (by decide)
  obtain ⟨-, -, free, earlier⟩ := waitFrom_eq_some_iff.mp found
  have inside := held_inside steady bounded fun j before => earlier j (Nat.zero_le j) before
  have soon := steady.soon inside
  refine ⟨n, by rw [startLoop, settleLooks, found]; rfl, heldBefore_eq_false_iff.mp free, ?_,
    cutOff_iff n soon, soon⟩
  intro j before
  rw [← not_or, ← heldBefore_eq_false_iff, earlier j (Nat.zero_le j) before]
  nofun

end CheckStart

open CheckStart

/-- One check: where it starts, and what the level is behind it. -/
theorem settleBeforeCheck_ends {c : CheckStart} {gap : Nat} (base : UInt32) (steady : c.Steady gap)
    (short : kOtaSettleMaxMs.toNat + gap ≤ 2 ^ 32) :
    ∃ n line, settleBeforeCheck base c settleLooks =
        some (nextCheckStartBaseline base (c.waitAfter n).blk ((c.waitAfter n).held ≥ kOtaSettleMaxMs),
          c.waitAfter n, line) ∧
      (CutOff (c.waitAfter n) ↔ c.t0 + kOtaSettleMaxMs.toNat ≤ c.time n) ∧
      (¬ CutOff (c.waitAfter n) → Level base (c.waitAfter n)) ∧
      ((c.waitAfter n).held ≠ 0 → base ≠ 0 → ¬ Back c.blk base) := by
  obtain ⟨n, found, free, earlier, cut_iff, -⟩ := @startLoop_ends c gap base steady short
  have ended : ∃ line, settleBeforeCheck base c settleLooks =
      some (nextCheckStartBaseline base (c.waitAfter n).blk
        ((c.waitAfter n).held ≥ kOtaSettleMaxMs), c.waitAfter n, line) := by
    simp only [settleBeforeCheck, found, Option.bind_eq_bind, Option.bind_some]
    split
    · exact ⟨none, rfl⟩
    · exact ⟨_, rfl⟩
  obtain ⟨line, ended⟩ := ended
  refine ⟨n, line, ended, cut_iff, fun uncut => free.resolve_left uncut, ?_⟩
  intro waited some_level back
  have turned : 0 < n := by
    rcases Nat.eq_zero_or_pos n with rfl | positive
    · exact absurd rfl waited
    · exact positive
  have short_at_first := (earlier 0 turned).2
  rw [Level, if_neg some_level] at short_at_first
  exact short_at_first back

/-! ## The checks of a boot -/

theorem settleChecks_concat {base : UInt32} {checks : List CheckStart} {c : CheckStart} :
    settleChecks base (checks ++ [c]) = (do
      let (base', ws) ← settleChecks base checks
      let (final, w, _) ← settleBeforeCheck base' c settleLooks
      return (final, ws ++ [w])) := by
  induction checks generalizing base with
  | nil =>
      simp only [List.nil_append, settleChecks]
      rfl
  | cons first checks ih =>
      simp only [List.cons_append, settleChecks, ih, Option.bind_eq_bind, Option.bind_assoc]
      rfl

theorem settleChecks_snoc {base base' next : UInt32} {checks : List CheckStart} {ws : List StartWait}
    {c : CheckStart} {w : StartWait} {line : Option SettleLine}
    (run : settleChecks base checks = some (base', ws))
    (ended : settleBeforeCheck base' c settleLooks = some (next, w, line)) :
    settleChecks base (checks ++ [c]) = some (next, ws ++ [w]) := by
  rw [settleChecks_concat, run]
  simp only [Option.bind_eq_bind, Option.bind_some, ended]
  rfl

/-- The level is the block of one of the starts, no later one was above it, and none behind
it was cut off below it. -/
def LevelOf (ws : List StartWait) (base : UInt32) : Prop :=
  ws = [] ∧ base = 0 ∨ ∃ front first back, ws = front ++ first :: back ∧ base = first.blk ∧
    ∀ x ∈ back, x.blk ≤ first.blk ∧ (CutOff x → x.blk = first.blk)

theorem LevelOf.next {ws : List StartWait} {base : UInt32} {w : StartWait} (level : LevelOf ws base) :
    LevelOf (ws ++ [w]) (nextCheckStartBaseline base w.blk (w.held ≥ kOtaSettleMaxMs)) := by
  have own : LevelOf (ws ++ [w]) w.blk := .inr ⟨ws, w, [], rfl, rfl, by simp⟩
  rw [nextCheckStartBaseline]
  split
  · exact own
  · next kept =>
    split
    · exact own
    · next low =>
      rcases level with ⟨rfl, rfl⟩ | ⟨front, first, back, rfl, rfl, later⟩
      · have zero : w.blk = 0 := UInt32.toNat_inj.mp (by
          have := UInt32.lt_iff_toNat_lt.not.mp low
          simpa using this)
        rw [← zero]
        exact own
      · refine .inr ⟨front, first, back ++ [w], by simp, rfl, fun x member => ?_⟩
        rcases List.mem_append.mp member with before | last
        · exact later x before
        · cases List.mem_singleton.mp last
          refine ⟨UInt32.not_lt.mp low, fun cut => ?_⟩
          by_contra different
          refine kept ?_
          have below := UInt32.lt_of_le_of_ne (UInt32.not_lt.mp low) different
          simp only [Bool.and_eq_true, decide_eq_true_eq]
          exact ⟨cut, below⟩

/-- The level is not below a start that no start behind it was cut off below. -/
def AboveStarts (ws : List StartWait) (base : UInt32) : Prop :=
  ∀ earlier first between, ws = earlier ++ first :: between →
    (∀ x ∈ between, CutOff x → first.blk ≤ x.blk) → first.blk ≤ base

theorem AboveStarts.next {ws : List StartWait} {base : UInt32} {w : StartWait}
    (above : AboveStarts ws base) :
    AboveStarts (ws ++ [w]) (nextCheckStartBaseline base w.blk (w.held ≥ kOtaSettleMaxMs)) := by
  intro earlier first between split kept
  rw [nextCheckStartBaseline]
  rcases List.eq_nil_or_concat between with rfl | ⟨between, last, rfl⟩
  · cases List.append_inj_right' split rfl
    split
    · exact UInt32.le_refl _
    · split
      · exact UInt32.le_refl _
      · next low => exact UInt32.not_lt.mp low
  · rw [List.concat_eq_append, ← List.cons_append, ← List.append_assoc] at split
    obtain ⟨rfl, ⟨⟩⟩ := List.append_inj' split rfl
    have before := above earlier first between rfl fun x member =>
      kept x (by simp [member])
    split
    · next dropped =>
      simp only [Bool.and_eq_true, decide_eq_true_eq] at dropped
      exact kept w (by simp) dropped.1
    · split
      · next high => exact UInt32.le_trans before (UInt32.le_of_lt high)
      · exact before

/-- The waits of a boot all end. The level behind them is a block that a check started on, and
not below the starts that it should still be at. -/
theorem settleChecks_ends {gap : Nat} (short : kOtaSettleMaxMs.toNat + gap ≤ 2 ^ 32)
    {checks : List CheckStart} (steady : ∀ c ∈ checks, c.Steady gap) :
    ∃ base ws, settleChecks 0 checks = some (base, ws) ∧ ws.length = checks.length ∧
      LevelOf ws base ∧ AboveStarts ws base := by
  induction checks using List.reverseRecOn with
  | nil => exact ⟨0, [], rfl, rfl, .inl ⟨rfl, rfl⟩, by simp [AboveStarts]⟩
  | append_singleton checks c ih =>
      obtain ⟨base, ws, run, same, level, above⟩ :=
        ih fun x member => steady x (List.mem_append_left _ member)
      obtain ⟨n, line, ended, -⟩ :=
        settleBeforeCheck_ends base (steady c (by simp)) short
      exact ⟨_, ws ++ [c.waitAfter n], settleChecks_snoc run ended, by simp [same], level.next,
        above.next⟩

section

variable {gap : Nat} {checks : List CheckStart} {c : CheckStart}

/-- Every check of a boot starts. Unless its wait took the whole bound, it starts within the slack
of every earlier start that the heap has not lastingly left, and the first of them on a block
that has been the same for long enough. -/
theorem checks_start (short : kOtaSettleMaxMs.toNat + gap ≤ 2 ^ 32)
    (steady : ∀ x ∈ checks ++ [c], x.Steady gap) :
    ∃ base ws n, settleChecks 0 (checks ++ [c]) = some (base, ws ++ [c.waitAfter n]) ∧
      ws.length = checks.length ∧
      (c.t0 + kOtaSettleMaxMs.toNat ≤ c.time n ∨
        (∀ earlier first between, ws = earlier ++ first :: between →
          (∀ x ∈ between, CutOff x → first.blk ≤ x.blk) →
          Back (c.waitAfter n).blk first.blk) ∧
        (checks = [] → ∃ m ≤ n, c.time m + kOtaCheckStartStableMs.toNat ≤ c.time n ∧
          ∀ j, m ≤ j → j ≤ n → (c.waitAfter j).blk = (c.waitAfter n).blk)) := by
  obtain ⟨base, ws, run, same, -, above⟩ :=
    settleChecks_ends short fun x member => steady x (List.mem_append_left _ member)
  have mine := steady c (by simp)
  obtain ⟨n, line, ended, cut_iff, level, -⟩ := settleBeforeCheck_ends base mine short
  refine ⟨_, ws, n, settleChecks_snoc run ended, same, ?_⟩
  rw [← cut_iff]
  refine or_iff_not_imp_left.mpr fun uncut => ⟨fun earlier first between split kept => ?_, ?_⟩
  · have low := UInt32.le_iff_toNat_le.mp (above earlier first between split kept)
    have reached := level uncut
    rw [Level] at reached
    split at reached
    · next none_yet =>
      rw [none_yet] at low
      exact Nat.le_trans low (Nat.zero_le _)
    · exact Nat.le_trans low reached
  · rintro rfl
    cases run
    have reached : kOtaCheckStartStableMs ≤ (c.waitAfter n).stable := level uncut
    exact mine.unchanged reached

/-- A check on a heap that stays as it is. -/
def quietStart (t0 : Nat) (blk : UInt32) : CheckStart :=
  { t0, blk, looks := fun n => { blk, time := t0 + 20 * (n + 1) } }

theorem quietStart_steady (t0 : Nat) (blk : UInt32) : (quietStart t0 blk).Steady 21 := by
  refine ⟨⟨Nat.le_refl _, Nat.lt_add_of_pos_right (by decide)⟩, fun n => ?_, fun n => ?_⟩ <;>
    cases n <;> simp only [CheckStart.time, quietStart, kOtaSettlePollMs, UInt32.reduceToNat] <;> omega

theorem checks_start_quiet :
    ∃ base ws n, settleChecks 0 ([quietStart 70000 39448] ++ [quietStart 21670000 32360]) =
        some (base, ws ++ [(quietStart 21670000 32360).waitAfter n]) ∧ ws.length = 1 := by
  have steady : ∀ x ∈ [quietStart 70000 39448] ++ [quietStart 21670000 32360], x.Steady 21 := by
    rintro x member
    rcases List.mem_pair.mp member with rfl | rfl <;> exact quietStart_steady _ _
  obtain ⟨base, ws, n, run, same, -⟩ := checks_start (by decide) steady
  exact ⟨base, ws, n, run, same⟩

/-- A check waits only below the level: without an earlier one, or when its first block is short
of a start of this boot that later ones neither topped nor were cut off below. -/
theorem checks_wait (short : kOtaSettleMaxMs.toNat + gap ≤ 2 ^ 32)
    (steady : ∀ x ∈ checks ++ [c], x.Steady gap) :
    ∃ base ws n, settleChecks 0 (checks ++ [c]) = some (base, ws ++ [c.waitAfter n]) ∧
      ws.length = checks.length ∧
      ((c.waitAfter n).held ≠ 0 → checks = [] ∨ ∃ front first back, ws = front ++ first :: back ∧
        (first.blk = 0 ∨ ¬ Back c.blk first.blk) ∧
        ∀ x ∈ back, x.blk ≤ first.blk ∧ (CutOff x → x.blk = first.blk)) := by
  obtain ⟨base, ws, run, same, level, -⟩ :=
    settleChecks_ends short fun x member => steady x (List.mem_append_left _ member)
  obtain ⟨n, line, ended, -, -, waits⟩ :=
    settleBeforeCheck_ends base (steady c (by simp)) short
  refine ⟨_, ws, n, settleChecks_snoc run ended, same, fun held => ?_⟩
  rcases level with ⟨rfl, -⟩ | ⟨front, first, back, rfl, rfl, later⟩
  · exact .inl (List.length_eq_zero_iff.mp same.symm)
  · exact .inr ⟨front, first, back, rfl, or_iff_not_imp_left.mpr (waits held), later⟩

theorem checks_wait_quiet :
    ∃ base ws n, settleChecks 0 ([quietStart 70000 39448] ++ [quietStart 21670000 39400]) =
        some (base, ws ++ [(quietStart 21670000 39400).waitAfter n]) ∧ ws.length = 1 := by
  have steady : ∀ x ∈ [quietStart 70000 39448] ++ [quietStart 21670000 39400], x.Steady 21 := by
    rintro x member
    rcases List.mem_pair.mp member with rfl | rfl <;> exact quietStart_steady _ _
  obtain ⟨base, ws, n, run, same, -⟩ := checks_wait (by decide) steady
  exact ⟨base, ws, n, run, same⟩

end

end FryFirmware.Ota
