import FryFirmware.Identity.TokenPair
import Mathlib.Data.List.Basic
import Mathlib.Data.List.Pairwise
import Mathlib.Tactic.Common

/-!
# At most one heal per window

The stamp in the store paces the heals: it is written and read back before the live
pair is cleared, and a later heal waits a window from it. The latch in the RAM and its
release play no part in this bound.
-/

set_option autoImplicit false

namespace FryFirmware.Identity

open Lib Config
open Lib.Program (get put tell)

/-! ## Heals of a run -/

/-- Removes a value of the live pair. -/
def ClearsLive : Action → Prop
  | .removeInstallId => True
  | .removeDeviceToken => True
  | _ => False

instance : (action : Action) → Decidable (ClearsLive action) := by
  intro action
  cases action <;> first
    | exact isTrue trivial
    | exact isFalse id

/-- The clock as the heal of a registration reads it. -/
def Request.clock : Request → Option Int
  | .register r => some r.heal.time
  | _ => none

/-- The clock reading of a heal that removed a value of the live pair. -/
def healedAt (board : Board) (w : World) (request : Request × List Fate) : Option Int :=
  if ∃ step ∈ ((request.1.program board).run Action.apply w request.2).steps,
      ClearsLive step.action ∧ step.ending = .took then request.1.clock
  else none

/-- The readings of all such heals, in order. -/
def healTimes (board : Board) : World → List (Request × List Fate) → List Int
  | _, [] => []
  | w, request :: rest =>
      (healedAt board w request).toList ++
        healTimes board (serve Action.apply (Request.program board) restart w request) rest

/-- The plausible readings of the clock, in order. -/
def readings (requests : List (Request × List Fate)) : List Int :=
  (requests.filterMap fun request => request.1.clock).filter healTimeUsable

/-! ## The stamp -/

def Unstamped : Action → Prop
  | .putHealAt _ => False
  | _ => True

/-- Leaves the stamp and the live pair alone, or fills the pair. -/
def Quiet (action : Action) : Prop := Unstamped action ∧ ¬ ClearsLive action

theorem unstamped_apply {action : Action} (unstamped : Unstamped action) (w : World) :
    (action.apply w).store.getHealAt = w.store.getHealAt := by
  cases action with
  | setMinerKey writer => cases writer <;> rfl
  | setInstallId source => cases source <;> rfl
  | setDeviceToken source => cases source <;> rfl
  | putHealAt => cases unstamped
  | _ => rfl

theorem quiet_keyAction {writer : Writer} {action : Action} (key : KeyAction writer action) :
    Quiet action := by
  cases action with
  | setMinerKey => exact ⟨trivial, id⟩
  | setSalt => exact ⟨trivial, id⟩
  | _ => cases key

theorem unstamped_clears {action : Action} (clears : Clears action) : Unstamped action := by
  cases action with
  | putHealAt => cases clears
  | _ => trivial

/-- The window was open for this heal when the stamp was `stamp`. -/
def Due (h : HealInput) (stamp : UInt32) : Prop := healWindowOpen false stamp h.epochNow = true

/-- What a registration does to the stamp: nothing, or it puts the clock there when due. -/
def Paced (h : HealInput) (stamp : UInt32) (w : World) : Prop :=
  w.store.getHealAt = stamp ∨ Due h stamp ∧ w.store.getHealAt = h.epochNow

/-- A live value is removed under the new stamp only, and the new stamp stays. -/
structure StampedStep (h : HealInput) (stamp : UInt32) (step : Step World Action) : Prop where
  clears : ClearsLive step.action → Due h stamp ∧ step.before.store.getHealAt = h.epochNow
  stays : step.before.store.getHealAt = h.epochNow →
    (step.after Action.apply).store.getHealAt = h.epochNow

def Stamped {α : Type} (h : HealInput) (stamp : UInt32) (program : Prog α)
    (post : α → World → Prop) (w : World) : Prop :=
  program.Holds Action.apply (fun _ => True) (StampedStep h stamp) (Paced h stamp) post w

section

variable {α : Type} {h : HealInput} {stamp : UInt32}

theorem stays_unstamped {action : Action} (unstamped : Unstamped action) (ending : Ending)
    {w : World} {epoch : UInt32} (same : w.store.getHealAt = epoch) :
    (Step.after Action.apply ⟨w, action, ending⟩).store.getHealAt = epoch := by
  cases ending with
  | took => exact (unstamped_apply unstamped w).trans same
  | lost => exact same
  | cut => exact same

/-- Programs that touch neither the stamp nor the live pair's removal keep the old stamp. -/
theorem stamped_quiet {program : Prog α} (only : program.Only Quiet) {w : World}
    (same : w.store.getHealAt = stamp) :
    Stamped h stamp program (fun _ w' => w'.store.getHealAt = stamp) w := by
  have maintains : program.Maintains Action.apply (fun _ => True) (StampedStep h stamp)
      (Paced h stamp) (fun w => w.store.getHealAt = stamp) :=
    only.maintains
      (fun action ending w quiet _ =>
        ⟨fun clears => absurd clears quiet.2, stays_unstamped quiet.1 ending⟩)
      (fun action w quiet same => (unstamped_apply quiet.1 w).trans same)
      fun w same => Or.inl same
  exact maintains w same

/-- Under the new stamp the live pair may be removed. -/
theorem stamped_due {program : Prog α} (only : program.Only Unstamped) (due : Due h stamp)
    {w : World} (same : w.store.getHealAt = h.epochNow) :
    Stamped h stamp program (fun _ w' => Paced h stamp w') w := by
  have maintains : program.Maintains Action.apply (fun _ => True) (StampedStep h stamp)
      (Paced h stamp) (fun w => w.store.getHealAt = h.epochNow) :=
    only.maintains
      (fun action ending w unstamped same => ⟨fun _ => ⟨due, same⟩, stays_unstamped unstamped ending⟩)
      (fun action w unstamped same => (unstamped_apply unstamped w).trans same)
      fun w same => Or.inr ⟨due, same⟩
  exact (maintains w same).mono fun _ w' same => Or.inr ⟨due, same⟩

end

/-! ## Actions of the registration programs -/

theorem dropTokenPairShadow_quiet : dropTokenPairShadow.Only Quiet :=
  only_get_bind fun _ => only_ite trivial (only_ite trivial
    (only_put_bind ⟨trivial, id⟩ fun _ => only_put ⟨trivial, id⟩))

theorem restoreTokenPair_quiet : restoreTokenPair.Only Quiet := by
  refine only_get_bind fun _ => only_ite trivial ?_
  refine only_put_bind ⟨trivial, id⟩ fun _ => only_put_bind ⟨trivial, id⟩ fun _ => ?_
  exact only_get_bind fun _ => only_ite trivial (dropTokenPairShadow_quiet.bind fun _ => trivial)

theorem recoverOrphanedTokenPair_quiet : recoverOrphanedTokenPair.Only Quiet :=
  only_get_bind fun _ => only_ite dropTokenPairShadow_quiet
    (restoreTokenPair_quiet.bind fun _ => trivial)

theorem stashTokenPair_quiet : stashTokenPair.Only Quiet := by
  refine only_get_bind fun _ => only_ite trivial ?_
  refine only_put_bind ⟨trivial, id⟩ fun wroteId => ?_
  cases wroteId with
  | false => exact only_get_bind fun _ => only_pure _
  | true => exact only_put_bind ⟨trivial, id⟩ fun _ => only_get_bind fun _ => only_pure _

theorem ensureInstallId_quiet (random : Random16) : (ensureInstallId random).Only Quiet :=
  only_get_bind fun _ => only_ite trivial (only_put_bind ⟨trivial, id⟩ fun _ => trivial)

theorem confirmKey_quiet : (do
    let w ← get
    when (!w.store.getKeyOk) (do let _ ← put (.setKeyOk true))
    pure true : Prog Bool).Only Quiet :=
  only_get_bind fun _ => (only_when (only_put ⟨trivial, id⟩) _).bind fun _ => trivial

theorem healRetry_unstamped (h : HealInput) : (healRetry h).Only Unstamped := by
  unfold healRetry
  refine Program.Only.bind (Program.Only.mono clearInstallation_only fun _ => unstamped_clears) fun _ => ?_
  refine Program.Only.bind (Program.Only.mono (ensureInstallId_quiet h.random) fun _ quiet => quiet.1)
    fun _ => ?_
  refine (only_when (only_tell trivial) _).bind fun _ => only_ite ?_ ?_
  · exact Program.Only.bind (Program.Only.mono restoreTokenPair_quiet fun _ quiet => quiet.1)
      fun _ => trivial
  · exact (only_when (only_put trivial) _).bind fun _ =>
      Program.Only.mono confirmKey_quiet fun _ quiet => quiet.1

/-! ## Registrations -/

theorem stamped_healInWindow (h : HealInput) {w : World} {stamp : UInt32} (due : Due h stamp)
    (same : w.store.getHealAt = stamp) :
    Stamped h stamp (healInWindow h) (fun _ w' => Paced h stamp w') w := by
  unfold healInWindow
  refine (stamped_quiet stashTokenPair_quiet same).bind fun stashed w same => ?_
  have proven (w : World) (paced : Paced h stamp w) : Stamped h stamp (do
      let w ← get
      if w.store.getHealAt ≠ h.epochNow then pure false else healRetry h)
      (fun _ w' => Paced h stamp w') w := by
    refine holds_get_bind ?_
    split
    · exact paced
    · rename_i stored
      exact stamped_due (healRetry_unstamped h) due (not_not.mp stored)
  split
  · exact Or.inl same
  refine holds_tell_bind ⟨fun clears => clears.elim, fun new => new⟩ ?_
  refine holds_put_bind (fun _ => ⟨⟨fun clears => clears.elim, fun _ => rfl⟩, ?_⟩)
    (fun _ => ⟨⟨fun clears => clears.elim, fun new => new⟩, fun _ => proven _ (Or.inl same)⟩)
    (fun _ => ⟨⟨fun clears => clears.elim, fun new => new⟩, Or.inl same⟩)
  exact proven _ (Or.inr ⟨due, rfl⟩)

theorem stamped_healStaleTokenIfDue (board : Board) (h : HealInput) (code : Int)
    (tokenSent : Bool) {w : World} {stamp : UInt32} (same : w.store.getHealAt = stamp) :
    Stamped h stamp (healStaleTokenIfDue board h code tokenSent) (fun _ w' => Paced h stamp w') w := by
  unfold healStaleTokenIfDue
  refine holds_get_bind ?_
  have released : (when (w.ram.staleTokenHealed &&
      healLatchExpired (h.millis - w.ram.staleTokenHealedAtMs)) (tell .releaseLatch)).Only Quiet :=
    only_when (only_tell ⟨trivial, id⟩) _
  refine (stamped_quiet released same).bind fun _ w same => holds_get_bind ?_
  split
  · exact Or.inl same
  rename_i latch
  split
  · exact Or.inl same
  split
  · exact Or.inl same
  rename_i isOpen
  have unlatched : w.ram.staleTokenHealed = false := by
    cases healed : w.ram.staleTokenHealed with
    | false => rfl
    | true => simp [healed] at latch
  have due : Due h stamp := by
    rw [unlatched, same, Bool.not_eq_true', Bool.not_eq_false] at isOpen
    exact isOpen
  exact stamped_healInWindow h due same

theorem stamped_registerAttempts (board : Board) (h : HealInput) (installId : Text)
    (tokenSent : Bool) (answers : List Answer) {w : World} {stamp : UInt32}
    (same : w.store.getHealAt = stamp) :
    Stamped h stamp (registerAttempts board h installId tokenSent answers)
      (fun _ w' => Paced h stamp w') w := by
  induction answers with
  | nil => exact Or.inl same
  | cons answer rest ih =>
      unfold registerAttempts
      split
      · have stored : (when (decide (answer.token.length > 0)) (do
            tell (.issue installId answer.token)
            let _ ← put (.setDeviceToken .fresh answer.token))).Only Quiet :=
          only_when (only_tell_bind ⟨trivial, id⟩ (only_put ⟨trivial, id⟩)) _
        refine (stamped_quiet stored same).bind fun _ w same => ?_
        exact (stamped_quiet confirmKey_quiet same).mono fun _ _ same => Or.inl same
      split
      · exact stamped_healStaleTokenIfDue board h answer.code tokenSent same
      · exact ih

theorem stamped_registerInstallation (board : Board) (r : Registration) {w : World}
    {stamp : UInt32} (same : w.store.getHealAt = stamp) :
    Stamped r.heal stamp (registerInstallation board r) (fun _ w' => Paced r.heal stamp w') w := by
  have key : (ensureMinerKey board r.freshSalt).Only Quiet :=
    (ensureMinerKey_only board r.freshSalt).mono fun _ => quiet_keyAction
  unfold registerInstallation
  refine (stamped_quiet key same).bind fun minerKey w same => ?_
  split
  · exact Or.inl same
  refine (stamped_quiet recoverOrphanedTokenPair_quiet same).bind fun _ w same => ?_
  refine (stamped_quiet (ensureInstallId_quiet r.random) same).bind fun installId w same => ?_
  refine holds_tell_bind ⟨fun clears => clears.elim, fun new => new⟩ ?_
  exact stamped_registerAttempts board r.heal installId _ _ same

/-! ## One request -/

theorem healTimeUsable_iff (t : Int) :
    healTimeUsable t = true ↔ 1600000000 ≤ t ∧ t ≤ 2147483647 := by
  have low : (kHealMinPlausibleEpoch.toNat : Int) = 1600000000 := by decide
  have high : (kHealMaxPlausibleEpoch.toNat : Int) = 2147483647 := by decide
  rw [healTimeUsable, low, high, Bool.and_eq_true, decide_eq_true_eq, decide_eq_true_eq]

/-- What a due heal knows of its clock. -/
theorem due_clock {h : HealInput} {stamp : UInt32} (due : Due h stamp) :
    healTimeUsable h.time = true ∧ (h.epochNow.toNat : Int) = h.time ∧ h.epochNow ≠ 0 := by
  have recent : ¬ h.epochNow < kHealMinPlausibleEpoch := by
    intro early
    simp [Due, healWindowOpen, early] at due
  by_cases usable : healTimeUsable h.time = true
  · have range := (healTimeUsable_iff h.time).mp usable
    have epoch : h.epochNow = UInt32.ofNat h.time.toNat := if_pos usable
    have value : h.epochNow.toNat = h.time.toNat := by
      rw [epoch]
      exact UInt32.toNat_ofNat_of_lt' (by simp [UInt32.size]; omega)
    refine ⟨usable, by omega, fun zero => ?_⟩
    rw [zero] at value
    simp at value
    omega
  · have zero : h.epochNow = 0 := if_neg usable
    rw [zero] at recent
    exact absurd (by decide) recent

/-- A stamp that is not ahead of the clock keeps the heal waiting for a window. -/
theorem due_spaced {h : HealInput} {stamp : UInt32} (due : Due h stamp) (stamped : stamp ≠ 0)
    (behind : (stamp.toNat : Int) ≤ h.time) :
    (stamp.toNat : Int) + kHealWindowSeconds.toNat ≤ h.time := by
  obtain ⟨usable, epoch, -⟩ := due_clock due
  have range := (healTimeUsable_iff h.time).mp usable
  have window : kHealWindowSeconds.toNat = 21600 := by decide
  have sum : (h.epochNow + kHealWindowSeconds).toNat = h.epochNow.toNat + 21600 := by
    rw [UInt32.toNat_add, window]
    exact Nat.mod_eq_of_lt (by omega)
  have notAhead : ¬ stamp > h.epochNow + kHealWindowSeconds := by
    intro ahead
    have := UInt32.lt_iff_toNat_lt.mp ahead
    omega
  have reached : stamp ≤ h.epochNow ∧ h.epochNow - stamp ≥ kHealWindowSeconds := by
    have isOpen := due
    rw [Due, healWindowOpen, if_neg stamped, if_neg notAhead] at isOpen
    split at isOpen
    · cases isOpen
    · simpa using isOpen
  have waited := UInt32.le_iff_toNat_le.mp reached.2
  rw [UInt32.toNat_sub_of_le _ _ reached.1, window] at waited
  omega

theorem serve_stamp {board : Board} {w : World} {request : Request × List Fate} {p : World → Prop}
    (ran : p ((request.1.program board).run Action.apply w request.2).state)
    (restarted : ∀ w, p w → p (restart w)) :
    p (serve Action.apply (Request.program board) restart w request) := by
  unfold serve
  dsimp only
  split
  · exact ran
  · exact restarted _ ran

/-- Only registrations touch the stamp. -/
theorem program_unstamped (board : Board) {request : Request} (other : request.clock = none) :
    (request.program board).Only Unstamped := by
  have key (writer : Writer) : ∀ action, KeyAction writer action → Unstamped action :=
    fun _ key => (quiet_keyAction key).1
  have own (freshSalt : Random16) : (ensureMinerKey board freshSalt).Only Unstamped :=
    (ensureMinerKey_only board freshSalt).mono (key .board)
  have dropped : dropTokenPairShadow.Only Unstamped :=
    Program.Only.mono dropTokenPairShadow_quiet fun _ quiet => quiet.1
  have settled : (do
      dropTokenPairShadow
      tell .shadowsSettled : Prog Unit).Only Unstamped :=
    Program.Only.bind dropped fun _ => only_tell (show Unstamped .shadowsSettled from trivial)
  cases request with
  | boot freshSalt => exact only_tell_bind trivial ((own freshSalt).bind fun _ => trivial)
  | register r => cases other
  | putPoc freshSalt synced code =>
      refine (own freshSalt).bind fun _ => only_ite trivial (only_ite trivial ?_)
      refine only_get_bind fun _ => (only_when dropped _).bind fun _ => only_get_bind fun _ => ?_
      exact only_when settled _
  | renewLease freshSalt random =>
      refine (own freshSalt).bind fun _ => only_ite trivial ?_
      exact Program.Only.bind (Program.Only.mono (ensureInstallId_quiet random) fun _ quiet => quiet.1)
        fun _ => trivial
  | setOwnerKey newKey transport =>
      have changed : (setOwnerKey board newKey transport).Only Unstamped := by
        refine only_get_bind fun _ => only_ite trivial (only_ite trivial ?_)
        refine ((storeKey_only .owner newKey 2).mono (key .owner)).bind fun _ => only_ite trivial ?_
        exact Program.Only.bind (Program.Only.mono forgetInstallation_only fun _ => unstamped_clears)
          fun _ => trivial
      exact changed.bind fun _ => trivial
  | factoryReset => exact Program.Only.mono factoryReset_only fun _ => unstamped_clears

theorem serve_unstamped (board : Board) (w : World) {request : Request × List Fate}
    (other : request.1.clock = none) :
    (serve Action.apply (Request.program board) restart w request).store.getHealAt =
      w.store.getHealAt := by
  refine serve_stamp (p := fun w' => w'.store.getHealAt = w.store.getHealAt) ?_ fun _ same => same
  exact (program_unstamped board other).run_frame (fun w => w.store.getHealAt)
    (fun _ w unstamped => unstamped_apply unstamped w) w request.2

theorem register_stamped (board : Board) (r : Registration) (w : World) :
    Stamped r.heal w.store.getHealAt ((Request.register r).program board)
      (fun _ w' => Paced r.heal w.store.getHealAt w') w :=
  (stamped_registerInstallation board r rfl).bind fun _ _ paced => paced

theorem serve_paced (board : Board) (w : World) (r : Registration) (fates : List Fate) :
    Paced r.heal w.store.getHealAt
      (serve Action.apply (Request.program board) restart w (.register r, fates)) := by
  obtain ⟨-, finished, crashed⟩ := (register_stamped board r w).run
    fun step (_ : step ∈ (((Request.register r).program board).run Action.apply w fates).steps) => trivial
  refine serve_stamp (p := Paced r.heal w.store.getHealAt) ?_ fun _ paced => paced
  cases ended : (((Request.register r).program board).run Action.apply w fates).value with
  | none => exact crashed ended
  | some value => exact finished value ended

/-- A heal that cleared the live pair was due, and leaves its own stamp. -/
theorem healedAt_some {board : Board} {w : World} {request : Request × List Fate} {t : Int}
    (healed : healedAt board w request = some t) :
    ∃ r : Registration, request.1 = .register r ∧ r.heal.time = t ∧
      Due r.heal w.store.getHealAt ∧
      (serve Action.apply (Request.program board) restart w request).store.getHealAt =
        r.heal.epochNow := by
  obtain ⟨request, fates⟩ := request
  unfold healedAt at healed
  split at healed
  case isFalse => cases healed
  case isTrue cleared =>
    cases request with
    | register r =>
        obtain ⟨step, member, clears, -⟩ := cleared
        have stamped := ((register_stamped board r w).run
          fun step (_ : step ∈ (((Request.register r).program board).run Action.apply w fates).steps) =>
            trivial).1
        obtain ⟨due, under⟩ := (stamped step member).clears clears
        refine ⟨r, rfl, Option.some.inj healed, due, ?_⟩
        refine serve_stamp (p := fun w' => w'.store.getHealAt = r.heal.epochNow) ?_
          fun _ same => same
        exact run_keeps (p := fun w' => w'.store.getHealAt = r.heal.epochNow)
          (fun step member => (stamped step member).stays) (Or.inr ⟨step, member, under⟩)
    | _ => cases healed

/-! ## Runs -/

theorem readings_cons (request : Request × List Fate) (rest : List (Request × List Fate)) :
    readings (request :: rest) = (request.1.clock.toList.filter healTimeUsable) ++ readings rest := by
  cases clock : request.1.clock <;> simp [readings, clock, List.filter_cons]
  split <;> simp

/-- The stamp stays, or a heal was due and puts its clock there. -/
theorem serve_stamp_cases (board : Board) (w : World) (request : Request × List Fate) :
    (serve Action.apply (Request.program board) restart w request).store.getHealAt =
        w.store.getHealAt ∨
      ∃ r : Registration, request.1 = .register r ∧ Due r.heal w.store.getHealAt ∧
        (serve Action.apply (Request.program board) restart w request).store.getHealAt =
          r.heal.epochNow := by
  obtain ⟨request, fates⟩ := request
  cases request with
  | register r =>
      obtain same | ⟨due, new⟩ := serve_paced board w r fates
      · exact Or.inl same
      · exact Or.inr ⟨r, rfl, due, new⟩
  | _ => exact Or.inl (serve_unstamped board w rfl)

/-- A due heal's own reading is the first of those to come. -/
theorem due_ahead {r : Registration} {request : Request × List Fate} {stamp : UInt32}
    {rest : List (Request × List Fate)} (registers : request.1 = .register r)
    (due : Due r.heal stamp) (clock : (readings (request :: rest)).Pairwise (· ≤ ·)) :
    r.heal.time ∈ readings (request :: rest) ∧ ∀ t ∈ readings rest, r.heal.time ≤ t := by
  have own : readings (request :: rest) = r.heal.time :: readings rest := by
    rw [readings_cons, registers]
    simp [Request.clock, (due_clock due).1]
  rw [own, List.pairwise_cons] at clock
  rw [own]
  exact ⟨List.mem_cons_self, clock.1⟩

theorem readings_tail {request : Request × List Fate} {rest : List (Request × List Fate)}
    (clock : (readings (request :: rest)).Pairwise (· ≤ ·)) :
    (readings rest).Pairwise (· ≤ ·) := by
  rw [readings_cons, List.pairwise_append] at clock
  exact clock.2.1

/-- Behind a stamp of the past every later heal waits for a window. -/
theorem healTimes_after (board : Board) {w : World} {requests : List (Request × List Fate)}
    (clock : (readings requests).Pairwise (· ≤ ·)) (stamped : w.store.getHealAt ≠ 0)
    (behind : ∀ t ∈ readings requests, (w.store.getHealAt.toNat : Int) ≤ t) :
    ∀ t ∈ healTimes board w requests,
      (w.store.getHealAt.toNat : Int) + kHealWindowSeconds.toNat ≤ t := by
  induction requests generalizing w with
  | nil => exact nofun
  | cons request rest ih =>
      intro t member
      obtain now | later := List.mem_append.mp member
      · obtain ⟨r, registers, rfl, due, -⟩ := healedAt_some (Option.mem_toList.mp now)
        exact due_spaced due stamped (behind _ (due_ahead registers due clock).1)
      · have next := ih (w := serve Action.apply (Request.program board) restart w request)
          (readings_tail clock)
        obtain same | ⟨r, registers, due, new⟩ := serve_stamp_cases board w request
        · rw [same] at next
          refine next stamped (fun u read => behind u ?_) t later
          rw [readings_cons]
          exact List.mem_append_right _ read
        · obtain ⟨read, ahead⟩ := due_ahead registers due clock
          obtain ⟨-, epoch, nonzero⟩ := due_clock due
          rw [new, epoch] at next
          have waited := due_spaced due stamped (behind _ read)
          have after := next nonzero ahead t later
          omega

/-- Whatever the answers, failed writes, power losses and latch releases: with plausible
clock readings that never decrease, two heals that cleared the live pair lie a window
apart. -/
theorem requests_healsApart (board : Board) (w : World) (requests : List (Request × List Fate))
    (clock : (readings requests).Pairwise (· ≤ ·)) :
    (healTimes board w requests).Pairwise fun earlier later : Int =>
      earlier + (kHealWindowSeconds.toNat : Int) ≤ later := by
  induction requests generalizing w with
  | nil => exact List.Pairwise.nil
  | cons request rest ih =>
      refine List.pairwise_append.mpr ⟨?_, ih _ (readings_tail clock), ?_⟩
      · cases healedAt board w request with
        | none => exact List.Pairwise.nil
        | some t => exact List.pairwise_singleton _ t
      · intro t now u later
        obtain ⟨r, registers, rfl, due, new⟩ := healedAt_some (Option.mem_toList.mp now)
        obtain ⟨-, epoch, nonzero⟩ := due_clock due
        have after := healTimes_after board
          (w := serve Action.apply (Request.program board) restart w request) (readings_tail clock)
        rw [new, epoch] at after
        exact after nonzero (due_ahead registers due clock).2 u later

def sixHoursLater : Registration :=
  { staleRegistration with heal := { staleRegistration.heal with time := 1790021600 } }

/-- Two heals, with a restart and exactly one window between them. -/
theorem requests_healsApart_twice :
    let requests : List (Request × List Fate) :=
      [(.register staleRegistration, List.replicate 20 .done), (.boot (sixteen 0), []),
        (.register sixHoursLater, List.replicate 20 .done)]
    healTimes staleBoard staleWorld requests = [1790000000, 1790021600] ∧
      (healTimes staleBoard staleWorld requests).Pairwise fun earlier later : Int =>
        earlier + (kHealWindowSeconds.toNat : Int) ≤ later := by
  intro requests
  exact ⟨by decide +kernel, requests_healsApart staleBoard staleWorld requests (by decide +kernel)⟩

end FryFirmware.Identity
