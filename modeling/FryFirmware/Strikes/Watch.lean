import FryFirmware.Lib.Clock
import FryFirmware.Lib.Stretch
import FryFirmware.Strikes.Client
import Mathlib.Data.List.DropRight

/-!
# The watch over a new image

`HeartbeatTracker` and `accrueVerifyMs` of `lib/fry_core/ota_health.cpp`, with
`noteHeartbeat`, `tryMarkValid` and `loopGuard` of `src/core/ota_client.cpp` from one
start to the next. The times are those since the start. An ESP8266 has no image that is
`PENDING_VERIFY`.
-/

set_option autoImplicit false

namespace FryFirmware.Strikes

open Lib
open Lib.Stretch (Steady)
open Ota (kMarkValidSettleMs)

/-! ## `ota_health.cpp` -/

structure HeartbeatTracker where
  any : Bool := false
  okSeen : Bool := false
  lastOkMs : UInt32 := 0
  lastHttp : Int := 0
  deriving DecidableEq, Repr

namespace HeartbeatTracker

/-- Whether it is the first answer. -/
def note (t : HeartbeatTracker) (http : Int) (nowMs : UInt32) : HeartbeatTracker × Bool :=
  if http ≤ 0 then (t, false)
  else
    let t := { t with lastHttp := http }
    let t := if 200 ≤ http ∧ http < 300 then { t with okSeen := true, lastOkMs := nowMs } else t
    if t.any then (t, false) else ({ t with any := true }, true)

def ageS (t : HeartbeatTracker) (nowMs : UInt32) : Int :=
  if !t.okSeen then -1 else ((nowMs - t.lastOkMs) / 1000).toNat

end HeartbeatTracker

def accrueVerifyMs (accruedMs elapsedMs : UInt32) (staConnected : Bool) : UInt32 :=
  if !staConnected then accruedMs
  else if elapsedMs > 0xFFFFFFFF - accruedMs then 0xFFFFFFFF
  else accruedMs + elapsedMs

/-! ## `ota_client.cpp` -/

/-- The statics; the bootloader takes over once the board has `restarted`. -/
structure Watch where
  heartbeat : HeartbeatTracker := {}
  confirmPending : Bool
  markAttempted : Bool := false
  pendingVerify : Bool
  rollbackFailed : Bool := false
  verifyMs : UInt32 := 0
  lastGuardMs : UInt32 := 0
  restarted : Bool := false
  deriving DecidableEq, Repr

/-- A pass of the loop; the boot data takes a mark, and there is an image to roll back
to, or not. -/
structure Pass where
  time : Nat
  connected : Bool
  marked : Bool
  canRollBack : Bool
  deriving DecidableEq, Repr

inductive Moment where
  | answer (time : Nat) (http : Int) (marked : Bool)
  | pass (pass : Pass)
  deriving DecidableEq, Repr

namespace Watch

def tryMarkValid (w : Watch) (uptimeMs : UInt32) (marked : Bool) : Watch :=
  if !w.confirmPending then w
  else if !decideMarkValid true w.heartbeat.any uptimeMs kMarkValidSettleMs then w
  else if w.pendingVerify && !marked then w
  else { w with pendingVerify := false, confirmPending := false }

def noteHeartbeat (w : Watch) (http : Int) (time : Nat) (marked : Bool) : Watch :=
  let w := { w with heartbeat := (w.heartbeat.note http (counter time)).1 }
  if http > 0 then w.tryMarkValid (counter time) marked else w

/-- The settle window can end between two answers. -/
def attemptsMark (w : Watch) (nowMs : UInt32) : Bool :=
  w.confirmPending && !w.markAttempted &&
    decideMarkValid true w.heartbeat.any nowMs kMarkValidSettleMs

def settles (w : Watch) (nowMs : UInt32) (marked : Bool) : Watch :=
  if w.attemptsMark nowMs then { w with markAttempted := true }.tryMarkValid nowMs marked else w

def accrue (w : Watch) (nowMs : UInt32) (connected : Bool) : Watch :=
  { w with
    verifyMs := accrueVerifyMs w.verifyMs (nowMs - w.lastGuardMs) connected
    lastGuardMs := nowMs }

def rollsBack (w : Watch) (deadlineMs : UInt32) : Bool :=
  !w.rollbackFailed &&
    decideRollbackGuard w.pendingVerify w.heartbeat.any w.verifyMs deadlineMs = .rollback

/-- `esp_ota_mark_app_invalid_rollback_and_reboot` returns where nothing is to roll back to. -/
def giveUp (w : Watch) (deadlineMs : UInt32) (canRollBack : Bool) : Watch :=
  if !w.rollsBack deadlineMs then w
  else if canRollBack then { w with restarted := true }
  else { w with rollbackFailed := true }

def loopGuard (w : Watch) (deadlineMs : UInt32) (pass : Pass) : Watch :=
  ((w.settles (counter pass.time) pass.marked).accrue (counter pass.time) pass.connected).giveUp
    deadlineMs pass.canRollBack

def step (deadlineMs : UInt32) (w : Watch) (moment : Moment) : Watch :=
  if w.restarted then w
  else
    match moment with
    | .answer time http marked => w.noteHeartbeat http time marked
    | .pass pass => w.loopGuard deadlineMs pass

/-- The rollback was tried, with success or not. -/
def gaveUp (w : Watch) : Bool := w.restarted || w.rollbackFailed

/-- From a start that found `confirmPending` and `pendingVerify` so. -/
def after (deadlineMs : UInt32) (confirm pending : Bool) (moments : List Moment) : Watch :=
  moments.foldl (step deadlineMs) { confirmPending := confirm, pendingVerify := pending }

end Watch

/-! ## What the moments amount to -/

namespace Moment

def time : Moment → Nat
  | .answer time _ _ => time
  | .pass round => round.time

/-- A status of any class. -/
def answers : Moment → Bool
  | .answer _ http _ => http > 0
  | .pass _ => false

def pass? : Moment → Option Pass
  | .answer _ _ _ => none
  | .pass round => some round

def marked : Moment → Bool
  | .answer _ _ marked => marked
  | .pass round => round.marked

end Moment

def answered (moments : List Moment) : Bool := moments.any Moment.answers

/-- The passes, behind the start. -/
def passTimes (moments : List Moment) : List Nat := 0 :: (moments.filterMap Moment.pass?).map Pass.time

/-- The last pass, and the time between passes that ended with a connection. -/
def wifi (moments : List Moment) : Nat × Nat :=
  (moments.filterMap Moment.pass?).foldl
    (fun (last, total) pass =>
      (pass.time, if pass.connected then total + (pass.time - last) else total)) (0, 0)

abbrev wifiTime (moments : List Moment) : Nat := (wifi moments).2

/-- The loop comes round at least once in each round of the counter. -/
def Paced (moments : List Moment) : Prop := Steady id (2 ^ 32) (passTimes moments)

/-! ## The functions on their own -/

section Functions

variable {w : Watch} {deadlineMs nowMs : UInt32} {marked : Bool}

theorem note_any (t : HeartbeatTracker) (http : Int) (nowMs : UInt32) :
    (t.note http nowMs).1.any = (t.any || decide (http > 0)) := by
  rw [HeartbeatTracker.note]
  by_cases silent : http ≤ 0
  · rw [if_pos silent, decide_eq_false (by omega), Bool.or_false]
  · rw [if_neg silent, decide_eq_true (by omega), Bool.or_true]
    simp only
    split <;> split <;> simp_all

/-- The tracker after the answers, each with its time. -/
def HeartbeatTracker.after (answers : List (Nat × Int)) : HeartbeatTracker :=
  answers.foldl (fun t answer => (t.note answer.2 (counter answer.1)).1) {}

def isOk (answer : Nat × Int) : Bool := 200 ≤ answer.2 && answer.2 < 300

theorem note_ok (t : HeartbeatTracker) (http : Int) (nowMs : UInt32) :
    (t.note http nowMs).1.okSeen = (t.okSeen || (200 ≤ http && http < 300)) ∧
      (t.note http nowMs).1.lastOkMs = if 200 ≤ http ∧ http < 300 then nowMs else t.lastOkMs := by
  rw [HeartbeatTracker.note]
  by_cases silent : http ≤ 0
  · have low : ¬ 200 ≤ http := by omega
    simp [silent, low]
  · rw [if_neg silent]
    by_cases ok : 200 ≤ http ∧ http < 300
    · simp only [ok, and_self, if_true]
      split <;> simp
    · have other : (decide (200 ≤ http) && decide (http < 300)) = false := by simpa using ok
      simp only [if_neg ok, other, Bool.or_false]
      split <;> exact ⟨rfl, rfl⟩

/-- The age is that of the last 2xx, in whole seconds of the counter. -/
theorem heartbeat_age (answers : List (Nat × Int)) (now : Nat)
    (past : ∀ answer ∈ answers, answer.1 ≤ now) :
    (HeartbeatTracker.after answers).ageS (counter now) =
      match (answers.filter isOk).getLast? with
      | none => -1
      | some answer => (((now - answer.1) % 2 ^ 32 / 1000 : Nat) : Int) := by
  have last : (HeartbeatTracker.after answers).okSeen = ((answers.filter isOk).getLast?).isSome ∧
      ∀ answer ∈ (answers.filter isOk).getLast?,
        (HeartbeatTracker.after answers).lastOkMs = counter answer.1 := by
    clear past
    induction answers using List.reverseRecOn with
    | nil => exact ⟨rfl, nofun⟩
    | append_singleton answers answer ih =>
        have concat : HeartbeatTracker.after (answers ++ [answer]) =
            ((HeartbeatTracker.after answers).note answer.2 (counter answer.1)).1 := by
          simp [HeartbeatTracker.after]
        rw [concat, List.filter_append]
        generalize HeartbeatTracker.after answers = t at ih ⊢
        obtain ⟨seen, stamp⟩ := note_ok t answer.2 (counter answer.1)
        rw [seen]
        cases ok : isOk answer with
        | true =>
            have both : 200 ≤ answer.2 ∧ answer.2 < 300 := by simpa [isOk] using ok
            rw [List.filter_cons_of_pos ok, List.filter_nil, List.getLast?_concat]
            refine ⟨by simp [both], ?_⟩
            rintro _ ⟨⟩
            exact stamp.trans (if_pos both)
        | false =>
            have neither : ¬ (200 ≤ answer.2 ∧ answer.2 < 300) := by simpa [isOk] using ok
            rw [List.filter_cons_of_neg (by simp [ok]), List.filter_nil, List.append_nil]
            have none : (decide (200 ≤ answer.2) && decide (answer.2 < 300)) = false := ok
            refine ⟨by rw [none, Bool.or_false, ih.1], fun last final => ?_⟩
            exact (stamp.trans (if_neg neither)).trans (ih.2 last final)
  obtain ⟨seen, stamp⟩ := last
  rw [HeartbeatTracker.ageS, seen]
  cases final : (answers.filter isOk).getLast? with
  | none => simp
  | some answer =>
      have member := List.mem_of_mem_filter (List.mem_of_getLast? final)
      have stamped := stamp answer final
      simp only [Option.isSome_some, Bool.not_true, Bool.false_eq_true, if_false, stamped]
      rw [UInt32.toNat_div, toNat_elapsed (past answer member)]
      rfl

/-- The sum does not wrap. -/
theorem toNat_accrueVerifyMs (accruedMs elapsedMs : UInt32) :
    (accrueVerifyMs accruedMs elapsedMs true).toNat =
      min (2 ^ 32 - 1) (accruedMs.toNat + elapsedMs.toNat) := by
  have accrued := accruedMs.toNat_lt
  have room : (0xFFFFFFFF - accruedMs : UInt32).toNat = 2 ^ 32 - 1 - accruedMs.toNat := by
    rw [UInt32.toNat_sub_of_le _ _ (by rw [UInt32.le_iff_toNat_le]; simp; omega)]
    rfl
  simp only [accrueVerifyMs, Bool.not_true, Bool.false_eq_true, if_false, gt_iff_lt,
    UInt32.lt_iff_toNat_lt, room]
  split
  · rw [Nat.min_eq_left (by omega)]
    rfl
  · rw [UInt32.toNat_add, Nat.mod_eq_of_lt (by omega), Nat.min_eq_right (by omega)]

/-- What a confirmed image leaves. -/
def Watch.confirmed (w : Watch) : Watch := { w with pendingVerify := false, confirmPending := false }

theorem tryMarkValid_cases (w : Watch) (uptimeMs : UInt32) (marked : Bool) :
    w.tryMarkValid uptimeMs marked = w ∨
      (w.confirmPending = true ∧ w.heartbeat.any = true ∧ kMarkValidSettleMs ≤ uptimeMs ∧
        w.tryMarkValid uptimeMs marked = w.confirmed) := by
  rw [Watch.tryMarkValid]
  split
  · exact .inl rfl
  next confirm =>
    split
    · exact .inl rfl
    next due =>
      split
      · exact .inl rfl
      · simp only [decideMarkValid, Bool.true_and, Bool.not_eq_true', Bool.and_eq_false_iff,
          decide_eq_false_iff_not, not_or, Bool.not_eq_false, not_not] at confirm due
        exact .inr ⟨confirm, due.1, due.2, rfl⟩

theorem settles_silent (silent : w.heartbeat.any = false) : w.settles nowMs marked = w := by
  simp [Watch.settles, Watch.attemptsMark, decideMarkValid, silent]

/-- Only the flags of the confirmation change. -/
theorem settles_frame (w : Watch) (nowMs : UInt32) (marked : Bool) :
    (w.settles nowMs marked).heartbeat = w.heartbeat ∧
      (w.settles nowMs marked).verifyMs = w.verifyMs ∧
      (w.settles nowMs marked).lastGuardMs = w.lastGuardMs ∧
      (w.settles nowMs marked).rollbackFailed = w.rollbackFailed ∧
      (w.settles nowMs marked).restarted = w.restarted := by
  rw [Watch.settles]
  split
  · rcases tryMarkValid_cases { w with markAttempted := true } nowMs marked with
      same | ⟨-, -, -, same⟩
    · rw [same]
      exact ⟨rfl, rfl, rfl, rfl, rfl⟩
    · rw [same]
      exact ⟨rfl, rfl, rfl, rfl, rfl⟩
  · exact ⟨rfl, rfl, rfl, rfl, rfl⟩

theorem rollsBack_iff (w : Watch) (deadlineMs : UInt32) :
    w.rollsBack deadlineMs = true ↔ w.rollbackFailed = false ∧ w.pendingVerify = true ∧
      w.heartbeat.any = false ∧ deadlineMs ≤ w.verifyMs := by
  rw [Watch.rollsBack, decideRollbackGuard]
  cases w.pendingVerify <;> cases w.heartbeat.any <;> simp

/-- `giveUp` changes only what it is about. -/
theorem giveUp_frame (w : Watch) (deadlineMs : UInt32) (canRollBack : Bool) :
    (w.giveUp deadlineMs canRollBack).heartbeat = w.heartbeat ∧
      (w.giveUp deadlineMs canRollBack).confirmPending = w.confirmPending ∧
      (w.giveUp deadlineMs canRollBack).pendingVerify = w.pendingVerify ∧
      (w.giveUp deadlineMs canRollBack).markAttempted = w.markAttempted ∧
      (w.giveUp deadlineMs canRollBack).verifyMs = w.verifyMs ∧
      (w.giveUp deadlineMs canRollBack).lastGuardMs = w.lastGuardMs ∧
      ((w.giveUp deadlineMs canRollBack).restarted = false → w.restarted = false) ∧
      (w.giveUp deadlineMs canRollBack).gaveUp = (w.gaveUp || w.rollsBack deadlineMs) := by
  rw [Watch.giveUp]
  cases rolls : w.rollsBack deadlineMs with
  | false => simp
  | true => cases canRollBack <;> simp [Watch.gaveUp]

end Functions

/-! ## A run of the watch -/

section Runs

variable {moments : List Moment} {pass : Pass}

theorem passes_answer (moments : List Moment) (time : Nat) (http : Int) (marked : Bool) :
    (moments ++ [Moment.answer time http marked]).filterMap Moment.pass? =
      moments.filterMap Moment.pass? := by
  rw [List.filterMap_append]
  exact List.append_nil _

theorem passes_pass (moments : List Moment) (pass : Pass) :
    (moments ++ [Moment.pass pass]).filterMap Moment.pass? =
      moments.filterMap Moment.pass? ++ [pass] := List.filterMap_append

theorem wifi_answer (moments : List Moment) (time : Nat) (http : Int) (marked : Bool) :
    wifi (moments ++ [.answer time http marked]) = wifi moments := by
  rw [wifi, passes_answer, wifi]

theorem wifi_pass (moments : List Moment) (pass : Pass) :
    wifi (moments ++ [.pass pass]) =
      (pass.time, if pass.connected then wifiTime moments + (pass.time - (wifi moments).1)
        else wifiTime moments) := by
  rw [wifi, passes_pass, List.foldl_append]
  rfl

theorem passTimes_last (moments : List Moment) :
    (passTimes moments).getLast? = some (wifi moments).1 := by
  induction moments using List.reverseRecOn with
  | nil => rfl
  | append_singleton moments moment ih =>
      cases moment with
      | answer time http marked =>
          rw [wifi_answer, ← ih, passTimes, passes_answer]
          rfl
      | pass pass =>
          rw [wifi_pass, passTimes, passes_pass, List.map_append, ← List.cons_append]
          exact List.getLast?_append_of_ne_nil _ (by simp)

theorem Paced.front {back : List Moment} (paced : Paced (moments ++ back)) : Paced moments := by
  have split : passTimes (moments ++ back) =
      passTimes moments ++ (back.filterMap Moment.pass?).map Pass.time := by
    simp [passTimes]
  rw [Paced, split] at paced
  exact Steady.front paced

/-- A pass comes less than one round behind the one before it. -/
theorem Paced.soon (paced : Paced (moments ++ [.pass pass])) :
    (wifi moments).1 ≤ pass.time ∧ pass.time < (wifi moments).1 + 2 ^ 32 := by
  have split : passTimes (moments ++ [.pass pass]) = passTimes moments ++ [pass.time] := by
    rw [passTimes, passes_pass, List.map_append]
    rfl
  rw [Paced, split, Steady, List.isChain_append] at paced
  exact paced.2.2 _ (passTimes_last moments) _ rfl

theorem answered_concat (moments : List Moment) (moment : Moment) :
    answered (moments ++ [moment]) = (answered moments || moment.answers) := by
  simp [answered]

theorem wifiTime_mono (moments : List Moment) (moment : Moment) :
    wifiTime moments ≤ wifiTime (moments ++ [moment]) := by
  cases moment with
  | answer time http marked => rw [wifiTime, wifiTime, wifi_answer]
  | pass pass =>
      show (wifi moments).2 ≤ (wifi (moments ++ [.pass pass])).2
      rw [wifi_pass]
      simp only [wifiTime]
      split <;> omega

/-- The statics after the moments. While no answer came, the flags are those of the start
and the rollback was tried exactly if the image used up its time. -/
structure Watched (deadlineMs : UInt32) (confirm pending : Bool) (moments : List Moment) (w : Watch) :
    Prop where
  guard : w.restarted = false → w.lastGuardMs = counter (wifi moments).1
  accrued : w.restarted = false → w.verifyMs.toNat = min (2 ^ 32 - 1) (wifiTime moments)
  heard : w.restarted = false → w.heartbeat.any = answered moments
  untouched : answered moments = false → w.confirmPending = confirm ∧ w.pendingVerify = pending
  gaveUp : answered moments = false →
    w.gaveUp = (pending && decide (deadlineMs.toNat ≤ wifiTime moments))

variable {deadlineMs : UInt32} {confirm pending : Bool} {w : Watch}

theorem noteHeartbeat_cases (w : Watch) (http : Int) (time : Nat) (marked : Bool) :
    ∃ w', (w' = { w with heartbeat := (w.heartbeat.note http (counter time)).1 } ∨
        0 < http ∧ w' = { w with heartbeat := (w.heartbeat.note http (counter time)).1 }.confirmed) ∧
      w.noteHeartbeat http time marked = w' := by
  refine ⟨_, ?_, rfl⟩
  rw [Watch.noteHeartbeat]
  split
  next positive =>
    rcases tryMarkValid_cases { w with heartbeat := (w.heartbeat.note http (counter time)).1 }
      (counter time) marked with same | ⟨-, -, -, same⟩
    · exact .inl same
    · exact .inr ⟨positive, same⟩
  · exact .inl rfl

theorem watched_answer (watched : Watched deadlineMs confirm pending moments w) {time : Nat}
    {http : Int} {marked : Bool} (here : w.restarted = false) :
    Watched deadlineMs confirm pending (moments ++ [.answer time http marked])
      (w.noteHeartbeat http time marked) := by
  obtain ⟨w', which, same⟩ := noteHeartbeat_cases w http time marked
  have heard : (w.heartbeat.note http (counter time)).1.any =
      answered (moments ++ [.answer time http marked]) := by
    rw [note_any, watched.heard here, answered_concat]
    rfl
  rw [same]
  have guard := watched.guard here
  have accrued := watched.accrued here
  rw [← wifi_answer moments time http marked] at guard
  rw [wifiTime, ← wifi_answer moments time http marked] at accrued
  rcases which with rfl | ⟨positive, rfl⟩
  · refine ⟨fun _ => guard, fun _ => accrued, fun _ => heard, fun silent => ?_, fun silent => ?_⟩
    · exact watched.untouched (by simp_all [answered_concat])
    · rw [wifiTime, wifi_answer]
      exact watched.gaveUp (by simp_all [answered_concat])
  · have loud : answered (moments ++ [.answer time http marked]) = true := by
      simp [answered_concat, Moment.answers, positive]
    refine ⟨fun _ => guard, fun _ => accrued, fun _ => heard, fun silent => ?_, fun silent => ?_⟩
    · rw [loud] at silent
      cases silent
    · rw [loud] at silent
      cases silent

/-- The time of a pass is added as it was, up to the end of the type. -/
theorem toNat_accrue_pass (watched : Watched deadlineMs confirm pending moments w)
    (here : w.restarted = false) (soon : (wifi moments).1 ≤ pass.time ∧
      pass.time < (wifi moments).1 + 2 ^ 32) :
    (accrueVerifyMs w.verifyMs (counter pass.time - w.lastGuardMs) pass.connected).toNat =
      min (2 ^ 32 - 1) (wifiTime (moments ++ [.pass pass])) := by
  have accrued := watched.accrued here
  have elapsed : (counter pass.time - w.lastGuardMs).toNat = pass.time - (wifi moments).1 := by
    rw [watched.guard here, toNat_elapsed soon.1, Nat.mod_eq_of_lt (by omega)]
  cases connected : pass.connected with
  | false =>
      have total : wifiTime (moments ++ [.pass pass]) = wifiTime moments := by
        simp [wifiTime, wifi_pass, connected]
      rw [total]
      exact accrued
  | true =>
      have total : wifiTime (moments ++ [.pass pass]) =
          wifiTime moments + (pass.time - (wifi moments).1) := by
        simp [wifiTime, wifi_pass, connected]
      rw [toNat_accrueVerifyMs, accrued, elapsed, total]
      omega

theorem watched_pass (watched : Watched deadlineMs confirm pending moments w)
    (here : w.restarted = false) (soon : (wifi moments).1 ≤ pass.time ∧
      pass.time < (wifi moments).1 + 2 ^ 32) :
    Watched deadlineMs confirm pending (moments ++ [.pass pass]) (w.loopGuard deadlineMs pass) := by
  have total := toNat_accrue_pass watched here soon
  have last : (wifi (moments ++ [.pass pass])).1 = pass.time := by rw [wifi_pass]
  have same : answered (moments ++ [.pass pass]) = answered moments := by
    rw [answered_concat]
    exact Bool.or_false _
  obtain ⟨beats, verify, guard, failed, restarted⟩ :=
    settles_frame w (counter pass.time) pass.marked
  have settled_silent : answered moments = false → w.settles (counter pass.time) pass.marked = w :=
    fun silent => settles_silent ((watched.heard here).trans silent)
  rw [Watch.loopGuard]
  generalize w.settles (counter pass.time) pass.marked = settled at *
  obtain ⟨beats', confirm', pending', -, verify', guard', alive, gave⟩ :=
    giveUp_frame (settled.accrue (counter pass.time) pass.connected) deadlineMs pass.canRollBack
  refine ⟨fun _ => ?_, fun _ => ?_, fun _ => ?_, fun silent => ?_, fun silent => ?_⟩
  · rw [guard', last]
    rfl
  · rw [verify', ← total, ← verify, ← guard]
    rfl
  · rw [beats', same, ← watched.heard here, ← beats]
    rfl
  · rw [same] at silent
    rw [confirm', pending', ← (watched.untouched silent).1, ← (watched.untouched silent).2,
      ← settled_silent silent]
    exact ⟨rfl, rfl⟩
  · rw [same] at silent
    obtain rfl := settled_silent silent
    have before := watched.gaveUp silent
    have flag : settled.gaveUp = settled.rollbackFailed := by rw [Watch.gaveUp, here, Bool.false_or]
    have mono := wifiTime_mono moments (.pass pass)
    have small := deadlineMs.toNat_lt
    have rolls := rollsBack_iff (settled.accrue (counter pass.time) pass.connected) deadlineMs
    have due : deadlineMs ≤ (settled.accrue (counter pass.time) pass.connected).verifyMs ↔
        deadlineMs.toNat ≤ wifiTime (moments ++ [.pass pass]) := by
      rw [UInt32.le_iff_toNat_le]
      show deadlineMs.toNat ≤ (accrueVerifyMs _ _ _).toNat ↔ _
      rw [total]
      omega
    have any : (settled.accrue (counter pass.time) pass.connected).heartbeat.any = false :=
      (watched.heard here).trans silent
    have flags : (settled.accrue (counter pass.time) pass.connected).pendingVerify = pending :=
      (watched.untouched silent).2
    rw [any, flags, due] at rolls
    rw [gave, Bool.eq_iff_iff, Bool.or_eq_true, rolls]
    show settled.gaveUp = true ∨ settled.rollbackFailed = false ∧ _ ↔ _
    rw [← flag, before]
    simp only [Bool.and_eq_true, decide_eq_true_eq, Bool.and_eq_false_iff, decide_eq_false_iff_not,
      true_and]
    cases pending with
    | false => simp
    | true =>
        simp
        omega

/-- Nothing happens once the board has restarted. -/
theorem watched_gone (watched : Watched deadlineMs confirm pending moments w)
    (gone : w.restarted = true) (moment : Moment) :
    Watched deadlineMs confirm pending (moments ++ [moment]) w := by
  have gave : w.gaveUp = true := by simp [Watch.gaveUp, gone]
  refine ⟨?_, ?_, ?_, fun silent => ?_, fun silent => ?_⟩
  · simp [gone]
  · simp [gone]
  · simp [gone]
  · rw [answered_concat, Bool.or_eq_false_iff] at silent
    exact watched.untouched silent.1
  · rw [answered_concat, Bool.or_eq_false_iff] at silent
    have due := watched.gaveUp silent.1
    rw [gave, eq_comm, Bool.and_eq_true, decide_eq_true_eq] at due
    have mono := wifiTime_mono moments moment
    rw [gave, due.1, decide_eq_true (due.2.trans mono)]
    rfl

theorem watched_after (paced : Paced moments) (positive : 0 < deadlineMs) :
    Watched deadlineMs confirm pending moments (Watch.after deadlineMs confirm pending moments) := by
  induction moments using List.reverseRecOn with
  | nil =>
      have early : ¬ deadlineMs.toNat ≤ 0 := by
        rw [UInt32.lt_iff_toNat_lt] at positive
        exact Nat.not_le.mpr positive
      refine ⟨fun _ => rfl, fun _ => rfl, fun _ => rfl, fun _ => ⟨rfl, rfl⟩, fun _ => ?_⟩
      show false = (pending && decide (deadlineMs.toNat ≤ 0))
      rw [decide_eq_false early, Bool.and_false]
  | append_singleton moments moment ih =>
      have watched := ih paced.front
      rw [Watch.after, List.foldl_append]
      show Watched _ _ _ _ ((Watch.after deadlineMs confirm pending moments).step deadlineMs moment)
      generalize Watch.after deadlineMs confirm pending moments = w at watched
      simp only [Watch.step]
      split
      next gone => exact watched_gone watched gone moment
      next running =>
        have here : w.restarted = false := by simpa using running
        cases moment with
        | answer time http marked => exact watched_answer watched here
        | pass pass => exact watched_pass watched here paced.soon

/-- Only a pass gives up, and only an image that has not been heard of. -/
theorem gaveUp_step {moment : Moment} (waits : w.gaveUp = false)
    (gives : (w.step deadlineMs moment).gaveUp = true) :
    moment.answers = false ∧ w.heartbeat.any = false := by
  obtain ⟨here, failed⟩ : w.restarted = false ∧ w.rollbackFailed = false := by
    simpa [Watch.gaveUp] using waits
  simp only [Watch.step, here, Bool.false_eq_true, if_false] at gives
  cases moment with
  | answer time http marked =>
      obtain ⟨w', which, same⟩ := noteHeartbeat_cases w http time marked
      simp only [same] at gives
      rcases which with rfl | ⟨-, rfl⟩
      · simp [Watch.gaveUp, here, failed] at gives
      · simp [Watch.gaveUp, Watch.confirmed, here, failed] at gives
  | pass pass =>
      obtain ⟨beats, -, -, failed', here'⟩ := settles_frame w (counter pass.time) pass.marked
      obtain ⟨-, -, -, -, -, -, -, gave⟩ := giveUp_frame
        ((w.settles (counter pass.time) pass.marked).accrue (counter pass.time) pass.connected)
        deadlineMs pass.canRollBack
      simp only [Watch.loopGuard, gave, Bool.or_eq_true] at gives
      rcases gives with before | now
      · simp [Watch.gaveUp, Watch.accrue, here', failed', here, failed] at before
      · obtain ⟨-, -, silent, -⟩ := (rollsBack_iff _ _).mp now
        exact ⟨rfl, beats ▸ silent⟩

theorem after_concat (deadlineMs : UInt32) (confirm pending : Bool) (moments : List Moment)
    (moment : Moment) :
    Watch.after deadlineMs confirm pending (moments ++ [moment]) =
      (Watch.after deadlineMs confirm pending moments).step deadlineMs moment := by
  simp [Watch.after]

/-! ## Results -/

/-- An image is given up at one pass at most: the first at which the connected time has
reached the deadline, and only if hardwareapi has never answered. -/
theorem rollback_at_deadline (confirm pending : Bool) (paced : Paced moments)
    (positive : 0 < deadlineMs) :
    ∀ before now after, moments = before ++ now :: after →
      ((Watch.after deadlineMs confirm pending before).gaveUp = false ∧
          (Watch.after deadlineMs confirm pending (before ++ [now])).gaveUp = true ↔
        pending = true ∧ answered (before ++ [now]) = false ∧
          wifiTime before < deadlineMs.toNat ∧ deadlineMs.toNat ≤ wifiTime (before ++ [now])) := by
  rintro before now after rfl
  rw [List.append_cons] at paced
  have earlier : Watched deadlineMs confirm pending before
      (Watch.after deadlineMs confirm pending before) := watched_after paced.front.front positive
  have later : Watched deadlineMs confirm pending (before ++ [now])
      (Watch.after deadlineMs confirm pending (before ++ [now])) := watched_after paced.front positive
  cases silent : answered (before ++ [now]) with
  | false =>
      have quiet : answered before = false := by
        rw [answered_concat, Bool.or_eq_false_iff] at silent
        exact silent.1
      rw [earlier.gaveUp quiet, later.gaveUp silent]
      cases pending <;> simp
  | true =>
      refine iff_of_false (fun ⟨waits, gives⟩ => ?_) (by simp)
      have here : (Watch.after deadlineMs confirm pending before).restarted = false := by
        rw [Watch.gaveUp, Bool.or_eq_false_iff] at waits
        exact waits.1
      rw [after_concat] at gives
      obtain ⟨quiet, unheard⟩ := gaveUp_step waits gives
      rw [earlier.heard here] at unheard
      rw [answered_concat, unheard, quiet] at silent
      cases silent

theorem rollback_at_deadline_outage :
    (Watch.after kOtaVerifyDeadlineTestMs true true
        [.pass ⟨90000, true, true, true⟩, .pass ⟨900000, false, true, true⟩]).gaveUp = false ∧
      (Watch.after kOtaVerifyDeadlineTestMs true true
        [.pass ⟨90000, true, true, true⟩, .pass ⟨900000, false, true, true⟩,
          .pass ⟨930000, true, true, true⟩]).gaveUp = true := by
  have paced : Paced [.pass ⟨90000, true, true, true⟩, .pass ⟨900000, false, true, true⟩,
      .pass ⟨930000, true, true, true⟩] := by
    simp only [Paced, passTimes, List.filterMap_cons, Moment.pass?, List.filterMap_nil, List.map_cons,
      List.map_nil, Steady, List.isChain_cons_cons, List.isChain_singleton]
    decide
  exact (rollback_at_deadline true true paced (by decide)
    [.pass ⟨90000, true, true, true⟩, .pass ⟨900000, false, true, true⟩] _ [] rfl).mpr (by decide)

/-- The operations of `Strikes.Client` that a moment amounts to. -/
def Watch.events (w : Watch) : Moment → List Event
  | .answer time http marked =>
      if http > 0 then [.tryMarkValid (w.heartbeat.note http (counter time)).1.any (counter time) marked]
      else []
  | .pass pass =>
      (if w.attemptsMark (counter pass.time) then
        [.tryMarkValid w.heartbeat.any (counter pass.time) pass.marked] else []) ++
        [.loopGuard w.heartbeat.any
          (accrueVerifyMs w.verifyMs (counter pass.time - w.lastGuardMs) pass.connected)]

/-- The flags of the board are those of the watch, until the board restarts. -/
structure Mirrors (b : Board) (w : Watch) : Prop where
  position : b.position = if w.restarted then .off else .running
  confirm : w.restarted = false → b.ram.confirmPending = w.confirmPending
  verify : w.restarted = false → b.ram.pendingVerify = w.pendingVerify
  failed : w.restarted = false → b.ram.rollbackFailed = w.rollbackFailed

/-- Operations whose writes all take effect. -/
def Board.serves (p : Platform) (build : Build) (b : Board) (events : List Event) : Board :=
  events.foldl (fun b event => ((event.serve p build).exec (Action.apply p) b).1) b

section Client

variable {b : Board} {p : Platform} {build : Build}

theorem confirmGood_exec (b : Board) :
    (confirmGood.exec (Action.apply p) b).1.ram = b.ram ∧
      (confirmGood.exec (Action.apply p) b).1.position = b.position ∧
      (confirmGood.exec (Action.apply p) b).1.other = b.other := by
  simp only [confirmGood, exec_get_bind]
  split <;> exact ⟨rfl, rfl, rfl⟩

/-- The end of `tryMarkValid` on the board. -/
theorem mirrors_confirms (running : b.position = .running) (verify : b.ram.pendingVerify = false)
    (failed : b.ram.rollbackFailed = w.rollbackFailed) (here : w.restarted = false) :
    Mirrors ((do
      confirmGood
      let b ← Program.get
      Program.tell (Action.setRam { b.ram with confirmPending := false }) : Prog Unit).exec
        (Action.apply p) b).1 w.confirmed := by
  obtain ⟨ram, position, -⟩ := confirmGood_exec (p := p) b
  rw [exec_bind, exec_get_bind]
  generalize (confirmGood.exec (Action.apply p) b).1 = good at ram position
  refine ⟨?_, fun _ => rfl, fun _ => ?_, fun _ => ?_⟩
  · show good.position = if w.restarted then .off else .running
    rw [position, running, here]
    rfl
  · show good.ram.pendingVerify = false
    rw [ram, verify]
  · show good.ram.rollbackFailed = w.rollbackFailed
    rw [ram, failed]

theorem mirrors_tryMarkValid (mirrors : Mirrors b w) (here : w.restarted = false) (nowMs : UInt32)
    (marked : Bool) :
    Mirrors (b.serves p build [.tryMarkValid w.heartbeat.any nowMs marked])
      (w.tryMarkValid nowMs marked) := by
  have running : b.position = .running := by rw [mirrors.position, here]; rfl
  simp only [Board.serves, List.foldl_cons, List.foldl_nil, Event.serve, whileRunning,
    exec_get_bind, running, if_true, Strikes.tryMarkValid, Watch.tryMarkValid,
    mirrors.confirm here, mirrors.verify here]
  cases confirm : w.confirmPending with
  | false =>
      simp only [decideMarkValid, Bool.false_and, Bool.not_false, if_true]
      exact mirrors
  | true =>
      simp only [Bool.not_true, Bool.false_eq_true, if_false]
      split
      · exact mirrors
      split
      · exact mirrors
      split
      next verify =>
        rw [exec_tell_bind, exec_tell_bind]
        exact mirrors_confirms running rfl (mirrors.failed here) here
      next verify =>
        have plain : b.ram.pendingVerify = false := by
          rw [mirrors.verify here]
          simpa using verify
        exact mirrors_confirms running plain (mirrors.failed here) here

/-- A mark leaves the other slot. -/
theorem canRollBack_tryMarkValid (b : Board) (heard : Bool) (nowMs : UInt32) (marked : Bool) :
    (b.serves p build [.tryMarkValid heard nowMs marked]).canRollBack p = b.canRollBack p := by
  suffices same : (b.serves p build [.tryMarkValid heard nowMs marked]).other = b.other by
    rw [Board.canRollBack, same, Board.canRollBack]
  simp only [Board.serves, List.foldl_cons, List.foldl_nil, Event.serve, whileRunning, exec_get_bind]
  split
  · simp only [Strikes.tryMarkValid, exec_get_bind]
    split
    · rfl
    split
    · rfl
    split
    · rw [exec_tell_bind, exec_tell_bind, exec_bind, exec_get_bind]
      exact (confirmGood_exec _).2.2
    · rw [exec_bind, exec_get_bind]
      exact (confirmGood_exec _).2.2
  · rfl

theorem mirrors_giveUp (mirrors : Mirrors b w) (here : w.restarted = false) :
    Mirrors (b.serves p build [.loopGuard w.heartbeat.any w.verifyMs])
      (w.giveUp build.verifyDeadlineMs (b.canRollBack p)) := by
  have running : b.position = .running := by rw [mirrors.position, here]; rfl
  simp only [Board.serves, List.foldl_cons, List.foldl_nil, Event.serve, whileRunning,
    exec_get_bind, running, if_true, Strikes.loopGuard, Watch.giveUp, Watch.rollsBack,
    mirrors.failed here, mirrors.verify here]
  by_cases failed : w.rollbackFailed = true
  · simp only [failed, Bool.not_true, Bool.false_and, Bool.not_false, if_true]
    exact mirrors
  · simp only [failed, Bool.not_false, Bool.true_and, Bool.false_eq_true, if_false]
    by_cases due : decideRollbackGuard w.pendingVerify w.heartbeat.any w.verifyMs
        build.verifyDeadlineMs = .rollback
    · cases can : b.canRollBack p with
      | true =>
          simp only [due, ne_eq, not_true_eq_false, if_false, if_true, decide_true, Bool.not_true,
            Bool.false_eq_true]
          exact ⟨rfl, nofun, nofun, nofun⟩
      | false =>
          simp only [due, ne_eq, not_true_eq_false, if_false, decide_true, Bool.not_true,
            Bool.false_eq_true]
          exact ⟨mirrors.position, mirrors.confirm, fun _ => rfl, fun _ => rfl⟩
    · simp only [due, ne_eq, not_false_eq_true, if_true, decide_false, Bool.not_false]
      exact mirrors

/-- Everything that the timed watch does, the client does to the board with the values that
the watch reads: a run of the one is a run of the other. -/
theorem watch_refines (mirrors : Mirrors b w) {moment : Moment} (here : w.restarted = false)
    (other : ∀ pass, moment = .pass pass → pass.canRollBack = b.canRollBack p) :
    Mirrors (b.serves p build (w.events moment)) (w.step build.verifyDeadlineMs moment) := by
  simp only [Watch.step, here, Bool.false_eq_true, if_false]
  cases moment with
  | answer time http marked =>
      have heard : Mirrors b { w with heartbeat := (w.heartbeat.note http (counter time)).1 } :=
        ⟨mirrors.position, mirrors.confirm, mirrors.verify, mirrors.failed⟩
      simp only [Watch.events, Watch.noteHeartbeat]
      split
      · exact mirrors_tryMarkValid heard here _ _
      · exact heard
  | pass pass =>
      obtain ⟨beats, verify, guard, -, restarted⟩ := settles_frame w (counter pass.time) pass.marked
      have settled : Mirrors
          (b.serves p build (if w.attemptsMark (counter pass.time) then
            [.tryMarkValid w.heartbeat.any (counter pass.time) pass.marked] else []))
          (w.settles (counter pass.time) pass.marked) := by
        rw [Watch.settles]
        split
        · have tried : Mirrors b { w with markAttempted := true } :=
            ⟨mirrors.position, mirrors.confirm, mirrors.verify, mirrors.failed⟩
          exact mirrors_tryMarkValid tried here _ _
        · exact mirrors
      have slots : (b.serves p build (if w.attemptsMark (counter pass.time) then
          [.tryMarkValid w.heartbeat.any (counter pass.time) pass.marked] else [])).canRollBack p =
          pass.canRollBack := by
        rw [other pass rfl]
        split
        · exact canRollBack_tryMarkValid b _ _ _
        · rfl
      simp only [Watch.events, Watch.loopGuard]
      rw [Board.serves, List.foldl_append, ← slots]
      have accrued : Mirrors _ ((w.settles (counter pass.time) pass.marked).accrue
          (counter pass.time) pass.connected) :=
        ⟨settled.position, settled.confirm, settled.verify, settled.failed⟩
      have gives := @mirrors_giveUp _ _ p build accrued (restarted.trans here)
      simp only [Watch.accrue] at gives ⊢
      rw [beats, verify, guard] at gives
      rw [beats, verify, guard]
      exact gives

theorem canRollBack_loopGuard (b : Board) (heard : Bool) (verifyMs : UInt32) :
    (b.serves p build [.loopGuard heard verifyMs]).canRollBack p = b.canRollBack p := by
  suffices same : (b.serves p build [.loopGuard heard verifyMs]).other = b.other by
    rw [Board.canRollBack, same, Board.canRollBack]
  simp only [Board.serves, List.foldl_cons, List.foldl_nil, Event.serve, whileRunning, exec_get_bind]
  split
  · simp only [Strikes.loopGuard, exec_get_bind]
    split
    · rfl
    split
    · rfl
    split <;> rfl
  · rfl

theorem canRollBack_events (b : Board) (w : Watch) (moment : Moment) :
    (b.serves p build (w.events moment)).canRollBack p = b.canRollBack p := by
  cases moment with
  | answer time http marked =>
      simp only [Watch.events]
      split
      · exact canRollBack_tryMarkValid b _ _ _
      · rfl
  | pass pass =>
      simp only [Watch.events]
      rw [Board.serves, List.foldl_append]
      refine (canRollBack_loopGuard _ _ _).trans ?_
      split
      · exact canRollBack_tryMarkValid b _ _ _
      · rfl

theorem events_kinds {moment : Moment} {event : Event} (member : event ∈ w.events moment) :
    (∃ heard uptimeMs marked, event = .tryMarkValid heard uptimeMs marked) ∨
      ∃ heard verifyMs, event = .loopGuard heard verifyMs := by
  cases moment with
  | answer time http marked =>
      simp only [Watch.events] at member
      split at member
      · exact .inl ⟨_, _, _, List.mem_singleton.mp member⟩
      · cases member
  | pass pass =>
      simp only [Watch.events] at member
      rcases List.mem_append.mp member with attempt | guard
      · split at attempt
        · exact .inl ⟨_, _, _, List.mem_singleton.mp attempt⟩
        · cases attempt
      · exact .inr ⟨_, _, List.mem_singleton.mp guard⟩

/-- Every run of the watch is a run of the untimed client: the operations of the moments,
one after the other, leave the board with the flags of the watch, and restart it when the
watch does. -/
theorem watch_run_refines (p : Platform) (build : Build) (mirrors : Mirrors b w)
    (moments : List Moment)
    (slots : ∀ pass, .pass pass ∈ moments → pass.canRollBack = b.canRollBack p) :
    ∃ events : List Event,
      (∀ event ∈ events, (∃ heard uptimeMs marked, event = .tryMarkValid heard uptimeMs marked) ∨
        ∃ heard verifyMs, event = .loopGuard heard verifyMs) ∧
      Mirrors (b.serves p build events) (moments.foldl (Watch.step build.verifyDeadlineMs) w) := by
  induction moments generalizing b w with
  | nil => exact ⟨[], nofun, mirrors⟩
  | cons moment moments ih =>
      rw [List.foldl_cons]
      by_cases here : w.restarted = false
      · have next : Mirrors (b.serves p build (w.events moment))
            (w.step build.verifyDeadlineMs moment) :=
          watch_refines mirrors here fun pass same => slots pass (by rw [same]; exact List.mem_cons_self)
        obtain ⟨events, kinds, ends⟩ := ih next fun pass member => by
          rw [canRollBack_events]
          exact slots pass (List.mem_cons_of_mem _ member)
        refine ⟨w.events moment ++ events, fun event member => ?_, ?_⟩
        · rcases List.mem_append.mp member with first | later
          · exact events_kinds first
          · exact kinds event later
        · rw [Board.serves, List.foldl_append]
          exact ends
      · have gone : w.step build.verifyDeadlineMs moment = w := by
          simp only [Watch.step, Bool.not_eq_false] at here ⊢
          rw [if_pos here]
        rw [gone]
        exact ih mirrors fun pass member => slots pass (List.mem_cons_of_mem _ member)

/-- A board that runs the first boot of an update. -/
def sampleBoard : Board :=
  { running := ⟨⟨⟨[1], by decide⟩, none⟩, .pendingVerify⟩
    other := some ⟨⟨⟨[0], by decide⟩, none⟩, .valid⟩
    position := .running
    ram := { confirmPending := true, pendingVerify := true } }

theorem watch_run_refines_rollback :
    ∃ events : List Event,
      (∀ event ∈ events, (∃ heard uptimeMs marked, event = .tryMarkValid heard uptimeMs marked) ∨
        ∃ heard verifyMs, event = .loopGuard heard verifyMs) ∧
      (sampleBoard.serves (.esp32 true) ⟨[], kOtaVerifyDeadlineTestMs⟩ events).position = .off := by
  have started : Mirrors sampleBoard { confirmPending := true, pendingVerify := true } :=
    ⟨rfl, fun _ => rfl, fun _ => rfl, fun _ => rfl⟩
  obtain ⟨events, kinds, mirrors⟩ := watch_run_refines (.esp32 true) ⟨[], kOtaVerifyDeadlineTestMs⟩
    started [.pass ⟨120000, true, true, true⟩] fun pass member => by
      obtain rfl := Moment.pass.inj (List.mem_singleton.mp member)
      rfl
  exact ⟨events, kinds, mirrors.position⟩

end Client

end Runs

end FryFirmware.Strikes
