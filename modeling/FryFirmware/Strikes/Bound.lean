import FryFirmware.Lib.Components
import FryFirmware.Strikes.Operations
import Mathlib.Data.List.Basic
import Mathlib.Tactic.Common

/-!
# The strikes bound the installations

A version that fails is not downloaded again after its third failure, and what the
strikes count are the failures. The one way to a strike without a failure is the boot
counter: it counts planned restarts too.
-/

set_option autoImplicit false

namespace FryFirmware.Strikes

open Lib
open Config (Text text)

variable {p : Platform} {x : Text} {base : Nat} {b : Board}

/-! ## The start of a run -/

/-- A board that is off and waits for no version. Its images came with it. -/
structure Fresh (b : Board) : Prop where
  position : b.position = .off
  ram : b.ram = {}
  pending : b.store.pending = none
  bootfails : b.store.bootfails = none
  planrst : b.store.planrst = false
  rbk : b.store.rbk = false
  valid : b.running.state = .valid
  selected : b.bootOther = false
  staged : b.staged = none
  planned : b.planned = false
  interrupted : b.interrupted = false
  downloads : b.downloads = []
  lost : b.lost = []
  mislabelled : b.mislabelled = []
  undeclared : b.running.image.declared = none ∧ ∀ slot ∈ b.other, slot.image.declared = none

/-- The first start keeps the running image. -/
theorem boots_fresh (fresh : Fresh b) :
    ∃ other, b.boots p = { b with other := other, position := .starting } ∧
      (p = .esp32 true → ∀ slot, other = some slot → slot.state ≠ .pendingVerify) := by
  cases p with
  | esp8266 =>
      refine ⟨b.other, ?_, fun app => by cases app⟩
      simp only [Board.boots, bootStaged, fresh.staged]
  | esp32 r =>
      have kept : b.running.abort r = b.running := abort_settled fun _ => by simp [fresh.valid]
      have started : b.running.start r = b.running := start_settled fun _ => by simp [fresh.valid]
      refine ⟨b.other.map (Slot.abort r), ?_, ?_⟩
      · simp only [Board.boots, bootSlots, kept, fresh.selected]
        cases b.other with
        | none => simp [started]
        | some other => simp [started, fresh.valid]
      · rintro ⟨rfl⟩ slot aborted
        obtain ⟨other, -, rfl⟩ := Option.map_eq_some_iff.mp aborted
        unfold Slot.abort
        split
        · intro pending
          cases pending
        · next waits => exact fun pending => waits ⟨rfl, pending⟩

theorem fresh_accounted (fresh : Fresh b) : Accounted p x (strikesOf x b.store) b := by
  obtain ⟨other, boots, settled⟩ := boots_fresh (p := p) fresh
  have sound : Sound p x (strikesOf x b.store) { b with other := other, position := .starting } := by
    refine ⟨Or.inl fresh.pending, Nat.le_max_right _ _, fresh.selected, fresh.staged, ?_,
      fun app => ⟨?_, settled app⟩, fun _ => ?_, ?_, ?_, fun _ => fresh.lost, fun _ => fresh.mislabelled, ?_⟩
    · simp [fresh.valid]
    · simp [fresh.valid]
    · simp [fresh.valid]
    · simp [OnTrial, fresh.valid, fresh.pending]
    · simp [fresh.valid]
    · simp [fresh.downloads, fresh.mislabelled]
  have none : ({ b with other := other, position := .starting } : Board).store.pending = none := fresh.pending
  have account := sound.account (reckoning_none none) (by simp [failures, fresh.lost, fresh.mislabelled])
    (by simp [fresh.pending]) (by simp [fresh.valid]) fun _ _ => by
      simp [fresh.pending, Store.getBootFails, fresh.bootfails]
  refine accounted_off ?_ fresh.position
  unfold Off
  rw [boots]
  exact ⟨account, by simp [fresh.pending]⟩

/-! ## The failures of an account -/

theorem Account.failures_le (account : Account p x base b) : failures p x b ≤ 3 := by
  cases owed : due p b with
  | true =>
      have debt := account.debt owed
      have room := account.room (Or.inl owed)
      omega
  | false =>
      have clear := account.clear owed
      have cap := account.cap
      omega

/-- The bootloader takes no failure back. -/
theorem failures_boots : failures p x b ≤ failures p x (b.boots p) := by
  cases p with
  | esp8266 =>
      show b.mislabelled.length ≤ (bootStaged b).mislabelled.length
      unfold bootStaged
      split
      · exact Nat.le_refl _
      · dsimp only
        split
        · exact Nat.le_succ _
        · exact Nat.le_refl _
  | esp32 r =>
      have given : ∀ image, b.lost.countP (Image.Reports x) ≤ (b.giveUp image).countP (Image.Reports x) := by
        intro image
        unfold Board.giveUp
        split
        · exact Nat.le_refl _
        · rw [List.countP_cons]
          exact Nat.le_add_right _ _
      show b.lost.countP _ ≤ (bootSlots r b).lost.countP _
      unfold bootSlots
      dsimp only
      split
      · exact Nat.le_refl _
      · split
        · exact given _
        · exact Nat.le_refl _
      · exact Nat.le_refl _

theorem Accounted.failures_le (accounted : Accounted p x base b) : failures p x b ≤ 3 := by
  cases position : b.position with
  | off =>
      have booted : Booted p x base (b.boots p) := accounted.off position
      exact Nat.le_trans failures_boots booted.toAccount.failures_le
  | starting =>
      unfold Accounted at accounted
      rw [position] at accounted
      exact accounted.elim
  | running => exact (accounted.running position).toAccount.failures_le

/-- The bootloader downloads nothing, and interrupts nothing. -/
theorem boots_kept : (b.boots p).interrupted = b.interrupted ∧ (b.boots p).downloads = b.downloads := by
  cases p with
  | esp8266 =>
      unfold Board.boots bootStaged
      dsimp only
      split
      · exact ⟨rfl, rfl⟩
      · exact ⟨rfl, rfl⟩
  | esp32 r =>
      unfold Board.boots bootSlots
      dsimp only
      split
      · exact ⟨rfl, rfl⟩
      · split
        · exact ⟨rfl, rfl⟩
        · exact ⟨rfl, rfl⟩
      · exact ⟨rfl, rfl⟩

theorem Accounted.single (accounted : Accounted p x base b) (single : p = .esp8266) : b.lost = [] := by
  subst single
  cases position : b.position with
  | off =>
      have booted : Booted .esp8266 x base (b.boots .esp8266) := accounted.off position
      have same : (b.boots .esp8266).lost = b.lost := by
        unfold Board.boots bootStaged
        dsimp only
        split <;> rfl
      exact same.symm.trans (booted.single rfl)
  | starting =>
      unfold Accounted at accounted
      rw [position] at accounted
      exact accounted.elim
  | running => exact (accounted.running position).single rfl

theorem Accounted.counted (accounted : Accounted .esp8266 x base b) (quiet : b.interrupted = false) :
    b.downloads.countP Image.Mislabelled ≤ 3 := by
  cases position : b.position with
  | off =>
      have booted : Booted .esp8266 x base (b.boots .esp8266) := accounted.off position
      have few : (b.boots .esp8266).mislabelled.length ≤ 3 := booted.toAccount.failures_le
      obtain ⟨interrupted, downloads⟩ := boots_kept (p := .esp8266) (b := b)
      rw [← booted.counted (interrupted.trans quiet) rfl, downloads] at few
      exact few
  | starting =>
      unfold Accounted at accounted
      rw [position] at accounted
      exact accounted.elim
  | running =>
      have running := accounted.running position
      rw [running.counted quiet rfl]
      exact running.toAccount.failures_le

/-! ## What a board holds -/

/-- All images that the board has or gave up are like this. -/
structure Holding (like : Image → Prop) (b : Board) : Prop where
  running : like b.running.image
  other : ∀ slot, b.other = some slot → like slot.image
  staged : ∀ image, b.staged = some image → like image
  lost : ∀ image ∈ b.lost, like image

variable {like : Image → Prop}

theorem Holding.giveUp (holding : Holding like b) {image : Image} (here : like image) :
    ∀ other ∈ b.giveUp image, like other := by
  unfold Board.giveUp
  split
  · exact holding.lost
  · exact List.forall_mem_cons.mpr ⟨here, holding.lost⟩

theorem abort_image (r : Bool) (s : Slot) : (s.abort r).image = s.image := by
  unfold Slot.abort
  split <;> rfl

theorem start_image (r : Bool) (s : Slot) : (s.start r).image = s.image := by
  unfold Slot.start
  split <;> rfl

theorem Holding.boots (holding : Holding like b) : Holding like (b.boots p) := by
  cases p with
  | esp8266 =>
      unfold Board.boots bootStaged
      dsimp only
      split
      · exact ⟨holding.running, holding.other, holding.staged, holding.lost⟩
      · next image staged => exact ⟨holding.staged image staged, holding.other, nofun, holding.lost⟩
  | esp32 r =>
      have running : like (b.running.abort r).image := by
        rw [abort_image]
        exact holding.running
      have others : ∀ slot, b.other.map (Slot.abort r) = some slot → like slot.image := by
        intro slot aborted
        obtain ⟨other, there, rfl⟩ := Option.map_eq_some_iff.mp aborted
        rw [abort_image]
        exact holding.other other there
      unfold Board.boots bootSlots
      dsimp only
      split
      · next other there _ =>
        refine ⟨?_, ?_, holding.staged, holding.lost⟩
        · rw [start_image]
          exact others other there
        · rintro _ ⟨rfl⟩
          exact running
      · next other there _ =>
        split
        · refine ⟨?_, ?_, holding.staged, holding.giveUp running⟩
          · rw [start_image]
            exact others other there
          · rintro _ ⟨rfl⟩
            exact running
        · refine ⟨?_, ?_, holding.staged, holding.lost⟩
          · rw [start_image]
            exact running
          · rintro _ ⟨rfl⟩
            exact others other there
      · refine ⟨?_, nofun, holding.staged, holding.lost⟩
        rw [start_image]
        exact running

theorem Holding.apply (holding : Holding like b) (action : Action)
    (brings : ∀ image, action = .install image ∨ action = .stage image → like image) :
    Holding like (action.apply p b) := by
  obtain ⟨running, other, staged, lost⟩ := holding
  cases action with
  | bootloader => exact Holding.boots ⟨running, other, staged, lost⟩
  | install image =>
      refine ⟨running, ?_, staged, lost⟩
      rintro _ ⟨rfl⟩
      exact brings image (Or.inl rfl)
  | stage image =>
      refine ⟨running, other, ?_, lost⟩
      rintro _ ⟨rfl⟩
      exact brings image (Or.inr rfl)
  | powerLoss => exact ⟨running, other, nofun, lost⟩
  | setBoot =>
      refine ⟨running, ?_, staged, Holding.giveUp ⟨running, other, staged, lost⟩ running⟩
      intro slot new
      obtain ⟨old, there, rfl⟩ := Option.map_eq_some_iff.mp new
      exact other old there
  | _ => exact ⟨running, other, staged, lost⟩

theorem Fresh.holding (fresh : Fresh b) (x : Text) :
    Holding (fun image => image.declared = some x → image.Reports x) b := by
  refine ⟨?_, ?_, ?_, ?_⟩
  · simp [fresh.undeclared.1]
  · intro slot other
    simp [fresh.undeclared.2 slot other]
  · simp [fresh.staged]
  · simp [fresh.lost]

/-! ## Runs without a power loss -/

def oldVersion : Version := ⟨text "1.0.0", by decide⟩
def newVersion : Version := ⟨text "1.0.1", by decide⟩
def prodBuild : Build := ⟨text "prod", kOtaVerifyDeadlineProdMs⟩

def shipped : Board := { running := ⟨⟨oldVersion, none⟩, .valid⟩ }

theorem shipped_fresh : Fresh shipped :=
  ⟨rfl, rfl, rfl, rfl, rfl, rfl, rfl, rfl, rfl, rfl, rfl, rfl, rfl, rfl, rfl, nofun⟩

/-- An event whose writes all succeed. -/
def done (event : Event) : Event × List Fate := (event, List.replicate 8 .done)

/-- A check that finds the new version and installs it. -/
def updateCheck : Event :=
  .check (some ⟨newVersion.val, text "prod", text "url", text "sha"⟩) true (some newVersion)

def crashes : List (Event × List Fate) :=
  [done .boot, done updateCheck, done .boot, done .crash, done .boot, done updateCheck, done updateCheck,
    done .boot, done .crash, done .boot]

end FryFirmware.Strikes
