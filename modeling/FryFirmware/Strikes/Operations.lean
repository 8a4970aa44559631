import FryFirmware.Strikes.Start
import Mathlib.Data.List.Basic
import Mathlib.Tactic.Common

/-!
# The account of a running board

What `init` left even stays even: a check of a manifest moves no strike, an installed
image owes nothing before its first boot, and each way to give an image up leaves its
debt for the next start to find.
-/

set_option autoImplicit false

namespace FryFirmware.Strikes

open Lib
open Lib.Program (get put tell)
open Config (Text)

variable {p : Platform} {x : Text} {base : Nat} {b : Board} {α : Type}

/-! ## The account between two events -/

def Accounted (p : Platform) (x : Text) (base : Nat) (b : Board) : Prop :=
  match b.position with
  | .off => Off p x base b
  | .starting => False
  | .running => Running p x base b

theorem accounted_off (off : Off p x base b) (position : b.position = .off) : Accounted p x base b := by
  unfold Accounted
  rwa [position]

theorem accounted_running (running : Running p x base b) (position : b.position = .running) :
    Accounted p x base b := by
  unfold Accounted
  rwa [position]

theorem Accounted.off (accounted : Accounted p x base b) (position : b.position = .off) :
    Off p x base b := by
  unfold Accounted at accounted
  rwa [position] at accounted

theorem Accounted.running (accounted : Accounted p x base b) (position : b.position = .running) :
    Running p x base b := by
  unfold Accounted at accounted
  rwa [position] at accounted

/-- What `init` reads and sets in memory does not concern the account. -/
theorem Running.memory (running : Running p x base b) (position : Position) (ram : Ram) (planned : Bool)
    (verify : ram.pendingVerify = b.ram.pendingVerify)
    (confirm : ram.pendingVerify = true → ram.confirmPending = true) :
    Running p x base { b with position := position, ram := ram, planned := planned } :=
  ⟨running.toAccount.memory position ram planned, running.awaited, running.planrst, running.rbk,
    verify.trans running.verify, confirm⟩

theorem Running.interrupt (running : Running p x base b) :
    Running p x base { b with interrupted := true } :=
  ⟨running.toAccount.interrupt, running.awaited, running.planrst, running.rbk, running.verify, running.confirm⟩

theorem Running.verified (running : Running p x base b) (verified : b.ram.pendingVerify = false) :
    b.running.state ≠ .pendingVerify := by
  intro verify
  rw [running.verify] at verified
  by_cases single : p = .esp8266
  · exact running.plain (by rw [single]; nofun) verify
  · simp [Board.isPendingVerify, verify, single] at verified

theorem keeping_boot (off : Off p x base b) :
    Keeping p x base (boot p) (fun _ => Accounted p x base) b := by
  refine keeping_note .bootloader nofun ((keeping_init off).bind fun returns b' begun => ?_)
  cases returns with
  | true =>
      have running : Running p x base b' := begun
      refine keeping_note .started nofun (holds_pure ?_)
      exact accounted_running (running.memory .running b'.ram b'.planned rfl running.confirm) rfl
  | false =>
      obtain ⟨position, off⟩ : b'.position = .off ∧ Off p x base b' := begun
      exact holds_pure (accounted_off off position)

/-! ## The check of a manifest -/

theorem Running.stored (running : Running p x base b) (badver : Option Text) (badn : Option Nat)
    (same : strikesOf x { b.store with badver := badver, badn := badn } = strikesOf x b.store) :
    Running p x base { b with store := { b.store with badver := badver, badn := badn } } := by
  have sound := running.toSound.store { b.store with badver := badver, badn := badn } rfl
    (Nat.le_trans (Nat.le_of_eq same) running.cap)
  exact ⟨sound.account running.reckoned (same.trans running.even)
    (fun named reports => Nat.le_trans (Nat.le_of_eq same) (running.room (Or.inr ⟨named, reports⟩)))
    running.unannounced running.counter, running.awaited, running.planrst, running.rbk, running.verify,
    running.confirm⟩

/-- The strikes of another version do not count for this one. -/
theorem strikesOf_other {s : Store} (other : s.badver ≠ some x) : strikesOf x s = 0 := if_neg other

theorem strikesReset_other {s : Store} (resets : strikesReset x s.getBadVer = true) :
    s.badver ≠ some x := by
  intro same
  simp [strikesReset, Store.getBadVer, same] at resets

theorem keeping_clearStrikes (running : Running p x base b) (other : b.store.badver ≠ some x) :
    Keeping p x base (setOtaStrikes [] 0)
      (fun _ b' => b' = { b with store := { b.store with badver := none, badn := none } }) b := by
  unfold setOtaStrikes
  rw [if_neg (by simp)]
  have cleared := running.stored none b.store.badn (by
    rw [strikesOf_other other, strikesOf_other (Option.some_ne_none x).symm])
  exact keeping_put .removeBadVer nofun
    (fun _ => keeping_put .removeBadN nofun (fun _ => holds_pure rfl) cleared.safe) running.safe

/-- A version with its three strikes is skipped for good. -/
theorem skipped_permanent {s : Store} (firstCheck : Bool) (x_ne : x ≠ [])
    (permanent : 3 ≤ strikesOf x s) :
    skipBadVersion x s.getBadVer s.getBadN firstCheck = true ∧ s.getBadVer = x := by
  unfold strikesOf at permanent
  split at permanent
  · next same =>
    have badver : s.getBadVer = x := by simp [Store.getBadVer, same]
    rw [badver]
    refine ⟨?_, rfl⟩
    have enough : kOtaPermanentStrikes ≤ s.getBadN := permanent
    simp [skipBadVersion, isSkippedBadVersion, x_ne, enough]
  · contradiction

/-- What a check leaves, and what it decides on. -/
structure Checked (p : Platform) (x : Text) (base : Nat) (b : Board) (updates : Bool) (b' : Board) : Prop
    extends Running p x base b' where
  position : b'.position = b.position
  same : b'.ram.pendingVerify = b.ram.pendingVerify
  newer : updates = true → ¬ b'.running.image.Reports x
  named_ne : updates = true → x ≠ []
  below : updates = true → strikesOf x b'.store ≤ 2

theorem keeping_evaluateManifest (build : Build) {manifest : Manifest} (inRollout : Bool)
    (names : manifest.firmwareVersion = x) (running : Running p x base b) :
    Keeping p x base (evaluateManifest build manifest inRollout) (Checked p x base b) b := by
  have newer : ∀ skipped, decideOtaUpdate manifest.channel build.channel x b.running.image.version.val
      skipped manifest.url manifest.sha256 inRollout = .update →
      x ≠ [] ∧ ¬ b.running.image.Reports x ∧ isSkippedBadVersion x skipped = false := by
    intro skipped updates
    obtain ⟨named, newer, unskipped⟩ := decideOtaUpdate_update updates
    exact ⟨named, fun reports => newer_ne newer reports.symm, unskipped⟩
  unfold evaluateManifest
  refine holds_get_bind ?_
  dsimp only
  rw [names]
  cases resets : strikesReset x b.store.getBadVer with
  | true =>
      have other := strikesReset_other resets
      have gone : strikesOf x { b.store with badver := none, badn := none } = 0 :=
        strikesOf_other (Option.some_ne_none x).symm
      have cleared := running.stored none none (gone.trans (strikesOf_other other).symm)
      rw [if_pos rfl]
      refine (keeping_clearStrikes running other).bind fun _ b' same => holds_get_bind (keeping_note _ nofun ?_)
      subst same
      refine holds_pure ⟨cleared.memory b.position _ b.planned rfl cleared.confirm, rfl, rfl, fun updates => ?_,
        fun updates => ?_, fun _ => Nat.le_trans (Nat.le_of_eq gone) (Nat.zero_le 2)⟩
      · exact (newer _ (of_decide_eq_true updates)).2.1
      · exact (newer _ (of_decide_eq_true updates)).1
  | false =>
      rw [if_neg Bool.false_ne_true]
      refine holds_get_bind (keeping_note _ nofun ?_)
      refine holds_pure ⟨running.memory b.position _ b.planned rfl running.confirm, rfl, rfl, fun updates => ?_,
        fun updates => ?_, fun updates => ?_⟩
      · exact (newer _ (of_decide_eq_true updates)).2.1
      · exact (newer _ (of_decide_eq_true updates)).1
      · obtain ⟨named, -, unskipped⟩ := newer _ (of_decide_eq_true updates)
        by_contra more
        have permanent : 3 ≤ strikesOf x b.store := Nat.lt_of_not_le more
        obtain ⟨skipped, badver⟩ := skipped_permanent b.ram.firstCheckAfterRollback named permanent
        rw [badver] at skipped unskipped
        simp [named, skipped, isSkippedBadVersion] at unskipped

/-! ## The installation -/

/-- Before an installation no version is pending. -/
theorem Running.unnamed (running : Running p x base b) (newer : ¬ b.running.image.Reports x) :
    b.store.pending = none := by
  obtain none | ⟨named, _⟩ := running.named
  · exact none
  · exact absurd (running.awaited named) newer

/-- The state of an image at its first boot. -/
def firstState (appRollback : Bool) : ImageState := if appRollback then .pendingVerify else .new

/-- The board at the first start of an installed image. -/
def Board.installed (b : Board) (appRollback : Bool) (image : Image) (pending : Option Text)
    (interrupted : Bool) : Board :=
  { b with
    store := { b.store with pending := pending }
    running := ⟨image, firstState appRollback⟩
    other := some b.running
    bootOther := false
    position := .starting
    ram := {}
    planned := false
    interrupted := interrupted
    downloads := image :: b.downloads }

theorem boots_installed {r : Bool} (settled : b.running.state ≠ .pendingVerify) (image : Image)
    (pending : Option Text) (interrupted : Bool) :
    (({ b with
        store := { b.store with pending := pending }
        downloads := image :: b.downloads
        other := some ⟨image, .new⟩
        bootOther := true
        interrupted := interrupted } : Board).reset false).boots (.esp32 r) =
      b.installed r image pending interrupted := by
  have kept : b.running.abort r = b.running := abort_settled fun _ => settled
  have aborted : (⟨image, .new⟩ : Slot).abort r = ⟨image, .new⟩ := abort_settled fun _ => nofun
  have started : (⟨image, .new⟩ : Slot).start r = ⟨image, firstState r⟩ := by
    cases r <;> rfl
  simp only [Board.boots, bootSlots, Board.reset, Option.map_some, kept, aborted, started]
  rfl

theorem Running.sound_installed {r : Bool} (running : Running (.esp32 r) x base b)
    (settled : b.running.state ≠ .pendingVerify) (newer : ¬ b.running.image.Reports x) (image : Image)
    {pending : Option Text} (named : pending = some x ∧ x ≠ [] ∨ pending = none ∧ r = false)
    (interrupted : Bool) : Sound (.esp32 r) x base (b.installed r image pending interrupted) := by
  have bootable : firstState r ≠ .invalid := by
    cases r <;> nofun
  refine ⟨named.symm.imp_left And.left, running.cap, rfl, running.staged, bootable, fun app => ⟨?_, ?_⟩, fun app => ?_, ?_, ?_,
    nofun, running.labelled, nofun⟩
  · cases app
    nofun
  · rintro _ ⟨rfl⟩
    exact settled
  · cases r with
    | true => exact absurd rfl app
    | false => nofun
  · intro _ _
    refine ⟨b.running, rfl, running.bootable, fun app => ?_, fun _ => newer⟩
    have old := (running.settled app).1
    cases state : b.running.state with
    | valid => rfl
    | new => exact absurd state old
    | pendingVerify => exact absurd state settled
    | invalid => exact absurd state running.bootable
  · intro verify _
    obtain ⟨named, -⟩ | ⟨-, rfl⟩ := named
    · exact named
    · cases verify

/-- An installed image owes nothing before its first boot. -/
theorem Running.booted_installed {r : Bool} (running : Running (.esp32 r) x base b)
    (settled : b.running.state ≠ .pendingVerify) (newer : ¬ b.running.image.Reports x)
    (room : strikesOf x b.store ≤ 2) (image : Image) {pending : Option Text}
    (named : pending = some x ∧ x ≠ [] ∨ pending = none ∧ r = false) {interrupted : Bool}
    (quiet : interrupted = false → b.interrupted = false) :
    Booted (.esp32 r) x base (b.installed r image pending interrupted) := by
  have nothing : due (.esp32 r) (b.installed r image pending interrupted) = false := by
    have bootable : firstState r ≠ .invalid := by
      cases r <;> nofun
    simp [due, Board.installed, Board.lastInvalid, bootable, running.bootable, running.rbk]
  refine ⟨⟨running.sound_installed settled newer image named interrupted, fun debt => ?_,
    fun _ => running.even, fun _ => room, fun _ => running.planrst, fun app calm => ⟨fun empty => ?_, ?_⟩⟩, ?_⟩
  · rw [nothing] at debt
    cases debt
  · exact (running.counter app (quiet calm)).1 (running.unnamed newer)
  · cases app
    exact fun _ _ => rfl
  · exact fun app calm _ _ => (running.counter app (quiet calm)).1 (running.unnamed newer)

/-- The next start after an installation. -/
theorem Running.installed_off {r : Bool} (running : Running (.esp32 r) x base b)
    (settled : b.running.state ≠ .pendingVerify) (newer : ¬ b.running.image.Reports x)
    (room : strikesOf x b.store ≤ 2) (image : Image) {pending : Option Text}
    (named : pending = some x ∧ x ≠ [] ∨ pending = none ∧ r = false) (interrupted : Bool)
    (quiet : interrupted = false → b.interrupted = false) :
    Off (.esp32 r) x base
      (({ b with
        store := { b.store with pending := pending }
        downloads := image :: b.downloads
        other := some ⟨image, .new⟩
        bootOther := true
        interrupted := interrupted } : Board).reset false) := by
  unfold Off
  rw [boots_installed settled]
  exact running.booted_installed settled newer room image named quiet

/-- The board at the first start of a staged image. -/
def Board.replaced (b : Board) (image : Image) (pending : Text) : Board :=
  { b with
    store := { b.store with pending := some pending }
    running := ⟨image, .valid⟩
    staged := none
    position := .starting
    ram := {}
    planned := false
    downloads := image :: b.downloads
    mislabelled := if image.Mislabelled then image :: b.mislabelled else b.mislabelled }

theorem mislabelled_iff {image : Image} (declared : image.declared = some x) :
    image.Mislabelled ↔ ¬ image.Reports x := by
  unfold Image.Mislabelled Image.Reports
  rw [declared]
  exact ⟨fun other same => other (congrArg some same.symm), fun other same => other (Option.some.inj same).symm⟩

/-- A staged image that reports another version owes a strike from its first boot on. -/
theorem Running.booted_replaced (running : Running .esp8266 x base b) (x_ne : x ≠ [])
    (room : strikesOf x b.store ≤ 2) {image : Image} (declared : image.declared = some x) :
    Booted .esp8266 x base (b.replaced image x) := by
  have even : strikesOf x b.store = base + b.mislabelled.length := running.even
  have same : due .esp8266 (b.replaced image x) = reckoning (b.replaced image x) := by
    have planrst : (b.replaced image x).store.planrst = false := running.planrst
    simp [due, planrst]
  have reckons : reckoning (b.replaced image x) = true ↔ image.Mislabelled :=
    (reckoning_some (b := b.replaced image x) rfl x_ne).trans (mislabelled_iff declared).symm
  have valid : (b.replaced image x).running.state = .valid := rfl
  have settled : (b.replaced image x).running.state ≠ .pendingVerify := by simp [valid]
  have bootable : (b.replaced image x).running.state ≠ .invalid := by simp [valid]
  have board : Platform.esp8266 ≠ .esp32 true := by simp
  refine ⟨⟨⟨Or.inr ⟨rfl, x_ne⟩, running.cap, running.selected, rfl, bootable, fun app => absurd app board,
    fun _ => settled, fun app => absurd rfl app, fun waits => absurd waits settled,
    running.single, fun app => absurd rfl app, fun quiet _ => ?_⟩, fun debt => ?_, fun clear => ?_, fun _ => room,
    fun waits => absurd waits settled, fun app => absurd app board⟩, fun app => absurd app board⟩
  · have counted := running.counted quiet rfl
    show (image :: b.downloads).countP Image.Mislabelled =
      (if image.Mislabelled then image :: b.mislabelled else b.mislabelled).length
    by_cases other : image.Mislabelled
    · rw [List.countP_cons_of_pos (by simpa using other), if_pos other, List.length_cons, counted]
    · rw [List.countP_cons_of_neg (by simpa using other), if_neg other, counted]
  · have other : image.Mislabelled := reckons.mp (same.symm.trans debt)
    show strikesOf x b.store + 1 =
      base + (if image.Mislabelled then image :: b.mislabelled else b.mislabelled).length
    rw [if_pos other, List.length_cons, even]
    omega
  · have right : ¬ image.Mislabelled := fun other => by
      rw [same, reckons.mpr other] at clear
      cases clear
    show strikesOf x b.store =
      base + (if image.Mislabelled then image :: b.mislabelled else b.mislabelled).length
    rw [if_neg right, even]

/-- A power loss forgets what was staged. -/
theorem Running.unstaged_off (running : Running p x base b) (image : Image) :
    Off p x base ({ b with downloads := image :: b.downloads, staged := some image } : Board).cutOff := by
  have account : Account p x base { b with downloads := image :: b.downloads, interrupted := true } :=
    ⟨⟨running.named, running.cap, running.selected, running.staged, running.bootable, running.settled,
      running.plain, running.trial, running.pending, running.single, running.labelled, nofun⟩, running.debt,
      running.clear, running.room, running.unannounced, nofun⟩
  have off := account.off fun reckons => by
    have reckons : reckoning b = true := reckons
    simp [running.reckoned] at reckons
  have same : ({ b with downloads := image :: b.downloads, staged := some image } : Board).cutOff =
      ({ b with downloads := image :: b.downloads, interrupted := true } : Board).reset false := by
    simp [Board.cutOff, Board.powerLoss, Board.reset, running.staged]
  rwa [same]

/-! ## An update -/

theorem keeping_applyImage (running : Running p x base b) (valid : b.ram.pendingVerify = false)
    (newer : ¬ b.running.image.Reports x) (x_ne : x ≠ []) (room : strikesOf x b.store ≤ 2) {image : Image}
    (declared : image.declared = some x) :
    Keeping p x base (applyImage p image x) (fun _ => Accounted p x base) b := by
  have staging : Action.stage image ≠ .fetch := by simp
  have naming : Action.putPending x ≠ .fetch := by simp
  have installing : Action.install image ≠ .fetch := by simp
  unfold applyImage
  cases p with
  | esp8266 =>
      rw [if_pos rfl]
      refine keeping_put (.stage image) staging (fun _ => ?_) running.safe
      rw [if_pos rfl]
      refine keeping_write (.putPending x) naming (fun _ => ?_) fun safe => ?_
      · have off : Off .esp8266 x base (({ b with
            store := { b.store with pending := some x }
            downloads := image :: b.downloads
            staged := some image } : Board).reset false) := running.booted_replaced x_ne room declared
        refine (keeping_espRestart off fun safe => ?_).mono fun _ b' after => accounted_off after.2 after.1
        simp [safeCut] at safe
      · exact running.unstaged_off image
  | esp32 r =>
      have settled := running.verified valid
      rw [if_neg (by simp)]
      refine keeping_put (.install image) installing (fun _ => ?_) running.safe
      rw [if_pos rfl]
      refine keeping_write (.putPending x) naming (fun _ => ?_) fun safe => ?_
      · have off := running.installed_off settled newer room image (Or.inl ⟨rfl, x_ne⟩)
          b.interrupted id
        have cut := running.installed_off settled newer room image (Or.inl ⟨rfl, x_ne⟩)
          true fun calm => by cases calm
        exact (keeping_espRestart off fun _ => off_cutOff running.staged cut).mono
          fun _ b' after => accounted_off after.2 after.1
      · have plain : r = false := by
          cases r with
          | false => rfl
          | true => simp [safeCut] at safe
        exact off_cutOff running.staged
          (running.installed_off settled newer room image (Or.inr ⟨running.unnamed newer, plain⟩)
            true fun calm => by cases calm)

theorem keeping_checkNow (build : Build) {fetched : Option Manifest} (inRollout : Bool)
    (downloaded : Option Version) (names : ∀ manifest ∈ fetched, manifest.firmwareVersion = x)
    (running : Running p x base b) (position : b.position = .running) :
    Keeping p x base (checkNow p build fetched inRollout downloaded) (fun _ => Accounted p x base) b := by
  have unchanged := accounted_running running position
  unfold checkNow
  refine holds_get_bind ?_
  refine holds_ite (fun _ => holds_pure unchanged) fun verified => ?_
  cases fetched with
  | none => exact holds_pure unchanged
  | some manifest =>
      have named : manifest.firmwareVersion = x := names manifest rfl
      refine (keeping_evaluateManifest build inRollout named running).bind fun updates b' checked => ?_
      refine holds_ite (fun updating => ?_) fun _ => ?_
      · have even := checked.toRunning.even
        have below := checked.below updating
        refine holds_tell_bind (fun _ => ?_) ?_
        · show base + failures p x b' ≤ 2
          omega
        cases downloaded with
        | none => exact holds_pure (accounted_running checked.toRunning (checked.position.trans position))
        | some version =>
            rw [named]
            exact keeping_applyImage checked.toRunning (checked.same.trans (by simpa using verified))
              (checked.newer updating) (checked.named_ne updating) below rfl
      · exact holds_pure (accounted_running checked.toRunning (checked.position.trans position))

/-! ## The confirmation -/

/-- The account of a board that has just marked its image: for the boot counter it counts as
interrupted until the version is confirmed. -/
theorem Running.mark (running : Running p x base b) (ram : Ram) (unverified : ram.pendingVerify = false) :
    Running p x base
      { b with running := ⟨b.running.image, .valid⟩, ram := ram, interrupted := true } := by
  have still : reckoning b = false := running.reckoned
  have sound : Sound p x base
      { b with running := ⟨b.running.image, .valid⟩, ram := ram, interrupted := true } := by
    refine ⟨running.named, running.cap, running.selected, running.staged, nofun,
      fun app => ⟨nofun, (running.settled app).2⟩, fun _ => nofun, ?_, nofun, running.single,
      running.labelled, nofun⟩
    rintro slots (verify | pending)
    · cases verify
    · obtain ⟨previous, returns⟩ := running.trial slots (Or.inr pending)
      exact ⟨previous, returns.there, returns.bootable, returns.valid, returns.older⟩
  refine ⟨sound.account still running.even (fun named reports => running.room (Or.inr ⟨named, reports⟩))
    nofun nofun, running.awaited, running.planrst, running.rbk, ?_, fun verify => ?_⟩
  · simp [Board.isPendingVerify, unverified]
  · rw [unverified] at verify
    cases verify

/-- The version is confirmed. -/
theorem Running.confirmed (running : Running p x base { b with interrupted := true })
    (settled : b.running.state ≠ .pendingVerify) (bootfails : Option Nat) (interrupted : Bool)
    (counted : interrupted = false → b.interrupted = false ∧ bootfails = none)
    (quiet : b.interrupted = false → p = .esp8266 →
      b.downloads.countP Image.Mislabelled = b.mislabelled.length) :
    Running p x base
      { b with
        store := { b.store with pending := none, bootfails := bootfails }
        interrupted := interrupted } := by
  have sound : Sound p x base
      { b with
        store := { b.store with pending := none, bootfails := bootfails }
        interrupted := interrupted } := by
    refine ⟨Or.inl rfl, running.cap, running.selected, running.staged, running.bootable, running.settled,
      running.plain, ?_, fun verify => absurd verify settled, running.single, running.labelled,
      fun calm => quiet (counted calm).1⟩
    rintro slots (verify | ⟨named, -⟩)
    · exact absurd verify settled
    · cases named
  refine ⟨sound.account (reckoning_none rfl) running.even nofun running.unannounced
    fun _ calm => ⟨fun _ => ?_, nofun⟩, nofun, running.planrst, running.rbk, running.verify, running.confirm⟩
  show bootfails.getD 0 = 0
  rw [(counted calm).2]
  rfl

theorem keeping_confirmGood (running : Running p x base { b with interrupted := true })
    (position : b.position = .running) (settled : b.running.state ≠ .pendingVerify)
    (quiet : b.interrupted = false → p = .esp8266 →
      b.downloads.countP Image.Mislabelled = b.mislabelled.length)
    (counter : p = .esp32 true → b.interrupted = false → b.store.pending = none → b.store.getBootFails = 0) :
    Keeping p x base confirmGood
      (fun _ b' => Running p x base b' ∧ b'.position = .running ∧ b'.ram = b.ram) b := by
  unfold confirmGood
  refine holds_get_bind (holds_ite (fun named => ?_) fun unnamed => ?_)
  · refine keeping_write .removePending nofun (fun _ => ?_) fun safe => ?_
    · refine keeping_write .removeBootFails nofun (fun _ => ?_) fun safe => ?_
      · exact holds_pure ⟨running.confirmed settled none b.interrupted (fun calm => ⟨calm, rfl⟩) quiet, position,
          rfl⟩
      · exact (running.confirmed settled b.store.bootfails true nofun quiet).toAccount.cutOff
          (safeCut_reckoned safe)
    · exact running.toAccount.cutOff (safeCut_reckoned safe)
  · have empty : b.store.pending = none := by
      obtain none | ⟨named, x_ne⟩ := running.named
      · exact none
      · have named : b.store.pending = some x := named
        simp [Store.getPending, named, x_ne] at unnamed
    have sound : Sound p x base b :=
      ⟨running.named, running.cap, running.selected, running.staged, running.bootable, running.settled,
        running.plain, running.trial, running.pending, running.single, running.labelled, quiet⟩
    refine holds_pure ⟨⟨sound.account (reckoning_none empty) running.even ?_ running.unannounced fun app calm => ?_,
      running.awaited, running.planrst, running.rbk, running.verify, running.confirm⟩, position, rfl⟩
    · intro named
      rw [empty] at named
      cases named
    · refine ⟨counter app calm, fun named => ?_⟩
      rw [empty] at named
      cases named

theorem keeping_tryMarkValid (heartbeatSeen : Bool) (uptimeMs : UInt32) (marked : Bool)
    (running : Running p x base b) (position : b.position = .running) :
    Keeping p x base (tryMarkValid heartbeatSeen uptimeMs marked) (fun _ => Accounted p x base) b := by
  have unchanged := accounted_running running position
  unfold tryMarkValid
  refine holds_get_bind (holds_ite (fun _ => holds_pure unchanged) fun _ => ?_)
  refine holds_ite (fun _ => holds_pure unchanged) fun _ => ?_
  have ends : ∀ b', Running p x base b' ∧ b'.position = .running ∧ b'.ram.pendingVerify = false →
      Keeping p x base (do
        let b ← get
        tell (.setRam { b.ram with confirmPending := false })) (fun _ => Accounted p x base) b' := by
    rintro b' ⟨running, position, unverified⟩
    refine holds_get_bind (keeping_note _ nofun (holds_pure ?_))
    refine accounted_running (running.memory b'.position _ b'.planned rfl fun verify => ?_) position
    rw [unverified] at verify
    cases verify
  cases verify : b.ram.pendingVerify with
  | true =>
      rw [if_pos rfl]
      have good : Keeping p x base confirmGood _
          { b with running := ⟨b.running.image, .valid⟩, ram := { b.ram with pendingVerify := false } } :=
        keeping_confirmGood (running.mark { b.ram with pendingVerify := false } rfl) position nofun
          running.counted fun app quiet => (running.counter app quiet).1
      refine keeping_note .markValid nofun (keeping_note _ nofun (good.bind fun _ b' after => ?_))
      exact ends b' ⟨after.1, after.2.1, by rw [after.2.2]⟩
  | false =>
      rw [if_neg Bool.false_ne_true]
      refine (keeping_confirmGood running.interrupt position (running.verified verify) running.counted
        fun app quiet => (running.counter app quiet).1).bind fun _ b' after => ?_
      exact ends b' ⟨after.1, after.2.1, by rw [after.2.2, verify]⟩

/-! ## Giving an image up -/

theorem decideRollbackGuard_pending {pendingVerify heartbeatSeen : Bool} {uptimeMs deadlineMs : UInt32}
    (rollback : decideRollbackGuard pendingVerify heartbeatSeen uptimeMs deadlineMs = .rollback) :
    pendingVerify = true := by
  cases pendingVerify with
  | true => rfl
  | false => cases rollback

/-- An image that is verified is on a board with app rollback, and has a predecessor. -/
theorem Running.predecessor (running : Running p x base b) (verify : b.running.state = .pendingVerify) :
    p = .esp32 true ∧ ∃ previous, ReturnsTo p x b.running b.other previous := by
  have app : p = .esp32 true := by
    by_contra plain
    exact running.plain plain verify
  exact ⟨app, running.trial (by rw [app]; nofun) (Or.inl verify)⟩

theorem Running.verifies (running : Running p x base b) (verify : b.ram.pendingVerify = true) :
    b.running.state = .pendingVerify := by
  rw [running.verify] at verify
  exact of_decide_eq_true (Bool.and_eq_true_iff.mp verify).2

/-- The deadline passes: the image is marked invalid and the board restarts. -/
theorem Running.rejected_off (running : Running p x base b) (verify : b.running.state = .pendingVerify) :
    Off p x base (({ b with running := ⟨b.running.image, .invalid⟩ } : Board).reset false) := by
  obtain ⟨rfl, previous, returns⟩ := running.predecessor verify
  have valid : previous.state = .valid := returns.valid rfl
  have boots := boots_back (b := { b with running := ⟨b.running.image, .invalid⟩ }) returns.there valid
    running.selected (Or.inr rfl) false
  have booted := booted_given running.toAccount verify running.reckoned returns
  unfold Off
  rw [boots]
  exact ⟨booted.toAccount.memory .starting {} false, booted.first⟩

/-- The board once `notePlannedRestart` is over. -/
def Board.announced (b : Board) : Board :=
  { b with store := { b.store with planrst := b.ram.confirmPending } }

/-- The next start after a planned restart. -/
theorem Running.planned_off (running : Running p x base b) : Off p x base (b.announced.reset true) := by
  have sound : Sound p x base b.announced :=
    running.toSound.store { b.store with planrst := b.ram.confirmPending } rfl running.cap
  unfold Off
  by_cases verify : b.running.state = .pendingVerify
  · obtain ⟨rfl, previous, returns⟩ := running.predecessor verify
    have confirms : b.ram.confirmPending = true :=
      running.confirm (running.verify.trans (by simp [Board.isPendingVerify, verify]))
    have booted : Booted (.esp32 true) x base (b.announced.back previous b.lost) := by
      refine booted_back sound returns running.awaited running.even
        (fun named => running.room (Or.inr ⟨named, running.awaited named⟩))
        (fun quiet => (running.counter rfl quiet).1) (fun debt => ?_) fun _ => rfl
      rw [due_announced confirms] at debt
      cases debt
    rw [boots_back (b := b.announced) returns.there (returns.valid rfl) sound.selected (Or.inl verify)]
    exact ⟨booted.toAccount.memory .starting {} true, booted.first⟩
  · rw [boots_same sound fun _ => verify]
    have account : Account p x base b.announced :=
      running.toAccount.markers running.reckoned b.ram.confirmPending b.store.rbk
        fun still => absurd still verify
    exact account.again (fun _ => verify) true

theorem keeping_notePlannedRestart (running : Running p x base b) :
    Keeping p x base notePlannedRestart (fun _ b' => b' = b.announced) b := by
  unfold notePlannedRestart
  refine holds_get_bind (holds_ite (fun confirms => ?_) fun unconfirmed => ?_)
  · refine keeping_write .putPlanned nofun (fun _ => holds_pure ?_) running.safe
    unfold Board.announced
    rw [confirms]
    rfl
  · refine holds_pure ?_
    have unconfirmed : b.ram.confirmPending = false := by simpa using unconfirmed
    unfold Board.announced
    rw [unconfirmed, ← running.planrst]

theorem keeping_loopGuard (build : Build) (heartbeatSeen : Bool) (verifyMs : UInt32)
    (running : Running p x base b) (position : b.position = .running) :
    Keeping p x base (loopGuard p build heartbeatSeen verifyMs) (fun _ => Accounted p x base) b := by
  have unchanged := accounted_running running position
  unfold loopGuard
  refine holds_get_bind (holds_ite (fun _ => holds_pure unchanged) fun _ => ?_)
  refine holds_ite (fun _ => holds_pure unchanged) fun rollback => ?_
  refine holds_ite (fun back => ?_) fun _ => ?_
  · have verify := running.verifies (decideRollbackGuard_pending (Decidable.not_not.mp rollback))
    exact keeping_note .markInvalid nofun (keeping_note (.reset false) nofun (holds_pure
      (accounted_off (running.rejected_off verify) rfl)))
  · exact keeping_note _ nofun (holds_pure
      (accounted_running (running.memory b.position _ b.planned rfl running.confirm) position))

theorem keeping_restartToApply (running : Running p x base b) :
    Keeping p x base restartToApply (fun _ => Accounted p x base) b := by
  refine (keeping_notePlannedRestart running).bind fun _ b' same => ?_
  subst same
  exact keeping_note (.reset true) nofun (holds_pure (accounted_off running.planned_off rfl))

/-! ## Whole runs -/

theorem keeping_whileRunning {program : Prog Unit} (accounted : Accounted p x base b)
    (keeps : Running p x base b → b.position = .running →
      Keeping p x base program (fun _ => Accounted p x base) b) :
    Keeping p x base (whileRunning program) (fun _ => Accounted p x base) b :=
  holds_get_bind (holds_ite (fun position => keeps (accounted.running position) position)
    fun _ => holds_pure accounted)

/-- Every manifest that was fetched names this version. -/
def Event.Names (x : Text) : Event → Prop
  | .check (some manifest) _ _ => manifest.firmwareVersion = x
  | _ => True

instance (x : Text) : DecidablePred (Event.Names x) := fun event =>
  match event with
  | .check (some manifest) _ _ => inferInstanceAs (Decidable (manifest.firmwareVersion = x))
  | .check none _ _ => .isTrue trivial
  | .boot => .isTrue trivial
  | .tryMarkValid _ _ _ => .isTrue trivial
  | .loopGuard _ _ => .isTrue trivial
  | .restartToApply => .isTrue trivial
  | .crash => .isTrue trivial
  | .powerLoss => .isTrue trivial

theorem keeping_serve (build : Build) {event : Event} (names : event.Names x)
    (accounted : Accounted p x base b) :
    Keeping p x base (event.serve p build) (fun _ => Accounted p x base) b := by
  cases event with
  | boot =>
      exact holds_get_bind (holds_ite (fun position => keeping_boot (accounted.off position))
        fun _ => holds_pure accounted)
  | check fetched inRollout downloaded =>
      refine keeping_whileRunning accounted fun running position =>
        keeping_checkNow build inRollout downloaded (fun manifest fetches => ?_) running position
      obtain rfl := fetches
      exact names
  | tryMarkValid heartbeatSeen uptimeMs marked =>
      exact keeping_whileRunning accounted (keeping_tryMarkValid heartbeatSeen uptimeMs marked)
  | loopGuard heartbeatSeen verifyMs =>
      exact keeping_whileRunning accounted (keeping_loopGuard build heartbeatSeen verifyMs)
  | restartToApply =>
      exact keeping_whileRunning accounted fun running _ => keeping_restartToApply running
  | crash =>
      exact keeping_whileRunning accounted fun running _ =>
        keeping_note (.reset false) nofun (holds_pure (accounted_off running.crash rfl))
  | powerLoss =>
      refine keeping_whileRunning accounted fun running _ =>
        keeping_note .powerLoss nofun (holds_pure (accounted_off ?_ rfl))
      show Off p x base b.powerLoss
      rw [powerLoss_eq running.staged]
      exact running.crash

/-- The law of the account over any run. -/
theorem runAll_accounted (build : Build) {events : List (Event × List Fate)}
    (names : ∀ event ∈ events, event.1.Names x) (accounted : Accounted p x base b)
    (meets : ∀ step ∈ stepsAll p build b events, Meets p step) :
    (∀ step ∈ stepsAll p build b events, Roomy p x base step) ∧
      Accounted p x base (runAll p build b events) := by
  refine sessions_hold (fun event member s accounted => ?_) accounted meets
  exact keeping_serve build (names event member) accounted

end FryFirmware.Strikes
