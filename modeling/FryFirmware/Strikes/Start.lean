import FryFirmware.Strikes.LedgerProperties
import Mathlib.Data.List.Basic
import Mathlib.Tactic.Common

/-!
# The account over a start

`init` finds a debt or none, enters it, and leaves the account even. It is interrupted
only where the next start finds the same debt, or none after the entry.
-/

set_option autoImplicit false

namespace FryFirmware.Strikes

open Lib
open Lib.Program (get put tell)
open Config (Text)

variable {p : Platform} {x : Text} {base : Nat} {b : Board} {α : Type}

/-! ## Programs that keep the account -/

/-- A download begins only below the permanent strikes. -/
def Roomy (p : Platform) (x : Text) (base : Nat) (step : Step Board Action) : Prop :=
  step.action = .fetch → base + failures p x step.before ≤ 2

abbrev Keeping (p : Platform) (x : Text) (base : Nat) (program : Prog α) (post : α → Board → Prop)
    (b : Board) : Prop :=
  program.Holds (Action.apply p) (Meets p) (Roomy p x base) (fun b' => Off p x base b'.cutOff) post b

theorem keeping_put (action : Action) {rest : Bool → Prog α} {post : α → Board → Prop}
    (quiet : action ≠ .fetch)
    (took : Meets p ⟨b, action, .took⟩ → Keeping p x base (rest true) post (action.apply p b))
    (cut : safeCut p b action = true → Off p x base b.cutOff) :
    Keeping p x base (put action >>= rest) post b :=
  holds_put_bind (fun meets => ⟨fun fetch => absurd fetch quiet, took meets⟩)
    (fun meets => absurd rfl meets.1)
    fun meets => ⟨fun fetch => absurd fetch quiet, cut (meets.2.2 rfl)⟩

theorem keeping_write (action : Action) {rest : Unit → Prog α} {post : α → Board → Prop}
    (quiet : action ≠ .fetch)
    (took : Meets p ⟨b, action, .took⟩ → Keeping p x base (rest ()) post (action.apply p b))
    (cut : safeCut p b action = true → Off p x base b.cutOff) :
    Keeping p x base ((do let _ ← put action : Prog Unit) >>= rest) post b :=
  keeping_put action quiet took cut

theorem keeping_note (action : Action) {rest : Unit → Prog α} {post : α → Board → Prop}
    (quiet : action ≠ .fetch) (next : Keeping p x base (rest ()) post (action.apply p b)) :
    Keeping p x base (tell action >>= rest) post b :=
  fun _ => ⟨fun fetch => absurd fetch quiet, next⟩

/-- What a safe cut says of a pending image. -/
theorem safeCut_reckoned {action : Action} (safe : safeCut p b action = true) :
    reckoning b = true → b.running.state ≠ .pendingVerify := by
  intro reckons
  have first : (!reckoning b || b.running.state ≠ .pendingVerify) = true := by
    unfold safeCut at safe
    exact (Bool.and_eq_true_iff.mp safe).1
  simpa [reckons] using first

theorem Account.safe (account : Account p x base b) {action : Action}
    (safe : safeCut p b action = true) : Off p x base b.cutOff :=
  account.interrupt.cutOff (safeCut_reckoned safe)

/-! ## The markers -/

theorem Account.markers (account : Account p x base b) (still : reckoning b = false)
    (planrst rbk : Bool) (unannounced : b.running.state = .pendingVerify → planrst = false) :
    Account p x base { b with store := { b.store with planrst := planrst, rbk := rbk } } :=
  (account.toSound.store { b.store with planrst := planrst, rbk := rbk } rfl account.cap).account still
    (account.clear (due_of_reckoning still))
    (fun named reports => account.room (Or.inr ⟨named, reports⟩)) unannounced account.counter

/-- The state in which `init` has read and removed the markers. -/
def marked (p : Platform) (b : Board) : Board :=
  { b with
    store := { b.store with planrst := false, rbk := false }
    ram :=
      { b.ram with
        rolledBack := b.lastInvalid p
        pendingVerify := b.isPendingVerify p
        confirmPending := b.isPendingVerify p
        plannedRestart := b.store.planrst
        counterRolledBack := b.store.rbk } }

theorem safeCut_announced (safe : safeCut p b .removeRolledBack = true)
    (planned : b.ram.plannedRestart = true) : reckoning b = false := by
  cases reckons : reckoning b with
  | false => rfl
  | true => simp [safeCut, reckons, planned] at safe

theorem keeping_readMarkers (account : Account p x base b) :
    Keeping p x base (readMarkers p) (fun _ b' => b' = marked p b) b := by
  have read := account.memory b.position (marked p b).ram b.planned
  rcases b with ⟨⟨pending, bootfails, badver, badn, planrst, rbk⟩, running, other⟩
  refine holds_get_bind (keeping_note _ nofun ?_)
  dsimp only
  cases planrst with
  | true =>
      rw [if_pos rfl]
      refine keeping_write .removePlanned nofun (fun _ => ?_) read.safe
      cases rbk with
      | true =>
          rw [if_pos rfl]
          refine keeping_write .removeRolledBack nofun (fun _ => holds_pure rfl) fun safe => ?_
          have still := safeCut_announced safe rfl
          exact (read.markers still false true fun _ => rfl).safe safe
      | false =>
          rw [if_neg Bool.false_ne_true]
          exact holds_pure rfl
  | false =>
      rw [if_neg Bool.false_ne_true]
      cases rbk with
      | true =>
          rw [if_pos rfl]
          exact keeping_write .removeRolledBack nofun (fun _ => holds_pure rfl) read.safe
      | false =>
          rw [if_neg Bool.false_ne_true]
          exact holds_pure rfl

/-! ## No other version -/

/-- Where no other version is pending, nothing is left to enter. -/
theorem Account.running (account : Account p x base b) (still : reckoning b = false) :
    Running p x base (marked p b) := by
  have unowed : Account p x base (marked p b) :=
    (account.markers still false false fun _ => rfl).memory b.position (marked p b).ram b.planned
  refine ⟨unowed, fun named => ?_, rfl, rfl, rfl, fun verify => verify⟩
  by_contra other
  have reckons := unowed.toSound.reckoning_iff.mpr ⟨named, other⟩
  have still : reckoning (marked p b) = false := still
  rw [still] at reckons
  cases reckons

theorem Running.attempt (running : Running p x base b) (named : b.store.pending = some x) (count : Nat)
    (ram : Ram) (verify : ram.pendingVerify = b.ram.pendingVerify) (confirm : ram.confirmPending = true) :
    Running p x base { b with store := { b.store with bootfails := some count }, ram := ram } := by
  have sound : Sound p x base { b with store := { b.store with bootfails := some count }, ram := ram } :=
    (running.toSound.store { b.store with bootfails := some count } rfl running.cap).memory
      b.position ram b.planned
  refine ⟨sound.account running.reckoned running.even (fun named reports => running.room (Or.inr ⟨named, reports⟩))
    running.unannounced fun app quiet => ⟨fun empty => ?_, (running.counter app quiet).2⟩,
    running.awaited, running.planrst, running.rbk, verify.trans running.verify, fun _ => confirm⟩
  have empty : b.store.pending = none := empty
  rw [named] at empty
  cases empty

/-! ## The boot counter -/

/-- The next start after the boot counter gave the running image up. -/
theorem Running.counted_off {r : Bool} (running : Running (.esp32 r) x base b) (plain : r = false)
    (named : b.store.pending = some x) {previous : Slot}
    (returns : ReturnsTo (.esp32 r) x b.running b.other previous) (bootfails : Option Nat) (interrupted : Bool) :
    Off (.esp32 r) x base
      (({ b with
        store := { b.store with rbk := true, bootfails := bootfails }
        other := some ⟨previous.image, .new⟩
        bootOther := true
        lost := b.running.image :: b.lost
        interrupted := interrupted } : Board).reset false) := by
  subst plain
  have reports := running.awaited named
  have older : ¬ previous.image.Reports x := returns.older reports
  have x_ne : x ≠ [] := by
    obtain none | ⟨_, x_ne⟩ := running.named
    · rw [named] at none
      cases none
    · exact x_ne
  have even : strikesOf x b.store = base + b.lost.countP (Image.Reports x) := running.even
  refine ⟨⟨⟨running.named, running.cap, rfl, running.staged, nofun, nofun, fun _ => nofun, ?_, nofun, nofun,
    running.labelled, nofun⟩, fun _ => ?_, fun clear => ?_, fun _ => ?_, nofun, nofun⟩, nofun⟩
  · rintro - (verify | ⟨-, back⟩)
    · cases verify
    · exact absurd back older
  · show strikesOf x b.store + 1 = base + (b.running.image :: b.lost).countP (Image.Reports x)
    rw [List.countP_cons_of_pos (by simpa using reports), even]
    omega
  · have back : x ≠ previous.image.version.val := fun same => older same.symm
    simp [due, reckoning, Board.boots, bootSlots, Board.reset, Slot.abort, Slot.start, Board.lastInvalid,
      Store.getPending, named, x_ne, back, running.planrst] at clear
  · exact running.room (Or.inr ⟨named, reports⟩)

theorem keeping_espRestart (off : Off p x base (b.reset false))
    (cut : safeCut p b (.reset false) = true → Off p x base b.cutOff) :
    Keeping p x base espRestart (fun _ b' => b'.position = .off ∧ Off p x base b') b :=
  keeping_write (.reset false) nofun (fun _ => holds_pure ⟨rfl, off⟩) cut

/-- A rollback by the boot counter gives the pending image up, or forgets it. -/
theorem keeping_manualRollback (running : Running p x base b) (named : b.store.pending = some x)
    (interrupted : p = .esp32 true → b.interrupted = true) :
    Keeping p x base (manualRollback p) (fun _ b' => b'.position = .off ∧ Off p x base b') b := by
  refine holds_get_bind ?_
  cases p with
  | esp8266 =>
      rw [if_neg (by simp [Board.hasOther])]
      have forgotten : ∀ bootfails, Account .esp8266 x base
          { b with store := { b.store with pending := none, bootfails := bootfails } } := fun bootfails =>
        (running.toSound.forget { b.store with pending := none, bootfails := bootfails } rfl rfl
          fun verify => absurd verify (running.plain nofun)).account (reckoning_none rfl) running.even
          nofun running.unannounced nofun
      refine keeping_write .removePending nofun (fun _ => ?_) running.safe
      refine keeping_write .removeBootFails nofun (fun _ => ?_) (forgotten _).safe
      have still := (forgotten none).off fun reckons => by simp [reckoning_none] at reckons
      exact keeping_espRestart still (forgotten none).safe
  | esp32 r =>
      obtain ⟨previous, returns⟩ := running.trial nofun (Or.inr ⟨named, running.awaited named⟩)
      rw [if_pos (by simp [Board.hasOther, returns.there])]
      have announced := running.toAccount.markers running.reckoned b.store.planrst true running.unannounced
      refine keeping_write .putRolledBack nofun (fun _ => ?_) running.safe
      refine keeping_write .setBoot nofun (fun meets => ?_) announced.safe
      have unplanned : b.planned = false := (meets.2.1 rfl rfl).1
      have quiet : Platform.esp32 r = .esp32 true → b.interrupted = false := (meets.2.1 rfl rfl).2
      have plain : r = false := by
        cases r with
        | false => rfl
        | true => simp [interrupted rfl] at quiet
      have gone := running.counted_off plain named returns
      have after : (Action.setBoot.apply (.esp32 r) (Action.putRolledBack.apply (.esp32 r) b)) =
          { b with
            store := { b.store with rbk := true }
            other := some ⟨previous.image, .new⟩
            bootOther := true
            lost := b.running.image :: b.lost } := by
        simp only [Action.apply, returns.there, Board.giveUp]
        rw [if_neg (by simp [unplanned])]
        rfl
      rw [after]
      refine keeping_write .removeBootFails nofun (fun _ => ?_) fun _ => ?_
      · exact keeping_espRestart (gone none b.interrupted) fun _ => off_cutOff running.staged (gone none true)
      · exact off_cutOff running.staged (gone b.store.bootfails true)

/-- What `init` leaves: the account of a board that runs, or that is to start again. -/
def Begun (p : Platform) (x : Text) (base : Nat) (returns : Bool) (b : Board) : Prop :=
  if returns then Running p x base b else b.position = .off ∧ Off p x base b

theorem keeping_awaitConfirmation (running : Running p x base b) (named : b.store.pending = some x)
    (first : p = .esp32 true → b.interrupted = false → b.store.getBootFails = 0) :
    Keeping p x base (awaitConfirmation p) (Begun p x base) b := by
  refine holds_get_bind (keeping_note _ nofun ?_)
  have read := running.toAccount.memory b.position { b.ram with confirmPending := true } b.planned
  have tried := running.attempt named (incrementByte b.store.getBootFails)
    { b.ram with confirmPending := true } rfl rfl
  refine keeping_write (.putBootFails _) nofun (fun _ => ?_) read.safe
  refine holds_ite (fun limit => ?_) fun _ => holds_pure tried
  refine (keeping_manualRollback tried named fun app => ?_).bind fun _ b' after => holds_pure after
  show b.interrupted = true
  cases quiet : b.interrupted with
  | true => rfl
  | false => simp [first app quiet, incrementByte, shouldRollBack, OTA_BOOT_FAIL_LIMIT] at limit

/-! ## Another version -/

/-- Another version runs than the pending one, and `init` has read the markers. -/
structure Settling (p : Platform) (x : Text) (base : Nat) (b : Board) : Prop extends Sound p x base b where
  reckons : reckoning b = true
  planrst : b.store.planrst = false
  rbk : b.store.rbk = false
  rolledBack : b.ram.rolledBack = b.lastInvalid p
  verify : b.ram.pendingVerify = b.isPendingVerify p
  confirm : b.ram.pendingVerify = true → b.ram.confirmPending = true

/-- The strike, if one was due, is entered. -/
structure Entered (p : Platform) (x : Text) (base : Nat) (b : Board) : Prop extends Settling p x base b where
  even : strikesOf x b.store = base + failures p x b

theorem Settling.interrupt (settling : Settling p x base b) :
    Settling p x base { b with interrupted := true } :=
  ⟨settling.toSound.interrupt, settling.reckons, settling.planrst, settling.rbk, settling.rolledBack,
    settling.verify, settling.confirm⟩

theorem Settling.note (settling : Settling p x base b) (firstCheck : Bool) :
    Settling p x base { b with ram := { b.ram with firstCheckAfterRollback := firstCheck } } :=
  ⟨settling.toSound.memory b.position { b.ram with firstCheckAfterRollback := firstCheck } b.planned,
    settling.reckons, settling.planrst, settling.rbk, settling.rolledBack, settling.verify, settling.confirm⟩

/-- The strikes change. -/
theorem Settling.strikes (settling : Settling p x base b) (badver : Option Text) (badn : Option Nat)
    (cap : strikesOf x { b.store with badver := badver, badn := badn } ≤ max 3 base) :
    Settling p x base { b with store := { b.store with badver := badver, badn := badn } } :=
  ⟨settling.toSound.store { b.store with badver := badver, badn := badn } rfl cap, settling.reckons,
    settling.planrst, settling.rbk, settling.rolledBack, settling.verify, settling.confirm⟩

/-- What is due at a start is now what persists. -/
theorem Settling.due_eq (settling : Settling p x base b) : due p b = persists p b := by
  simp [due, persists, settling.reckons, settling.planrst, settling.rbk, settling.rolledBack]

theorem Settling.safe (settling : Settling p x base b)
    (debt : persists p b = true →
      strikesOf x b.store + 1 = base + failures p x b ∧ strikesOf x b.store ≤ 2)
    (clear : persists p b = false → strikesOf x b.store = base + failures p x b) {action : Action}
    (safe : safeCut p b action = true) : Off p x base b.cutOff := by
  have same : due p b = persists p b := settling.due_eq
  obtain ⟨-, other⟩ := settling.toSound.reckoning_iff.mp settling.reckons
  refine Account.cutOff ⟨settling.toSound.interrupt, fun owed => ?_, fun even => ?_, ?_,
    fun _ => settling.planrst, nofun⟩ (safeCut_reckoned safe)
  · exact (debt (same.symm.trans owed)).1
  · exact clear (same.symm.trans even)
  · rintro (owed | ⟨-, reports⟩)
    · exact (debt (same.symm.trans owed)).2
    · exact absurd reports other

/-- The pending version is forgotten after its strike. -/
theorem Entered.forget (entered : Entered p x base b) (bootfails : Option Nat)
    (counter : p = .esp32 true → b.interrupted = false → bootfails.getD 0 = 0) :
    Running p x base { b with store := { b.store with pending := none, bootfails := bootfails } } := by
  obtain ⟨-, other⟩ := entered.toSound.reckoning_iff.mp entered.reckons
  have sound := entered.toSound.forget { b.store with pending := none, bootfails := bootfails } rfl rfl
    fun _ => other
  exact ⟨sound.account (reckoning_none rfl) entered.even nofun (fun _ => entered.planrst)
    fun app quiet => ⟨fun _ => counter app quiet, nofun⟩, nofun, entered.planrst, entered.rbk, entered.verify,
    entered.confirm⟩

theorem keeping_forget (entered : Entered p x base b) :
    Keeping p x base (do
      clearOtaPending
      clearOtaBootFails) (fun _ => Running p x base) b := by
  refine keeping_write .removePending nofun (fun _ => ?_) fun safe => ?_
  · refine keeping_write .removeBootFails nofun (fun _ => ?_) fun safe => ?_
    · exact holds_pure (entered.forget none fun _ _ => rfl)
    · have interrupted : Entered p x base { b with interrupted := true } :=
        ⟨entered.toSettling.interrupt, entered.even⟩
      exact (interrupted.forget b.store.bootfails nofun).toAccount.cutOff (safeCut_reckoned safe)
  · refine entered.toSettling.safe (fun persisting => ?_) (fun _ => entered.even) safe
    simp [safeCut, entered.reckons, persisting] at safe

/-! ## The strike -/

theorem nextStrikeCount_counts {s : Store} (x_ne : x ≠ []) (room : strikesOf x s ≤ 2) :
    nextStrikeCount s.getBadVer s.getBadN x false = (strikesOf x s + 1, true) := by
  unfold strikesOf at room ⊢
  by_cases same : s.badver = some x
  · rw [if_pos same] at room ⊢
    have counts : incrementByte s.getBadN = s.getBadN + 1 := if_pos (by omega)
    simp [nextStrikeCount, Store.getBadVer, same, x_ne, counts]
  · rw [if_neg same]
    have other : ¬ (s.getBadVer ≠ [] ∧ s.getBadVer = x) := by
      rintro ⟨named, rfl⟩
      cases badver : s.badver with
      | none => simp [Store.getBadVer, badver] at named
      | some y => simp [Store.getBadVer, badver] at same
    simp [nextStrikeCount, x_ne, other]

theorem nextStrikeCount_announced (badver : Text) (badn : Nat) :
    nextStrikeCount badver badn x true = (badn, false) := by
  simp [nextStrikeCount]

theorem Settling.named_ne (settling : Settling p x base b) : x ≠ [] := by
  obtain ⟨named, -⟩ := settling.toSound.reckoning_iff.mp settling.reckons
  obtain empty | ⟨-, x_ne⟩ := settling.named
  · rw [named] at empty
    cases empty
  · exact x_ne

theorem keeping_setOtaStrikes (settling : Settling p x base b)
    (debt : strikesOf x b.store + 1 = base + failures p x b) (room : strikesOf x b.store ≤ 2) :
    Keeping p x base (setOtaStrikes x (strikesOf x b.store + 1)) (fun _ => Entered p x base) b := by
  have stored : ∀ badn, strikesOf x { b.store with badver := some x, badn := badn } = badn.getD 0 :=
    fun _ => if_pos rfl
  have most : strikesOf x b.store + 1 ≤ max 3 base :=
    Nat.le_trans (Nat.succ_le_succ room) (Nat.le_max_left 3 base)
  unfold setOtaStrikes
  rw [if_pos settling.named_ne]
  refine keeping_put (.putBadVer x) nofun (fun _ => ?_) fun safe => ?_
  · refine keeping_put (.putBadN _) nofun (fun _ => holds_pure ?_) fun safe => ?_
    · have entered := settling.strikes (some x) (some (strikesOf x b.store + 1))
        (Nat.le_trans (Nat.le_of_eq (stored _)) most)
      exact ⟨entered, (stored _).trans debt⟩
    · have written : (if persists p b then b.store.getBadN + 1 else b.store.getBadN) =
          strikesOf x b.store + 1 := of_decide_eq_true (Bool.and_eq_true_iff.mp safe).2
      have below : b.store.getBadN ≤ strikesOf x b.store + 1 := by
        split at written <;> omega
      have half := settling.strikes (some x) b.store.badn
        (Nat.le_trans (Nat.le_of_eq (stored _)) (Nat.le_trans below most))
      refine half.safe (fun persisting => ?_) (fun gone => ?_) safe
      · have persisting : persists p b = true := persisting
        rw [if_pos persisting] at written
        have fewer : b.store.getBadN ≤ 2 := by omega
        exact ⟨(congrArg (· + 1) (stored _)).trans (written.trans debt),
          Nat.le_trans (Nat.le_of_eq (stored _)) fewer⟩
      · have gone : persists p b = false := gone
        rw [if_neg (by simp [gone])] at written
        exact (stored _).trans (written.trans debt)
  · have persisting : persists p b = true := (Bool.and_eq_true_iff.mp safe).2
    exact settling.safe (fun _ => ⟨debt, room⟩) (fun gone => by simp [persisting] at gone) safe

theorem keeping_recordStrike (settling : Settling p x base b)
    (debt : strikesOf x b.store + 1 = base + failures p x b) (room : strikesOf x b.store ≤ 2) :
    Keeping p x base (recordStrike x false) (fun _ => Entered p x base) b := by
  unfold recordStrike
  refine holds_get_bind ?_
  rw [nextStrikeCount_counts settling.named_ne room]
  dsimp only
  rw [if_pos rfl]
  refine (keeping_setOtaStrikes settling debt room).bind fun _ b' entered => holds_get_bind ?_
  exact keeping_note _ nofun (holds_pure ⟨entered.toSettling.note true, entered.even⟩)

theorem keeping_recordStrike_announced :
    Keeping p x base (recordStrike x true) (fun _ b' => b' = b) b := by
  unfold recordStrike
  refine holds_get_bind ?_
  rw [nextStrikeCount_announced]
  exact holds_pure rfl

theorem shouldRecordBadVersion_other {version : Text} {rolledBack : Bool} (x_ne : x ≠ [])
    (different : x ≠ version) : shouldRecordBadVersion x version rolledBack = rolledBack := by
  cases rolledBack <;> simp [shouldRecordBadVersion, x_ne, different]

theorem shouldRejectManifestVersion_other {version : Text} {rolledBack planned : Bool} (x_ne : x ≠ [])
    (version_ne : version ≠ []) (different : x ≠ version) :
    shouldRejectManifestVersion x version rolledBack planned = !(rolledBack || planned) := by
  cases rolledBack <;> cases planned <;> simp [shouldRejectManifestVersion, x_ne, version_ne, different]

/-- By what `init` has read, a strike is to be recorded. -/
def owes (p : Platform) (b : Board) : Bool :=
  !b.ram.plannedRestart && (p = .esp8266 || (b.ram.rolledBack || b.ram.counterRolledBack))

/-- The start in another version than the pending one. -/
theorem keeping_settleStrikes (settling : Settling p x base b)
    (debt : owes p b = true →
      strikesOf x b.store + 1 = base + failures p x b ∧ strikesOf x b.store ≤ 2)
    (clear : owes p b = false → strikesOf x b.store = base + failures p x b) :
    Keeping p x base (settleStrikes p x) (fun _ => Running p x base) b := by
  obtain ⟨named, other⟩ := settling.toSound.reckoning_iff.mp settling.reckons
  have different : x ≠ b.running.image.version.val := fun same => other same.symm
  have strike : owes p b = true →
      Keeping p x base (recordStrike x false) (fun _ => Entered p x base) b := fun owed =>
    keeping_recordStrike settling (debt owed).1 (debt owed).2
  have entered : owes p b = false → Entered p x base b := fun nothing => ⟨settling, clear nothing⟩
  unfold settleStrikes
  refine holds_get_bind ?_
  dsimp only
  rw [shouldRecordBadVersion_other settling.named_ne different,
    shouldRejectManifestVersion_other settling.named_ne b.running.image.version.property different]
  unfold owes at strike entered
  cases rolledBack : b.ram.rolledBack || b.ram.counterRolledBack with
  | true =>
      rw [rolledBack] at strike entered
      rw [if_pos rfl]
      cases planned : b.ram.plannedRestart with
      | true =>
          rw [planned] at entered
          refine keeping_recordStrike_announced.bind fun _ b' same => ?_
          subst same
          rw [if_neg (by simp)]
          exact keeping_forget (entered rfl)
      | false =>
          rw [planned] at strike
          refine (strike (by simp)).bind fun _ b' entered => ?_
          rw [if_neg (by simp)]
          exact keeping_forget entered
  | false =>
      rw [rolledBack] at strike entered
      rw [if_neg Bool.false_ne_true]
      cases planned : b.ram.plannedRestart with
      | true =>
          rw [planned] at entered
          rw [if_neg (by simp)]
          exact keeping_forget (entered rfl)
      | false =>
          rw [planned] at strike entered
          by_cases single : p = .esp8266
          · rw [if_pos (by simp [single])]
            exact (strike (by simp [single])).bind fun _ b' entered => keeping_forget entered
          · rw [if_neg (by simp [single])]
            exact keeping_forget (entered (by simp [single]))

/-! ## The whole start -/

theorem keeping_init (booted : Booted p x base b) :
    Keeping p x base (init p) (Begun p x base) b := by
  refine (keeping_readMarkers booted.toAccount).bind fun _ b' same => holds_get_bind ?_
  subst same
  cases still : reckoning b with
  | false =>
      have running := booted.toAccount.running still
      obtain empty | ⟨named, x_ne⟩ := booted.named
      · have empty : (marked p b).store.getPending = [] := by simp [marked, Store.getPending, empty]
        rw [if_pos empty]
        exact holds_pure running
      · have pending : (marked p b).store.getPending = x := by simp [marked, Store.getPending, named]
        rw [pending, if_neg x_ne, if_pos (running.awaited named).symm]
        exact keeping_awaitConfirmation running named fun app quiet =>
          booted.first app quiet named (running.awaited named)
  | true =>
      obtain ⟨named, other⟩ := booted.toSound.reckoning_iff.mp still
      have pending : (marked p b).store.getPending = x := by simp [marked, Store.getPending, named]
      have settling : Settling p x base (marked p b) :=
        ⟨(booted.toSound.store { b.store with planrst := false, rbk := false } rfl booted.cap).memory
          b.position (marked p b).ram b.planned, still, rfl, rfl, rfl, rfl, fun verify => verify⟩
      have same : owes p (marked p b) = due p b := by
        simp [owes, due, marked, still, Bool.or_assoc]
      rw [pending, if_neg settling.named_ne, if_neg fun same => other same.symm]
      refine (keeping_settleStrikes settling (fun owed => ?_) fun nothing => ?_).bind
        fun _ b' running => holds_pure running
      · have owed : due p b = true := same.symm.trans owed
        exact ⟨booted.debt owed, booted.room (Or.inl owed)⟩
      · exact booted.clear (same.symm.trans nothing)

end FryFirmware.Strikes
