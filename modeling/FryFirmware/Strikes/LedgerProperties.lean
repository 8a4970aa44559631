import FryFirmware.Strikes.Ledger
import Mathlib.Data.List.Basic
import Mathlib.Tactic.Common

/-!
# The account over a reset

The bootloader boots the same image again, or gives the pending one up for the one
before it. Either way what it leaves owed is what has just failed.
-/

set_option autoImplicit false

namespace FryFirmware.Strikes

open Lib
open Lib.Program (get put tell)
open Config (Text)

variable {p : Platform} {x : Text} {base : Nat} {b : Board}

/-! ## What the bootloader does -/

theorem abort_settled {r : Bool} {s : Slot} (settled : r = true → s.state ≠ .pendingVerify) :
    s.abort r = s := by
  unfold Slot.abort
  exact if_neg fun ⟨app, pending⟩ => settled app pending

theorem start_settled {r : Bool} {s : Slot} (settled : r = true → s.state ≠ .new) :
    s.start r = s := by
  unfold Slot.start
  exact if_neg fun ⟨app, new⟩ => settled app new

/-- An image that is not pending is booted again. -/
theorem boots_same (sound : Sound p x base b) (stays : p = .esp32 true → b.running.state ≠ .pendingVerify)
    (planned : Bool) :
    (b.reset planned).boots p =
      { b with position := .starting, ram := {}, planned := planned } := by
  cases p with
  | esp8266 =>
      simp only [Board.boots, bootStaged, Board.reset, sound.staged]
  | esp32 r =>
      have running : b.running.abort r = b.running := abort_settled fun app => stays (by rw [app])
      have started : b.running.start r = b.running :=
        start_settled fun app => (sound.settled (by rw [app])).1
      have others : b.other.map (Slot.abort r) = b.other := by
        cases other : b.other with
        | none => rfl
        | some slot =>
            have same : slot.abort r = slot :=
              abort_settled fun app => (sound.settled (by rw [app])).2 slot other
            rw [Option.map_some, same]
      simp only [Board.boots, bootSlots, Board.reset, running, others, sound.selected]
      cases other : b.other with
      | none => simp [started]
      | some slot => simp [started, sound.bootable]

/-- One that is pending, or was marked invalid, is given up for the one before it. -/
theorem boots_back {previous : Slot} (other : b.other = some previous) (valid : previous.state = .valid)
    (selected : b.bootOther = false)
    (given : b.running.state = .pendingVerify ∨ b.running.state = .invalid) (planned : Bool) :
    (b.reset planned).boots (.esp32 true) =
      { b with
        running := previous
        other := some ⟨b.running.image, .invalid⟩
        position := .starting
        ram := {}
        planned := planned
        lost := if planned then b.lost else b.running.image :: b.lost } := by
  have aborted : b.running.abort true = ⟨b.running.image, .invalid⟩ := by
    rcases slot : b.running with ⟨image, state⟩
    rw [slot] at given
    obtain rfl | rfl := given <;> rfl
  have kept : previous.abort true = previous := abort_settled fun _ => by simp [valid]
  have started : previous.start true = previous := start_settled fun _ => by simp [valid]
  simp [Board.boots, bootSlots, Board.reset, Board.giveUp, other, aborted, kept, started, selected]

/-! ## States that differ in memory only -/

theorem Sound.memory (sound : Sound p x base b) (position : Position) (ram : Ram) (planned : Bool) :
    Sound p x base { b with position := position, ram := ram, planned := planned } :=
  ⟨sound.named, sound.cap, sound.selected, sound.staged, sound.bootable, sound.settled, sound.plain,
    sound.trial, sound.pending, sound.single, sound.labelled, sound.counted⟩

theorem Account.memory (account : Account p x base b) (position : Position) (ram : Ram) (planned : Bool) :
    Account p x base { b with position := position, ram := ram, planned := planned } :=
  ⟨account.toSound.memory position ram planned, account.debt, account.clear, account.room,
    account.unannounced, account.counter⟩

theorem Sound.interrupt (sound : Sound p x base b) : Sound p x base { b with interrupted := true } :=
  ⟨sound.named, sound.cap, sound.selected, sound.staged, sound.bootable, sound.settled, sound.plain,
    sound.trial, sound.pending, sound.single, sound.labelled, nofun⟩

theorem Account.interrupt (account : Account p x base b) :
    Account p x base { b with interrupted := true } :=
  ⟨account.toSound.interrupt, account.debt, account.clear, account.room, account.unannounced, nofun⟩

/-! ## Changes of the store -/

theorem Sound.store (sound : Sound p x base b) (s : Store) (pending : s.pending = b.store.pending)
    (cap : strikesOf x s ≤ max 3 base) : Sound p x base { b with store := s } := by
  refine ⟨?_, cap, sound.selected, sound.staged, sound.bootable, sound.settled, sound.plain, ?_, ?_,
    sound.single, sound.labelled, sound.counted⟩
  · show s.pending = none ∨ s.pending = some x ∧ x ≠ []
    rw [pending]
    exact sound.named
  · intro slots trial
    refine sound.trial slots ?_
    unfold OnTrial at trial ⊢
    rwa [← pending]
  · intro verify reports
    show s.pending = some x
    rw [pending]
    exact sound.pending verify reports

/-- The pending version is forgotten. -/
theorem Sound.forget (sound : Sound p x base b) (s : Store) (none : s.pending = none)
    (strikes : strikesOf x s = strikesOf x b.store)
    (unnamed : b.running.state = .pendingVerify → ¬ b.running.image.Reports x) :
    Sound p x base { b with store := s } := by
  refine ⟨Or.inl none, ?_, sound.selected, sound.staged, sound.bootable, sound.settled, sound.plain, ?_,
    fun verify reports => absurd reports (unnamed verify), sound.single, sound.labelled, sound.counted⟩
  · show strikesOf x s ≤ _
    rw [strikes]
    exact sound.cap
  · rintro slots (verify | ⟨named, _⟩)
    · exact sound.trial slots (Or.inl verify)
    · have named : s.pending = some x := named
      rw [none] at named
      cases named

/-! ## What is owed -/

theorem reckoning_none (none : b.store.pending = none) : reckoning b = false := by
  simp [reckoning, Store.getPending, none]

theorem reckoning_some (named : b.store.pending = some x) (x_ne : x ≠ []) :
    reckoning b = true ↔ ¬ b.running.image.Reports x := by
  have pending : b.store.getPending = x := by simp [Store.getPending, named]
  simp only [reckoning, pending, Bool.and_eq_true, decide_eq_true_eq]
  exact ⟨fun ⟨_, other⟩ reports => other reports.symm, fun other => ⟨x_ne, fun same => other same.symm⟩⟩

theorem due_of_reckoning (still : reckoning b = false) : due p b = false := by
  simp [due, still]

/-- Where no image is reckoned with, the strikes are the failures. -/
theorem Sound.account (sound : Sound p x base b) (still : reckoning b = false)
    (even : strikesOf x b.store = base + failures p x b)
    (room : b.store.pending = some x → b.running.image.Reports x → strikesOf x b.store ≤ 2)
    (unannounced : b.running.state = .pendingVerify → b.store.planrst = false)
    (counter : p = .esp32 true → b.interrupted = false →
      (b.store.pending = none → b.store.getBootFails = 0) ∧
        (b.store.pending = some x → b.running.image.Reports x → b.running.state = .pendingVerify)) :
    Account p x base b := by
  have nothing : due p b = false := due_of_reckoning still
  refine ⟨sound, fun debt => ?_, fun _ => even, ?_, unannounced, counter⟩
  · rw [nothing] at debt
    cases debt
  · rintro (debt | ⟨named, reports⟩)
    · rw [nothing] at debt
      cases debt
    · exact room named reports

theorem due_announced (planned : b.store.planrst = true) : due p b = false := by
  simp [due, planned]

/-- The running image is the pending one, if any is. -/
theorem Sound.reckoning_iff (sound : Sound p x base b) :
    reckoning b = true ↔ b.store.pending = some x ∧ ¬ b.running.image.Reports x := by
  obtain none | ⟨named, x_ne⟩ := sound.named
  · simp [reckoning_none none, none]
  · simp [reckoning_some named x_ne, named]

/-! ## The image before the pending one -/

/-- The slots after a bootloader gave the running image up. -/
def Board.back (b : Board) (previous : Slot) (lost : List Image) : Board :=
  { b with
    running := previous
    other := some ⟨b.running.image, .invalid⟩
    position := .starting
    ram := {}
    lost := lost }

theorem sound_back (sound : Sound (.esp32 true) x base b) {previous : Slot}
    (returns : ReturnsTo (.esp32 true) x b.running b.other previous)
    (awaited : b.store.pending = some x → b.running.image.Reports x) (lost : List Image) :
    Sound (.esp32 true) x base (b.back previous lost) := by
  have valid : previous.state = .valid := returns.valid rfl
  refine ⟨sound.named, sound.cap, sound.selected, sound.staged, ?_, fun _ => ⟨?_, ?_⟩, nofun, ?_, ?_,
    nofun, sound.labelled, nofun⟩
  · simp [Board.back, valid]
  · simp [Board.back, valid]
  · rintro _ ⟨rfl⟩
    simp
  · rintro _ (pending | ⟨named, reports⟩)
    · simp [Board.back, valid] at pending
    · exact absurd reports (returns.older (awaited named))
  · intro pending
    simp [Board.back, valid] at pending

/-- The start after the running image was given up, or left for a planned restart. -/
theorem booted_back (sound : Sound (.esp32 true) x base b) {previous : Slot}
    (returns : ReturnsTo (.esp32 true) x b.running b.other previous)
    (awaited : b.store.pending = some x → b.running.image.Reports x)
    (even : strikesOf x b.store = base + failures (.esp32 true) x b)
    (room : b.store.pending = some x → strikesOf x b.store ≤ 2)
    (counter : b.interrupted = false → b.store.pending = none → b.store.getBootFails = 0)
    {lost : List Image}
    (owed : due (.esp32 true) (b.back previous lost) = true →
      failures (.esp32 true) x (b.back previous lost) = failures (.esp32 true) x b + 1)
    (nothing : due (.esp32 true) (b.back previous lost) = false →
      failures (.esp32 true) x (b.back previous lost) = failures (.esp32 true) x b) :
    Booted (.esp32 true) x base (b.back previous lost) := by
  have valid : previous.state = .valid := returns.valid rfl
  refine ⟨⟨sound_back sound returns awaited lost, fun debt => ?_, fun clear => ?_, ?_, ?_, ?_⟩, ?_⟩
  · rw [owed debt]
    show strikesOf x b.store + 1 = _
    omega
  · rw [nothing clear]
    exact even
  · rintro (debt | ⟨named, _⟩)
    · have named : b.store.pending = some x := by
        obtain none | ⟨named, _⟩ := sound.named
        · have still : reckoning (b.back previous lost) = false := reckoning_none none
          rw [due_of_reckoning still] at debt
          cases debt
        · exact named
      exact room named
    · exact room named
  · intro pending
    simp [Board.back, valid] at pending
  · refine fun _ quiet => ⟨counter quiet, fun named reports => ?_⟩
    exact absurd reports (returns.older (awaited named))
  · exact fun _ _ named reports => absurd reports (returns.older (awaited named))

/-- An image that was given up is owed a strike, if it is the pending one. -/
theorem owes_given (sound : Sound (.esp32 true) x base b) {previous : Slot}
    (returns : ReturnsTo (.esp32 true) x b.running b.other previous)
    (awaited : b.store.pending = some x → b.running.image.Reports x)
    (named : b.running.image.Reports x → b.store.pending = some x)
    (unannounced : b.store.planrst = false) :
    (due (.esp32 true) (b.back previous (b.running.image :: b.lost)) = true ↔
        b.running.image.Reports x) ∧
      failures (.esp32 true) x (b.back previous (b.running.image :: b.lost)) =
        failures (.esp32 true) x b + if b.running.image.Reports x then 1 else 0 := by
  refine ⟨⟨fun debt => ?_, fun reports => ?_⟩, ?_⟩
  · obtain none | ⟨pending, _⟩ := sound.named
    · have still : reckoning (b.back previous (b.running.image :: b.lost)) = false :=
        reckoning_none none
      rw [due_of_reckoning still] at debt
      cases debt
    · exact awaited pending
  · obtain none | ⟨pending, x_ne⟩ := sound.named
    · rw [named reports] at none
      cases none
    · have back : reckoning (b.back previous (b.running.image :: b.lost)) = true :=
        (reckoning_some (b := b.back previous (b.running.image :: b.lost)) pending x_ne).mpr
          (returns.older reports)
      have planrst : (b.back previous (b.running.image :: b.lost)).store.planrst = false := unannounced
      have invalid : (b.back previous (b.running.image :: b.lost)).lastInvalid (.esp32 true) = true := by
        simp [Board.lastInvalid, Board.back]
      unfold due
      rw [back, planrst, invalid]
      simp
  · simp [failures, Board.back, List.countP_cons]

/-- A crash while the image is pending. -/
theorem booted_given (account : Account (.esp32 true) x base b)
    (pending : b.running.state = .pendingVerify) (reckoned : reckoning b = false) {previous : Slot}
    (returns : ReturnsTo (.esp32 true) x b.running b.other previous) :
    Booted (.esp32 true) x base (b.back previous (b.running.image :: b.lost)) := by
  have awaited : b.store.pending = some x → b.running.image.Reports x := by
    intro named
    by_contra other
    have reckons : reckoning b = true := account.toSound.reckoning_iff.mpr ⟨named, other⟩
    rw [reckoned] at reckons
    cases reckons
  have even := account.clear (due_of_reckoning reckoned)
  have named := account.pending pending
  obtain ⟨owed, count⟩ := owes_given account.toSound returns awaited named (account.unannounced pending)
  refine booted_back account.toSound returns awaited even
    (fun named => account.room (Or.inr ⟨named, awaited named⟩)) (fun quiet => (account.counter rfl quiet).1)
    (fun debt => ?_) fun clear => ?_
  · rw [count, if_pos (owed.mp debt)]
  · rw [count, if_neg fun reports => ?_, Nat.add_zero]
    rw [owed.mpr reports] at clear
    cases clear

/-! ## Resets -/

/-- A start of the same image. -/
theorem Account.again (account : Account p x base b) (stays : p = .esp32 true → b.running.state ≠ .pendingVerify)
    (planned : Bool) :
    Booted p x base { b with position := .starting, ram := {}, planned := planned } :=
  ⟨account.memory .starting {} planned,
    fun app quiet named reports => absurd ((account.counter app quiet).2 named reports) (stays app)⟩

/-- An unplanned reset leaves the account in order, unless it hits another pending image than the
one that is named. -/
theorem Account.off (account : Account p x base b)
    (reckoned : reckoning b = true → b.running.state ≠ .pendingVerify) : Off p x base (b.reset false) := by
  unfold Off
  by_cases given : p = .esp32 true ∧ b.running.state = .pendingVerify
  · obtain ⟨rfl, pending⟩ := given
    obtain ⟨previous, returns⟩ := account.trial nofun (Or.inl pending)
    have still : reckoning b = false := by
      cases reckons : reckoning b with
      | true => exact absurd pending (reckoned reckons)
      | false => rfl
    rw [boots_back returns.there (returns.valid rfl) account.selected (Or.inl pending)]
    have booted := booted_given account pending still returns
    exact ⟨booted.toAccount.memory .starting {} false, booted.first⟩
  · have stays : p = .esp32 true → b.running.state ≠ .pendingVerify := fun app pending =>
      given ⟨app, pending⟩
    rw [boots_same account.toSound stays]
    exact account.again stays false

theorem powerLoss_eq (staged : b.staged = none) : b.powerLoss = b.reset false := by
  unfold Board.powerLoss
  rw [show ({ b.reset false with staged := none } : Board) =
    { b.reset false with staged := b.staged } by rw [staged]]
  rfl

theorem off_cutOff (staged : b.staged = none)
    (off : Off p x base (({ b with interrupted := true } : Board).reset false)) : Off p x base b.cutOff := by
  unfold Board.cutOff
  rwa [powerLoss_eq staged]

/-- A power loss in the middle of an operation. -/
theorem Account.cutOff (account : Account p x base { b with interrupted := true })
    (reckoned : reckoning b = true → b.running.state ≠ .pendingVerify) : Off p x base b.cutOff :=
  off_cutOff account.staged (account.off reckoned)

theorem Running.reckoned (running : Running p x base b) : reckoning b = false := by
  cases reckons : reckoning b with
  | false => rfl
  | true =>
      obtain ⟨named, other⟩ := running.toSound.reckoning_iff.mp reckons
      exact absurd (running.awaited named) other

theorem Running.even (running : Running p x base b) : strikesOf x b.store = base + failures p x b :=
  running.clear (due_of_reckoning running.reckoned)

theorem Running.crash (running : Running p x base b) : Off p x base (b.reset false) :=
  running.toAccount.off fun reckons => by simp [running.reckoned] at reckons

end FryFirmware.Strikes
