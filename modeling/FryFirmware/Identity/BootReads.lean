import FryFirmware.Config.NvsStoreProperties
import FryFirmware.Identity.KeyPolicy
import Mathlib.Tactic.Common

/-!
# The boot decision over the NVS store

The reads at the head of `ensureMinerKey`, each through a handle of its own, and what
the absence memory makes of them. A board that sees neither key nor salt makes new ones.
-/

set_option autoImplicit false

namespace FryFirmware.Identity

open Config Config.Nvs

/-- `nvs_open`'s answers to the three reads. -/
structure BootAnswers where
  key : OpenAnswer := {}
  salt : OpenAnswer := {}
  source : OpenAnswer := {}

/-- The action of `ensureMinerKey(outKey, outKeyLen)`, with what `outKey` held before. -/
def bootAction (model : KeyModel) (outKey : Text) (outKeyLen : Nat) (answers : BootAnswers) (system : System) :
    System × BootKeyAction :=
  let key := getMinerKey outKeyLen answers.key system
  let stored := key.2.2.getD outKey
  let action := decideBootKey model key.2.1 stored
  if action = .wait ∨ action = .mint then
    let salt := getSalt answers.salt key.1
    let source := getKeySrc answers.source salt.1
    (source.1, decideBootKeySalted model key.2.1 stored salt.2.isSome (source.2 = text "user"))
  else (key.1, action)

/-- The action on the entries of the namespace `fry`. -/
def storedAction (model : KeyModel) (outKey : Text) (outKeyLen : Nat) (entries : Entries) : BootKeyAction :=
  let key := readMinerKey outKeyLen (some entries)
  let stored := key.2.getD outKey
  let action := decideBootKey model key.1 stored
  if action = .wait ∨ action = .mint then
    decideBootKeySalted model key.1 stored (readSalt (some entries)).isSome
      (readKeySrc (some entries) = text "user")
  else action

/-! ## One read -/

variable {system : System} {name : Name} {answer : OpenAnswer}

/-- Reading changes nothing in the flash. -/
theorem withFresh_flash {α : Type} (reader : Option Entries → α) :
    (withFresh name answer reader system).1.flash = system.flash := by
  have opened := begin_reader {} system.cache system.flash name answer
  unfold withFresh
  dsimp only
  split at opened
  · rw [opened]
  · split at opened <;> rw [opened]

theorem withFresh_truthful {α : Type} (truthful : Truthful system) (reader : Option Entries → α)
    (granted : system.flash.has name = true → answer.granted = true) :
    Truthful (withFresh name answer reader system).1 := by
  let fresh : System := { system with handles := fun _ => {} }
  have before : Truthful fresh := ⟨truthful.distinct, truthful.absent⟩
  have kept := (begin_reader_truthful_iff before 0 name answer).mpr fun present _ => ⟨rfl, granted present⟩
  exact ⟨kept.distinct, kept.absent⟩

/-- With a truthful memory a reader sees the entries of the namespace, or that there is
none. -/
theorem withFresh_reads {α : Type} (truthful : Truthful system) {reader : Option Entries → α}
    (nothing : reader none = reader (some []))
    (granted : system.flash.has name = true → answer.granted = true) :
    (withFresh name answer reader system).2 = reader (some (system.flash.entries name)) := by
  unfold withFresh NvsStore.begin
  cases present : system.flash.has name with
  | true =>
      have known := truthful.exists_not_absent present
      simp [known, Preferences.begin, present, granted present, NvsStore.view, Preferences.view]
  | false =>
      have empty : system.flash.entries name = [] := by
        unfold Flash.has at present
        unfold Flash.entries
        cases here : system.flash.lookup name with
        | none => rfl
        | some entries => simp [here] at present
      rw [empty, ← nothing]
      cases known : system.cache.isAbsent name with
      | true => simp [known, NvsStore.view]
      | false => simp [known, Preferences.begin, present, NvsStore.view]

/-! ## The decision -/

/-- With a truthful memory, and opens that find memory, the boot decides on what the
flash holds. -/
theorem bootAction_eq (truthful : Truthful system) (model : KeyModel) (outKey : Text) (outKeyLen : Nat)
    (answers : BootAnswers)
    (granted : system.flash.has (text "fry") = true →
      answers.key.granted = true ∧ answers.salt.granted = true ∧ answers.source.granted = true) :
    (bootAction model outKey outKeyLen answers system).2 =
      storedAction model outKey outKeyLen (system.flash.entries (text "fry")) := by
  have key : (getMinerKey outKeyLen answers.key system).2 = _ :=
    withFresh_reads truthful rfl fun present => (granted present).1
  let afterKey := (getMinerKey outKeyLen answers.key system).1
  have keyFlash : afterKey.flash = system.flash := withFresh_flash _
  have keyTruthful : Truthful afterKey :=
    withFresh_truthful truthful _ fun present => (granted present).1
  have salt : (getSalt answers.salt afterKey).2 = _ :=
    withFresh_reads keyTruthful rfl fun present => (granted (keyFlash ▸ present)).2.1
  let afterSalt := (getSalt answers.salt afterKey).1
  have saltFlash : afterSalt.flash = system.flash := (withFresh_flash _).trans keyFlash
  have saltTruthful : Truthful afterSalt :=
    withFresh_truthful keyTruthful _ fun present => (granted (keyFlash ▸ present)).2.1
  have source : (getKeySrc answers.source afterSalt).2 = _ :=
    withFresh_reads saltTruthful rfl fun present => (granted (saltFlash ▸ present)).2.2
  rw [keyFlash] at salt
  rw [saltFlash] at source
  unfold bootAction storedAction
  dsimp only
  rw [key]
  split
  · rw [salt, source]
  · rfl

/-- In every run whose opens are honest, the memory hides no namespace that exists, and
the boot decides on what the flash holds. -/
theorem run_hides_nothing {flash : Flash} {ops : List Op} (honest : AllHonest { flash } ops) :
    (∀ name, (run { flash } ops).cache.isAbsent name = true → (run { flash } ops).flash.has name = false) ∧
      ∀ model outKey outKeyLen (answers : BootAnswers),
        ((run { flash } ops).flash.has (text "fry") = true →
          answers.key.granted = true ∧ answers.salt.granted = true ∧ answers.source.granted = true) →
        (bootAction model outKey outKeyLen answers (run { flash } ops)).2 =
          storedAction model outKey outKeyLen ((run { flash } ops).flash.entries (text "fry")) := by
  have truthful := run_truthful (truthful_boot flash) honest
  exact ⟨truthful.absent, fun model outKey outKeyLen answers granted =>
    bootAction_eq truthful model outKey outKeyLen answers granted⟩

/-- A board with its key, its salt and the name of its network. -/
def provisioned : Flash :=
  [(text "fry", [(text "minerKey", .string (text "FEM-0123456789ABCDEF0123456789ABCDEF")),
      (text "salt", .blob (List.replicate 16 7))]),
    (text "fry_wifi", [(text "ssid", .string (text "home"))])]

/-- A poll of a namespace that is missing, its creation, and a poll of one that exists. -/
def honestOps : List Op :=
  [.begin 0 (some (text "fry_vpn")) true {}, .finish 0, .begin 1 (some (text "fry_vpn")) true {}, .finish 1,
    .begin 0 (some (text "fry_vpn")) false {}, .edit 0 (fun entries => entries) true, .finish 0,
    .begin 2 (some (text "fry")) true {}, .finish 2]

theorem run_hides_nothing_provisioned :
    (bootAction .deviceKeeps [] 40 {} (run { flash := provisioned } honestOps)).2 =
      storedAction .deviceKeeps [] 40 ((run { flash := provisioned } honestOps).flash.entries (text "fry")) :=
  have honest : AllHonest { flash := provisioned } honestOps := by decide +kernel
  (run_hides_nothing honest).2 _ _ _ _ fun _ => ⟨rfl, rfl, rfl⟩

/-- One read of the key for which `nvs_open` finds no memory. -/
def refusedRead : System :=
  run { flash := provisioned } [.begin 0 (some (text "fry")) true { granted := false }, .finish 0]

/-- After it the board, which holds a key and a salt, sees neither and makes new ones. -/
theorem refused_read_hides_key :
    ¬ (∀ name, refusedRead.cache.isAbsent name = true → refusedRead.flash.has name = false) ∧
      (bootAction .deviceKeeps [] 40 {} refusedRead).2 = .mint ∧
      storedAction .deviceKeeps [] 40 (refusedRead.flash.entries (text "fry")) = .keep := by
  refine ⟨fun hidden => ?_, ?_, ?_⟩
  · exact absurd (hidden (text "fry") (by decide +kernel)) (by decide +kernel)
  · decide +kernel
  · decide +kernel

end FryFirmware.Identity
