import FryFirmware.Config.NvsStore
import Mathlib.Tactic.Common

/-!
# What the absence memory knows

A name enters the memory when a read-only open of it fails, for whatever reason, and
leaves it when the namespace is seen to exist. Every step keeps the memory truthful
exactly if it is honest: no existing namespace is refused to a reader, and no remembered
one is created by an open that then fails.
-/

set_option autoImplicit false

namespace FryFirmware.Config.Nvs

/-! ## The flash -/

namespace Flash

theorem has_eq (flash : Flash) (name : Name) : flash.has name = true ↔ name ∈ flash.map Prod.fst := by
  simp [has]

theorem has_create (flash : Flash) (name other : Name) :
    (flash.create name).has other = true ↔ flash.has other = true ∨ other = name := by
  unfold create
  split
  · constructor
    · exact Or.inl
    · rintro (here | rfl)
      · exact here
      · assumption
  · rw [has_eq, has_eq]
    simp

theorem has_change (flash : Flash) (name other : Name) (edit : Entries → Entries) :
    (flash.change name edit).has other = flash.has other := by
  have names : (flash.change name edit).map Prod.fst = flash.map Prod.fst := by
    unfold change
    rw [List.map_map]
    refine List.map_congr_left fun space _ => ?_
    simp only [Function.comp_apply]
    split <;> rfl
  rw [Bool.eq_iff_iff, has_eq, has_eq, names]

end Flash

/-! ## The memory -/

namespace NvsAbsentCache

/-- No name takes two slots. -/
def Distinct (cache : NvsAbsentCache) : Prop :=
  ∀ i j name, cache.slots i = some name → cache.slots j = some name → i = j

theorem find_some {cache : NvsAbsentCache} {name : Name} {i : Fin kCapacity}
    (found : cache.find name = some i) : name ≠ [] ∧ cache.slots i = some name := by
  unfold find at found
  split at found
  · cases found
  · exact ⟨‹_›, by simpa using List.find?_some found⟩

theorem isAbsent_iff (cache : NvsAbsentCache) (name : Name) :
    cache.isAbsent name = true ↔ name ≠ [] ∧ ∃ i, cache.slots i = some name := by
  constructor
  · intro absent
    obtain ⟨i, found⟩ := Option.isSome_iff_exists.mp absent
    exact ⟨(find_some found).1, i, (find_some found).2⟩
  · rintro ⟨named, i, here⟩
    rw [isAbsent, find, if_neg named, List.find?_isSome]
    exact ⟨i, List.mem_finRange i, by simpa using here⟩

theorem cacheable_ne_nil {name : Name} (fits : cacheable name = true) : name ≠ [] := by
  rintro rfl
  cases fits

theorem distinct_noteAbsent {cache : NvsAbsentCache} (distinct : cache.Distinct) (name : Name) :
    (cache.noteAbsent name).Distinct := by
  unfold noteAbsent
  split
  · cases found : cache.find name with
    | some i =>
        rw [← (find_some found).2]
        simpa using distinct
    | none =>
        have missing : ∀ i, cache.slots i ≠ some name := by
          intro i here
          have absent := (isAbsent_iff cache name).mpr ⟨cacheable_ne_nil ‹_›, i, here⟩
          rw [isAbsent, found] at absent
          cases absent
        intro i j other first second
        simp only [Function.update_apply] at first second
        split at first <;> split at second
        · exact ‹i = _›.trans ‹j = _›.symm
        · exact absurd (first ▸ second) (missing j)
        · exact absurd (second ▸ first) (missing i)
        · exact distinct i j other first second
  · exact distinct

theorem isAbsent_noteAbsent {cache : NvsAbsentCache} {name other : Name}
    (absent : (cache.noteAbsent name).isAbsent other = true) :
    cache.isAbsent other = true ∨ other = name ∧ cacheable name = true := by
  rw [isAbsent_iff] at absent ⊢
  obtain ⟨named, i, here⟩ := absent
  unfold noteAbsent at here
  split at here
  · rename_i fits
    split at here <;> simp only [Function.update_apply] at here <;> split at here
    · exact Or.inr ⟨(Option.some.inj here).symm, fits⟩
    · exact Or.inl ⟨named, i, here⟩
    · exact Or.inr ⟨(Option.some.inj here).symm, fits⟩
    · exact Or.inl ⟨named, i, here⟩
  · exact Or.inl ⟨named, i, here⟩

theorem isAbsent_noteAbsent_self {cache : NvsAbsentCache} {name : Name} (fits : cacheable name = true) :
    (cache.noteAbsent name).isAbsent name = true := by
  refine (isAbsent_iff _ _).mpr ⟨cacheable_ne_nil fits, ?_⟩
  unfold noteAbsent
  rw [if_pos fits]
  cases cache.find name with
  | some i => exact ⟨i, Function.update_self ..⟩
  | none => exact ⟨cache.next, Function.update_self ..⟩

theorem slots_notePresent {cache : NvsAbsentCache} {name other : Name} {i : Fin kCapacity}
    (here : (cache.notePresent name).slots i = some other) : cache.slots i = some other := by
  unfold notePresent at here
  split at here
  · exact here
  · simp only [Function.update_apply] at here
    split at here
    · cases here
    · exact here

theorem distinct_notePresent {cache : NvsAbsentCache} (distinct : cache.Distinct) (name : Name) :
    (cache.notePresent name).Distinct :=
  fun i j other first second => distinct i j other (slots_notePresent first) (slots_notePresent second)

theorem isAbsent_notePresent {cache : NvsAbsentCache} {name other : Name}
    (absent : (cache.notePresent name).isAbsent other = true) : cache.isAbsent other = true := by
  obtain ⟨named, i, here⟩ := (isAbsent_iff _ _).mp absent
  exact (isAbsent_iff _ _).mpr ⟨named, i, slots_notePresent here⟩

theorem isAbsent_notePresent_self {cache : NvsAbsentCache} (distinct : cache.Distinct) (name : Name) :
    (cache.notePresent name).isAbsent name = false := by
  refine Bool.eq_false_iff.mpr fun absent => ?_
  obtain ⟨i, found⟩ := Option.isSome_iff_exists.mp (isAbsent_notePresent absent)
  obtain ⟨_, j, here⟩ := (isAbsent_iff _ _).mp absent
  have same := distinct i j name (find_some found).2 (slots_notePresent here)
  simp [notePresent, found, same] at here

end NvsAbsentCache

/-! ## Steps -/

/-- The memory holds every name once, and only names of namespaces that do not exist. -/
structure Truthful (system : System) : Prop where
  distinct : system.cache.Distinct
  absent : ∀ name, system.cache.isAbsent name = true → system.flash.has name = false

/-- An open that tells the memory nothing wrong: a reader is not refused a namespace
that exists, and an open that fails does not create a namespace remembered as absent. -/
def Honest (system : System) : Op → Prop
  | .begin handle (some name) true answer =>
      system.flash.has name = true → NvsAbsentCache.cacheable name = true →
        (system.handles handle).prefs.started = false ∧ answer.granted = true
  | .begin handle (some name) false answer =>
      (system.handles handle).prefs.started = false → answer.granted = false → answer.created = true →
        system.cache.isAbsent name = false
  | _ => True

instance (system : System) : (op : Op) → Decidable (Honest system op)
  | .begin handle (some name) true answer =>
      inferInstanceAs (Decidable (system.flash.has name = true → NvsAbsentCache.cacheable name = true →
        (system.handles handle).prefs.started = false ∧ answer.granted = true))
  | .begin handle (some name) false answer =>
      inferInstanceAs (Decidable ((system.handles handle).prefs.started = false → answer.granted = false →
        answer.created = true → system.cache.isAbsent name = false))
  | .begin _ none _ _ => isTrue trivial
  | .finish _ => isTrue trivial
  | .edit _ _ _ => isTrue trivial
  | .read _ _ => isTrue trivial

theorem Truthful.exists_not_absent {system : System} (truthful : Truthful system) {name : Name}
    (present : system.flash.has name = true) : system.cache.isAbsent name = false :=
  Bool.eq_false_iff.mpr fun absent => by
    rw [truthful.absent name absent] at present
    cases present

/-- `Preferences::begin` for reading: what it does to the flash, and when it succeeds. -/
theorem prefs_begin_reader (prefs : Preferences) (flash : Flash) (name : Name) (answer : OpenAnswer) :
    (prefs.begin flash name true answer).2 =
      (flash, !prefs.started && (flash.has name && answer.granted)) := by
  unfold Preferences.begin
  cases prefs.started with
  | true => rfl
  | false => cases flash.has name && answer.granted <;> rfl

theorem prefs_begin_writer (prefs : Preferences) (flash : Flash) (name : Name) (answer : OpenAnswer) :
    (prefs.begin flash name false answer).2 =
      if prefs.started then (flash, false)
      else if answer.granted then (flash.create name, true)
      else (if answer.created then flash.create name else flash, false) := by
  unfold Preferences.begin
  cases prefs.started <;> cases answer.granted <;> rfl

/-- A read-only `begin`, by what it leaves in the memory. -/
theorem begin_reader (store : NvsStore) (cache : NvsAbsentCache) (flash : Flash) (name : Name)
    (answer : OpenAnswer) :
    (store.begin cache flash (some name) true answer).2 =
      if cache.isAbsent name then (cache, flash, false)
      else if !store.prefs.started && (flash.has name && answer.granted) then
        (cache.notePresent name, flash, true)
      else (cache.noteAbsent name, flash, false) := by
  have opened := prefs_begin_reader store.prefs flash name answer
  unfold NvsStore.begin
  by_cases absent : cache.isAbsent name = true
  · simp [absent]
  · rcases result : store.prefs.begin flash name true answer with ⟨prefs, flash', success⟩
    rw [result] at opened
    obtain ⟨rfl, rfl⟩ := Prod.mk.inj opened
    simp only [absent, Bool.and_false, Bool.false_eq_true, if_false, result]
    cases !store.prefs.started && (flash'.has name && answer.granted) <;> rfl

theorem begin_writer (store : NvsStore) (cache : NvsAbsentCache) (flash : Flash) (name : Name)
    (answer : OpenAnswer) :
    (store.begin cache flash (some name) false answer).2 =
      if store.prefs.started then (cache, flash, false)
      else if answer.granted then (cache.notePresent name, flash.create name, true)
      else (cache, if answer.created then flash.create name else flash, false) := by
  have opened := prefs_begin_writer store.prefs flash name answer
  unfold NvsStore.begin
  simp only [Bool.false_and, Bool.false_eq_true, if_false]
  rcases result : store.prefs.begin flash name false answer with ⟨prefs, flash', success⟩
  rw [result] at opened
  cases started : store.prefs.started with
  | true =>
      rw [started, if_pos rfl] at opened
      obtain ⟨rfl, rfl⟩ := Prod.mk.inj opened
      rfl
  | false =>
      rw [started] at opened
      cases granted : answer.granted with
      | true =>
          rw [granted] at opened
          obtain ⟨rfl, rfl⟩ := Prod.mk.inj opened
          rfl
      | false =>
          rw [granted] at opened
          obtain ⟨rfl, rfl⟩ := Prod.mk.inj opened
          rfl

/-- The memory is truthful after a change of flash or memory that tells it nothing wrong. -/
theorem Truthful.of_subset {system next : System} (truthful : Truthful system)
    (distinct : next.cache.Distinct)
    (absent : ∀ name, next.cache.isAbsent name = true →
      (system.cache.isAbsent name = true ∨ system.flash.has name = false) ∧
        next.flash.has name = system.flash.has name) : Truthful next := by
  refine ⟨distinct, fun name here => ?_⟩
  obtain ⟨before | missing, same⟩ := absent name here
  · rw [same, truthful.absent name before]
  · rw [same, missing]

/-- A reader's open keeps the memory truthful exactly if no existing namespace is
refused. -/
theorem begin_reader_truthful_iff {system : System} (truthful : Truthful system) (handle : Nat) (name : Name)
    (answer : OpenAnswer) :
    Truthful (step system (.begin handle (some name) true answer)) ↔
      Honest system (.begin handle (some name) true answer) := by
  have opened := begin_reader (system.handles handle) system.cache system.flash name answer
  constructor
  · intro next present fits
    by_contra refused
    have known := truthful.exists_not_absent present
    have failed : (!(system.handles handle).prefs.started && (system.flash.has name && answer.granted)) = false := by
      simpa [present] using refused
    rw [known, failed] at opened
    simp only [Bool.false_eq_true, if_false] at opened
    have absent := next.absent name
    simp only [step, opened] at absent
    rw [absent (NvsAbsentCache.isAbsent_noteAbsent_self fits)] at present
    cases present
  · intro honest
    split at opened
    · refine truthful.of_subset ?_ fun other here => ?_
      · simpa only [step, opened] using truthful.distinct
      · simp only [step, opened] at here ⊢
        exact ⟨Or.inl here, trivial⟩
    · split at opened
      · refine truthful.of_subset ?_ fun other here => ?_
        · simpa only [step, opened] using NvsAbsentCache.distinct_notePresent truthful.distinct name
        · simp only [step, opened] at here ⊢
          exact ⟨Or.inl (NvsAbsentCache.isAbsent_notePresent here), trivial⟩
      · rename_i refused
        refine truthful.of_subset ?_ fun other here => ?_
        · simpa only [step, opened] using NvsAbsentCache.distinct_noteAbsent truthful.distinct name
        · simp only [step, opened] at here ⊢
          refine ⟨?_, trivial⟩
          obtain before | ⟨rfl, fits⟩ := NvsAbsentCache.isAbsent_noteAbsent here
          · exact Or.inl before
          · refine Or.inr (Bool.eq_false_iff.mpr fun present => refused ?_)
            obtain ⟨unstarted, granted⟩ := honest present fits
            simp [unstarted, present, granted]

/-- A writer's open keeps the memory truthful exactly if it does not create, and then
fail to open, a namespace remembered as absent. -/
theorem begin_writer_truthful_iff {system : System} (truthful : Truthful system) (handle : Nat) (name : Name)
    (answer : OpenAnswer) :
    Truthful (step system (.begin handle (some name) false answer)) ↔
      Honest system (.begin handle (some name) false answer) := by
  have opened := begin_writer (system.handles handle) system.cache system.flash name answer
  constructor
  · intro next unstarted refused created
    rw [unstarted, refused, created] at opened
    simp only [Bool.false_eq_true, if_false, if_true] at opened
    refine Bool.eq_false_iff.mpr fun known => ?_
    have missing := next.absent name
    simp only [step, opened] at missing
    have present := (Flash.has_create system.flash name name).mpr (Or.inr rfl)
    rw [missing known] at present
    cases present
  · intro honest
    split at opened
    · refine truthful.of_subset ?_ fun other here => ?_
      · simpa only [step, opened] using truthful.distinct
      · simp only [step, opened] at here ⊢
        exact ⟨Or.inl here, trivial⟩
    · rename_i unstarted
      split at opened
      · refine truthful.of_subset ?_ fun other here => ?_
        · simpa only [step, opened] using NvsAbsentCache.distinct_notePresent truthful.distinct name
        · simp only [step, opened] at here ⊢
          refine ⟨Or.inl (NvsAbsentCache.isAbsent_notePresent here), ?_⟩
          rw [Bool.eq_iff_iff, Flash.has_create]
          refine or_iff_left ?_
          rintro rfl
          rw [NvsAbsentCache.isAbsent_notePresent_self truthful.distinct] at here
          cases here
      · rename_i refused
        refine truthful.of_subset ?_ fun other here => ?_
        · simpa only [step, opened] using truthful.distinct
        · simp only [step, opened] at here ⊢
          refine ⟨Or.inl here, ?_⟩
          split
          · rename_i created
            rw [Bool.eq_iff_iff, Flash.has_create]
            refine or_iff_left ?_
            rintro rfl
            have forgotten := honest (by simpa using unstarted) (by simpa using refused) created
            rw [forgotten] at here
            cases here
          · rfl

theorem noteWritten_distinct (store : NvsStore) {cache : NvsAbsentCache} (distinct : cache.Distinct) :
    (store.noteWritten cache).Distinct := by
  unfold NvsStore.noteWritten
  split
  · split
    · exact NvsAbsentCache.distinct_notePresent distinct _
    · exact distinct
  · exact distinct

theorem noteWritten_absent (store : NvsStore) {cache : NvsAbsentCache} {name : Name}
    (absent : (store.noteWritten cache).isAbsent name = true) : cache.isAbsent name = true := by
  unfold NvsStore.noteWritten at absent
  split at absent
  · split at absent
    · exact NvsAbsentCache.isAbsent_notePresent absent
    · exact absent
  · exact absent

theorem edit_has (prefs : Preferences) (flash : Flash) (change : Entries → Entries) (done : Bool) (name : Name) :
    (prefs.edit flash change done).has name = flash.has name := by
  unfold Preferences.edit
  split
  · exact Flash.has_change ..
  · rfl

/-- Every step keeps the memory truthful exactly if it is honest. -/
theorem step_truthful_iff {system : System} (truthful : Truthful system) (op : Op) :
    Truthful (step system op) ↔ Honest system op := by
  cases op with
  | begin handle name readOnly answer =>
      cases name with
      | none => exact ⟨fun _ => trivial, fun _ => ⟨truthful.distinct, truthful.absent⟩⟩
      | some name =>
          cases readOnly with
          | true => exact begin_reader_truthful_iff truthful handle name answer
          | false => exact begin_writer_truthful_iff truthful handle name answer
  | finish handle => exact ⟨fun _ => trivial, fun _ => ⟨truthful.distinct, truthful.absent⟩⟩
  | edit handle change done =>
      refine ⟨fun _ => trivial, fun _ => truthful.of_subset ?_ fun name here => ?_⟩
      · exact noteWritten_distinct _ truthful.distinct
      · exact ⟨Or.inl (noteWritten_absent _ here), edit_has ..⟩
  | read handle key => exact ⟨fun _ => trivial, fun _ => truthful⟩

/-! ## Runs -/

/-- Every step is honest in the state it is made in. -/
def AllHonest : System → List Op → Prop
  | _, [] => True
  | system, op :: ops => Honest system op ∧ AllHonest (step system op) ops

instance allHonestDecidable : (system : System) → (ops : List Op) → Decidable (AllHonest system ops)
  | _, [] => isTrue trivial
  | system, op :: ops =>
      have := allHonestDecidable (step system op) ops
      inferInstanceAs (Decidable (Honest system op ∧ AllHonest (step system op) ops))

theorem truthful_boot (flash : Flash) : Truthful { flash } := by
  refine ⟨fun _ _ _ first _ => (nomatch first), fun name absent => ?_⟩
  obtain ⟨_, i, here⟩ := (NvsAbsentCache.isAbsent_iff _ _).mp absent
  cases here

theorem run_truthful {system : System} (truthful : Truthful system) {ops : List Op}
    (honest : AllHonest system ops) : Truthful (run system ops) := by
  induction ops generalizing system with
  | nil => exact truthful
  | cons op ops ih => exact ih ((step_truthful_iff truthful op).mpr honest.1) honest.2

end FryFirmware.Config.Nvs
