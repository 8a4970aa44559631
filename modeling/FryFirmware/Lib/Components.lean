import FryFirmware.Lib.AtomicWrites
import Mathlib.Data.List.Basic
import Mathlib.Tactic.Common

/-!
# Programs of a component

A state with a component runs the programs of the component: `zoom` carries them
over, and `Holds.zoom` carries over what was proved of them. `Linked` is the law of
a whole run read as one list of steps, each beginning where the last one ended.
-/

set_option autoImplicit false

namespace FryFirmware.Lib

/-- A component `σ` of states `τ`, and what its actions `ι` are as actions `κ`. -/
structure Component (σ τ ι κ : Type) (apply : ι → σ → σ) (applyWhole : κ → τ → τ) where
  get : τ → σ
  set : τ → σ → τ
  action : ι → κ
  get_set : ∀ whole part, get (set whole part) = part
  set_set : ∀ whole part part', set (set whole part) part' = set whole part'
  set_get : ∀ whole, set whole (get whole) = whole
  acts : ∀ label whole, applyWhole (action label) whole = set whole (apply label (get whole))

namespace Component

variable {σ τ ι κ α : Type} {apply : ι → σ → σ} {applyWhole : κ → τ → τ}
variable (component : Component σ τ ι κ apply applyWhole)

/-- A program of the component, run on the whole state. -/
def zoom : Program σ ι α → Program τ κ α
  | .pure value => .pure value
  | .read next => .read fun whole => zoom (next (component.get whole))
  | .note label next => .note (component.action label) (zoom next)
  | .write label next => .write (component.action label) fun reported => zoom (next reported)

theorem zoom_only {among : ι → Prop} {wider : κ → Prop} {program : Program σ ι α}
    (only : program.Only among) (carried : ∀ label, among label → wider (component.action label)) :
    (component.zoom program).Only wider := by
  induction program with
  | pure value => trivial
  | read next ih => exact fun whole => ih _ (only _)
  | note label next ih => exact ⟨carried label only.1, ih only.2⟩
  | write label next ih => exact ⟨carried label only.1, fun reported => ih reported (only.2 reported)⟩

theorem acts_set (label : ι) (whole : τ) (part : σ) :
    applyWhole (component.action label) (component.set whole part) =
      component.set whole (apply label part) := by
  rw [component.acts, component.get_set, component.set_set]

theorem exec_zoom_set (program : Program σ ι α) (whole : τ) (part : σ) :
    (component.zoom program).exec applyWhole (component.set whole part) =
      (component.set whole (program.exec apply part).1, (program.exec apply part).2) := by
  induction program generalizing part with
  | pure value => rfl
  | read next ih =>
      show (component.zoom (next (component.get (component.set whole part)))).exec _ _ = _
      rw [component.get_set]
      exact ih part part
  | note label next ih =>
      show (component.zoom next).exec _ (applyWhole (component.action label) _) = _
      rw [component.acts_set]
      exact ih (apply label part)
  | write label next ih =>
      show (component.zoom (next true)).exec _ (applyWhole (component.action label) _) = _
      rw [component.acts_set]
      exact ih true (apply label part)

/-- The undisturbed run changes the component as it does alone, and nothing else. -/
theorem exec_zoom (program : Program σ ι α) (whole : τ) :
    (component.zoom program).exec applyWhole whole =
      (component.set whole (program.exec apply (component.get whole)).1,
        (program.exec apply (component.get whole)).2) := by
  have same := component.exec_zoom_set program whole (component.get whole)
  rwa [component.set_get] at same

/-- What holds of the executions of the component's program holds of the carried-over ones,
and the rest of the state stays as it was. -/
theorem holds_zoom {allowed required : Step σ ι → Prop} {crash : σ → Prop}
    {allowedWhole requiredWhole : Step τ κ → Prop} {crashWhole : τ → Prop}
    {program : Program σ ι α} {post : α → σ → Prop} {whole : τ} {part : σ}
    (holds : program.Holds apply allowed required crash post part)
    (granted : ∀ s label ending, allowedWhole ⟨component.set whole s, component.action label, ending⟩ →
      allowed ⟨s, label, ending⟩)
    (needs : ∀ s label ending, required ⟨s, label, ending⟩ →
      requiredWhole ⟨component.set whole s, component.action label, ending⟩)
    (crashed : ∀ s, crash s → crashWhole (component.set whole s)) :
    (component.zoom program).Holds applyWhole allowedWhole requiredWhole crashWhole
      (fun value whole' => ∃ s, whole' = component.set whole s ∧ post value s)
      (component.set whole part) := by
  induction program generalizing part with
  | pure value => exact ⟨part, rfl, holds⟩
  | read next ih =>
      show (component.zoom (next (component.get (component.set whole part)))).Holds _ _ _ _ _ _
      rw [component.get_set]
      exact ih part holds
  | note label next ih =>
      intro permitted
      obtain ⟨need, rest⟩ := holds (granted _ _ _ permitted)
      refine ⟨needs _ _ _ need, ?_⟩
      rw [component.acts_set]
      exact ih rest
  | write label next ih =>
      obtain ⟨took, lost, cut⟩ := holds
      refine ⟨fun permitted => ?_, fun permitted => ?_, fun permitted => ?_⟩
      · obtain ⟨need, rest⟩ := took (granted _ _ _ permitted)
        refine ⟨needs _ _ _ need, ?_⟩
        rw [component.acts_set]
        exact ih true rest
      · obtain ⟨need, rest⟩ := lost (granted _ _ _ permitted)
        exact ⟨needs _ _ _ need, fun reported => ih reported (rest reported)⟩
      · obtain ⟨need, crashes⟩ := cut (granted _ _ _ permitted)
        exact ⟨needs _ _ _ need, crashed _ crashes⟩

end Component

/-! ## The steps of a run -/

section

variable {σ ι α ω : Type} (apply : ι → σ → σ)

/-- These steps lead from `s` to `s'`, each beginning where the last one ended. -/
def Linked (s : σ) : List (Step σ ι) → σ → Prop
  | [], s' => s' = s
  | step :: rest, s' => step.before = s ∧ Linked (step.after apply) rest s'

variable {apply} {program : ω → Program σ ι Unit} {restart : σ → σ}

theorem linked_append {s s' : σ} {front back : List (Step σ ι)} :
    Linked apply s (front ++ back) s' ↔
      ∃ middle, Linked apply s front middle ∧ Linked apply middle back s' := by
  induction front generalizing s with
  | nil =>
      constructor
      · intro linked
        exact ⟨s, rfl, linked⟩
      · intro ⟨middle, same, linked⟩
        exact same ▸ linked
  | cons step front ih =>
      constructor
      · intro ⟨before, linked⟩
        obtain ⟨middle, first, second⟩ := ih.mp linked
        exact ⟨middle, ⟨before, first⟩, second⟩
      · intro ⟨middle, ⟨before, first⟩, second⟩
        exact ⟨before, ih.mpr ⟨middle, first, second⟩⟩

theorem run_linked (program : Program σ ι α) (s : σ) (fates : List Fate) :
    Linked apply s (program.run apply s fates).steps (program.run apply s fates).state := by
  induction program generalizing s fates with
  | pure value => rfl
  | read next ih => exact ih s s fates
  | note label next ih => exact ⟨rfl, ih (apply label s) fates⟩
  | write label next ih =>
      cases fates with
      | nil => exact ⟨rfl, rfl⟩
      | cons fate fates =>
          cases fate with
          | done => exact ⟨rfl, ih true (apply label s) fates⟩
          | failed reported => exact ⟨rfl, ih reported s fates⟩

/-- A run that no power loss cut short comes to its end. -/
theorem run_finishes (program : Program σ ι α) (s : σ) (fates : List Fate)
    (powered : ∀ step ∈ (program.run apply s fates).steps, step.ending ≠ .cut) :
    (program.run apply s fates).value.isSome := by
  induction program generalizing s fates with
  | pure value => rfl
  | read next ih => exact ih s s fates powered
  | note label next ih =>
      exact ih (apply label s) fates fun step member => powered step (List.mem_cons_of_mem _ member)
  | write label next ih =>
      cases fates with
      | nil => exact absurd rfl (powered _ List.mem_cons_self)
      | cons fate fates =>
          cases fate with
          | done =>
              exact ih true (apply label s) fates fun step member =>
                powered step (List.mem_cons_of_mem _ member)
          | failed reported =>
              exact ih reported s fates fun step member =>
                powered step (List.mem_cons_of_mem _ member)

theorem serve_powered {s : σ} {request : ω × List Fate}
    (powered : ∀ step ∈ ((program request.1).run apply s request.2).steps, step.ending ≠ .cut) :
    serve apply program restart s request = ((program request.1).run apply s request.2).state := by
  unfold serve
  exact if_pos (run_finishes (program request.1) s request.2 powered)

theorem stepsOf_append (s : σ) (front back : List (ω × List Fate)) :
    stepsOf apply program restart s (front ++ back) =
      stepsOf apply program restart s front ++
        stepsOf apply program restart (serveAll apply program restart s front) back := by
  induction front generalizing s with
  | nil => rfl
  | cons request front ih =>
      show _ ++ stepsOf apply program restart _ (front ++ back) = _
      rw [ih, ← List.append_assoc]
      rfl

theorem Program.Only.steps {among : ι → Prop} {program : Program σ ι α} (only : program.Only among)
    (s : σ) (fates : List Fate) :
    ∀ step ∈ (program.run apply s fates).steps, among step.action := by
  induction program generalizing s fates with
  | pure value => exact List.forall_mem_nil _
  | read next ih => exact ih s (only s) s fates
  | note label next ih => exact List.forall_mem_cons.mpr ⟨only.1, ih only.2 _ fates⟩
  | write label next ih =>
      cases fates with
      | nil => exact List.forall_mem_cons.mpr ⟨only.1, List.forall_mem_nil _⟩
      | cons fate fates =>
          cases fate with
          | done => exact List.forall_mem_cons.mpr ⟨only.1, ih true (only.2 true) _ fates⟩
          | failed reported =>
              exact List.forall_mem_cons.mpr ⟨only.1, ih reported (only.2 reported) s fates⟩

/-- A run of two programs is one of the first, and then maybe one of the second. -/
theorem steps_bind (program : Program σ ι α) {β : Type} (rest : α → Program σ ι β) (s : σ)
    (fates : List Fate) :
    ((program >>= rest).run apply s fates).steps = (program.run apply s fates).steps ∨
      ∃ value s' fates', ((program >>= rest).run apply s fates).steps =
        (program.run apply s fates).steps ++ ((rest value).run apply s' fates').steps := by
  show ((program.bind rest).run apply s fates).steps = _ ∨ ∃ value s' fates',
    ((program.bind rest).run apply s fates).steps = _
  induction program generalizing s fates with
  | pure value => exact Or.inr ⟨value, s, fates, rfl⟩
  | read next ih => exact ih s s fates
  | note label next ih =>
      obtain same | ⟨value, s', fates', same⟩ := ih (apply label s) fates
      · exact Or.inl (congrArg (List.cons _) same)
      · exact Or.inr ⟨value, s', fates', congrArg (List.cons _) same⟩
  | write label next ih =>
      cases fates with
      | nil => exact Or.inl rfl
      | cons fate fates =>
          cases fate with
          | done =>
              obtain same | ⟨value, s', fates', same⟩ := ih true (apply label s) fates
              · exact Or.inl (congrArg (List.cons _) same)
              · exact Or.inr ⟨value, s', fates', congrArg (List.cons _) same⟩
          | failed reported =>
              obtain same | ⟨value, s', fates', same⟩ := ih reported s fates
              · exact Or.inl (congrArg (List.cons _) same)
              · exact Or.inr ⟨value, s', fates', congrArg (List.cons _) same⟩

/-- All actions of a run are of the first kind, or all are of the second. -/
def Program.Splits (apply : ι → σ → σ) (first second : ι → Prop) (program : Program σ ι α) : Prop :=
  ∀ s fates, (∀ step ∈ (program.run apply s fates).steps, first step.action) ∨
    ∀ step ∈ (program.run apply s fates).steps, second step.action

theorem splits_first {first second : ι → Prop} {program : Program σ ι α} (only : program.Only first) :
    program.Splits apply first second :=
  fun s fates => Or.inl (only.steps s fates)

theorem splits_second {first second : ι → Prop} {program : Program σ ι α}
    (only : program.Only second) : program.Splits apply first second :=
  fun s fates => Or.inr (only.steps s fates)

theorem splits_get_bind {β : Type} {first second : ι → Prop} {rest : σ → Program σ ι β}
    (later : ∀ s, (rest s).Splits apply first second) :
    (Program.get >>= rest).Splits apply first second :=
  fun s fates => later s s fates

theorem splits_ite {condition : Prop} [Decidable condition] {first second : ι → Prop}
    {program other : Program σ ι α} (yes : program.Splits apply first second)
    (no : other.Splits apply first second) :
    (if condition then program else other).Splits apply first second := by
  split
  · exact yes
  · exact no

theorem splits_map {β : Type} {first second : ι → Prop} {program : Program σ ι α} (value : α → β)
    (splits : program.Splits apply first second) :
    (program >>= fun result => pure (value result)).Splits apply first second := by
  intro s fates
  rw [run_map]
  exact splits s fates

/-- What is of both kinds may come first. -/
theorem splits_bind {β : Type} {first second : ι → Prop} {program : Program σ ι α}
    {rest : α → Program σ ι β} (only : program.Only fun label => first label ∧ second label)
    (later : ∀ value, (rest value).Splits apply first second) :
    (program >>= rest).Splits apply first second := by
  intro s fates
  have front : ∀ step ∈ (program.run apply s fates).steps, first step.action ∧ second step.action :=
    only.steps s fates
  have joined : ((program >>= rest).run apply s fates).steps = (program.run apply s fates).steps ∨ _ :=
    steps_bind program rest s fates
  obtain same | ⟨value, s', fates', same⟩ := joined
  · rw [same]
    exact Or.inl fun step member => (front step member).1
  · rw [same]
    obtain tail | tail := later value s' fates'
    · exact Or.inl (List.forall_mem_append.mpr ⟨fun step member => (front step member).1, tail⟩)
    · exact Or.inr (List.forall_mem_append.mpr ⟨fun step member => (front step member).2, tail⟩)

/-- The steps of one request among those of all. -/
theorem mem_stepsOf {s : σ} {front back : List (ω × List Fate)} {request : ω × List Fate}
    {step : Step σ ι}
    (member : step ∈ ((program request.1).run apply
      (serveAll apply program restart s front) request.2).steps) :
    step ∈ stepsOf apply program restart s (front ++ request :: back) := by
  rw [stepsOf_append]
  exact List.mem_append_right _ (List.mem_append_left _ member)

/-- Without a power loss the steps of all requests are linked. -/
theorem stepsOf_linked (s : σ) (requests : List (ω × List Fate))
    (powered : ∀ step ∈ stepsOf apply program restart s requests, step.ending ≠ .cut) :
    Linked apply s (stepsOf apply program restart s requests)
      (serveAll apply program restart s requests) := by
  induction requests generalizing s with
  | nil => rfl
  | cons request rest ih =>
      have now : serve apply program restart s request =
          ((program request.1).run apply s request.2).state :=
        serve_powered fun step member => powered step (List.mem_append_left _ member)
      refine linked_append.mpr ⟨_, run_linked (program request.1) s request.2, ?_⟩
      rw [← now]
      exact ih _ fun step member => powered step (List.mem_append_right _ member)

/-! ## What the past tells of the state -/

variable {allowed : Step σ ι → Prop} {tells : List (Step σ ι) → σ → Prop}

/-- What each step keeps true of its past and its state is true at each of these steps, and
after them. -/
theorem linked_history
    (keeps : ∀ past step, allowed step → tells past step.before →
      tells (past ++ [step]) (step.after apply))
    {past steps : List (Step σ ι)} {s s' : σ} (initially : tells past s)
    (linked : Linked apply s steps s') (granted : ∀ step ∈ steps, allowed step) :
    tells (past ++ steps) s' ∧
      ∀ front step back, steps = front ++ step :: back → tells (past ++ front) step.before := by
  induction steps generalizing past s with
  | nil =>
      obtain rfl : s' = s := linked
      rw [List.append_nil]
      refine ⟨initially, fun front step back split => ?_⟩
      cases front <;> cases split
  | cons first rest ih =>
      obtain ⟨rfl, later⟩ := linked
      have next := keeps past first (granted first List.mem_cons_self) initially
      obtain ⟨final, within⟩ := ih next later fun step member =>
        granted step (List.mem_cons_of_mem _ member)
      rw [List.append_assoc] at final
      refine ⟨final, fun front step back split => ?_⟩
      cases front with
      | nil =>
          obtain ⟨rfl, -⟩ := List.cons_eq_cons.mp split
          rwa [List.append_nil]
      | cons head front =>
          obtain ⟨rfl, tail⟩ := List.cons_eq_cons.mp split
          have here := within front step back tail
          rwa [List.append_assoc] at here

/-- The same over any number of requests, with a restart after each power loss. -/
theorem stepsOf_history
    (keeps : ∀ past step, allowed step → tells past step.before →
      tells (past ++ [step]) (step.after apply))
    (restarts : ∀ past s, tells past s → tells past (restart s))
    {past : List (Step σ ι)} {s : σ} (initially : tells past s) (requests : List (ω × List Fate))
    (granted : ∀ step ∈ stepsOf apply program restart s requests, allowed step) :
    ∀ front step back, stepsOf apply program restart s requests = front ++ step :: back →
      tells (past ++ front) step.before := by
  induction requests generalizing past s with
  | nil =>
      intro front step back split
      cases front <;> cases split
  | cons request rest ih =>
      obtain ⟨final, within⟩ := linked_history keeps initially
        (run_linked (program request.1) s request.2)
        fun step member => granted step (List.mem_append_left _ member)
      have next : tells (past ++ ((program request.1).run apply s request.2).steps)
          (serve apply program restart s request) := by
        unfold serve
        dsimp only
        split
        · exact final
        · exact restarts _ _ final
      intro front step back split
      have later := ih next fun other member => granted other (List.mem_append_right _ member)
      obtain ⟨more, rfl, tail⟩ | ⟨more, now, tail⟩ := List.append_eq_append_iff.mp split
      · have here := later more step back tail
        rwa [List.append_assoc] at here
      · cases more with
        | nil =>
            rw [List.append_nil] at now
            have here := later [] step back tail.symm
            rw [List.append_nil] at here
            exact now ▸ here
        | cons head more =>
            obtain ⟨rfl, -⟩ := List.cons_eq_cons.mp tail
            exact within front step more now

end

end FryFirmware.Lib
