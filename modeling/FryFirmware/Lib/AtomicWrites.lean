import Mathlib.Data.List.Basic
import Mathlib.Tactic.Common

/-!
# Programs of atomic writes

A program reads a state and changes it by labelled actions, each of them atomic.
A write may fail, and may report the failure or not; power may be lost before any
of them, which ends the program. A note always takes effect: it stands for memory
that needs no write, or for what a proof remembers. `Holds` is the precondition
calculus for all these executions at once, and `sessions_hold` extends it to any
number of programs with restarts in between.
-/

set_option autoImplicit false

namespace FryFirmware.Lib

/-- A program over states `σ` with actions `ι`. -/
inductive Program (σ ι α : Type) where
  | pure (value : α)
  | read (next : σ → Program σ ι α)
  | note (action : ι) (next : Program σ ι α)
  | write (action : ι) (next : Bool → Program σ ι α)

namespace Program

variable {σ ι α β : Type}

def bind : Program σ ι α → (α → Program σ ι β) → Program σ ι β
  | .pure value, rest => rest value
  | .read next, rest => .read fun s => (next s).bind rest
  | .note action next, rest => .note action (next.bind rest)
  | .write action next, rest => .write action fun reported => (next reported).bind rest

instance : Monad (Program σ ι) where
  pure := .pure
  bind := .bind

/-- The state, as the program finds it. -/
def get : Program σ ι σ := .read .pure

/-- One write; the result is what the store reports. -/
def put (action : ι) : Program σ ι Bool := .write action .pure

def tell (action : ι) : Program σ ι Unit := .note action (.pure ())

end Program

/-- What happens to a write: it takes effect, or it fails without effect and
reports so or not. -/
inductive Fate where
  | done
  | failed (reported : Bool)
  deriving DecidableEq, Repr

/-- How an action ended; `cut`: power was lost before it. -/
inductive Ending where
  | took
  | lost
  | cut
  deriving DecidableEq, Repr

/-- An action of a run, in the state it was begun in. -/
structure Step (σ ι : Type) where
  before : σ
  action : ι
  ending : Ending

/-- What a run leaves: no value where power was lost. -/
structure Outcome (σ ι α : Type) where
  state : σ
  value : Option α
  steps : List (Step σ ι)

section

variable {σ ι α β : Type} (apply : ι → σ → σ)

def Step.after (step : Step σ ι) : σ :=
  match step.ending with
  | .took => apply step.action step.before
  | .lost => step.before
  | .cut => step.before

def Outcome.cons (step : Step σ ι) (outcome : Outcome σ ι α) : Outcome σ ι α :=
  { outcome with steps := step :: outcome.steps }

@[simp] theorem cons_state (step : Step σ ι) (outcome : Outcome σ ι α) :
    (outcome.cons step).state = outcome.state :=
  rfl

/-- The run of a program whose writes meet these fates, one each; power is lost at
the write after the last of them. -/
def Program.run : Program σ ι α → σ → List Fate → Outcome σ ι α
  | .pure value, s, _ => ⟨s, some value, []⟩
  | .read next, s, fates => (next s).run s fates
  | .note action next, s, fates => (next.run (apply action s) fates).cons ⟨s, action, .took⟩
  | .write action _, s, [] => ⟨s, none, [⟨s, action, .cut⟩]⟩
  | .write action next, s, .done :: fates =>
      ((next true).run (apply action s) fates).cons ⟨s, action, .took⟩
  | .write action next, s, .failed reported :: fates =>
      ((next reported).run s fates).cons ⟨s, action, .lost⟩

/-- The undisturbed run: every write takes effect. -/
def Program.exec : Program σ ι α → σ → σ × α
  | .pure value, s => (s, value)
  | .read next, s => (next s).exec s
  | .note action next, s => next.exec (apply action s)
  | .write action next, s => (next true).exec (apply action s)

/-! ## The precondition calculus -/

/-- In `s`, every execution whose steps are all `allowed` has only steps as
`required`, ends in a state as `post` says, and loses power only in states as
`crash` says. -/
def Program.Holds (allowed required : Step σ ι → Prop) (crash : σ → Prop) :
    Program σ ι α → (α → σ → Prop) → σ → Prop
  | .pure value, post, s => post value s
  | .read next, post, s => (next s).Holds allowed required crash post s
  | .note action next, post, s =>
      allowed ⟨s, action, .took⟩ →
        required ⟨s, action, .took⟩ ∧ next.Holds allowed required crash post (apply action s)
  | .write action next, post, s =>
      (allowed ⟨s, action, .took⟩ → required ⟨s, action, .took⟩ ∧
          (next true).Holds allowed required crash post (apply action s)) ∧
        (allowed ⟨s, action, .lost⟩ → required ⟨s, action, .lost⟩ ∧
          ∀ reported, (next reported).Holds allowed required crash post s) ∧
        (allowed ⟨s, action, .cut⟩ → required ⟨s, action, .cut⟩ ∧ crash s)

variable {apply} {allowed required : Step σ ι → Prop} {crash : σ → Prop}

theorem holds_pure {value : α} {post : α → σ → Prop} {s : σ} (holds : post value s) :
    (Program.pure value).Holds apply allowed required crash post s :=
  holds

theorem Program.Holds.mono {program : Program σ ι α} {post post' : α → σ → Prop} {s : σ}
    (holds : program.Holds apply allowed required crash post s)
    (weaker : ∀ value s', post value s' → post' value s') :
    program.Holds apply allowed required crash post' s := by
  induction program generalizing s with
  | pure value => exact weaker value s holds
  | read next ih => exact ih s holds
  | note action next ih => exact fun granted => ⟨(holds granted).1, ih (holds granted).2⟩
  | write action next ih =>
      obtain ⟨took, lost, cut⟩ := holds
      refine ⟨fun granted => ?_, fun granted => ?_, cut⟩
      · exact ⟨(took granted).1, ih true (took granted).2⟩
      · exact ⟨(lost granted).1, fun reported => ih reported ((lost granted).2 reported)⟩

/-- The rule of composition. -/
theorem Program.Holds.bind {program : Program σ ι α} {rest : α → Program σ ι β}
    {middle : α → σ → Prop} {post : β → σ → Prop} {s : σ}
    (first : program.Holds apply allowed required crash middle s)
    (second : ∀ value s', middle value s' → (rest value).Holds apply allowed required crash post s') :
    (program >>= rest).Holds apply allowed required crash post s := by
  show (program.bind rest).Holds apply allowed required crash post s
  induction program generalizing s with
  | pure value => exact second value s first
  | read next ih => exact ih s first
  | note action next ih => exact fun granted => ⟨(first granted).1, ih (first granted).2⟩
  | write action next ih =>
      obtain ⟨took, lost, cut⟩ := first
      refine ⟨fun granted => ?_, fun granted => ?_, cut⟩
      · exact ⟨(took granted).1, ih true (took granted).2⟩
      · exact ⟨(lost granted).1, fun reported => ih reported ((lost granted).2 reported)⟩

/-- Nothing is promised. -/
theorem holds_trivially (program : Program σ ι α) (s : σ) :
    program.Holds apply allowed (fun _ => True) (fun _ => True) (fun _ _ => True) s := by
  induction program generalizing s with
  | pure value => trivial
  | read next ih => exact ih s s
  | note action next ih => exact fun _ => ⟨trivial, ih _⟩
  | write action next ih =>
      exact ⟨fun _ => ⟨trivial, ih true _⟩, fun _ => ⟨trivial, fun reported => ih reported s⟩,
        fun _ => ⟨trivial, trivial⟩⟩

/-- Another value handed out. -/
theorem holds_map (value : α → β) {program : Program σ ι α} {post : β → σ → Prop} {s : σ}
    (holds : program.Holds apply allowed required crash (fun result => post (value result)) s) :
    (program >>= fun result => pure (value result)).Holds apply allowed required crash post s :=
  holds.bind fun _ _ held => held

theorem holds_tell {action : ι} {post : Unit → σ → Prop} {s : σ}
    (need : required ⟨s, action, .took⟩) (after : post () (apply action s)) :
    (Program.tell action).Holds apply allowed required crash post s :=
  fun _ => ⟨need, after⟩

theorem holds_get_bind {rest : σ → Program σ ι β} {post : β → σ → Prop} {s : σ}
    (holds : (rest s).Holds apply allowed required crash post s) :
    (Program.get >>= rest).Holds apply allowed required crash post s :=
  holds

theorem holds_tell_bind {action : ι} {rest : Unit → Program σ ι β} {post : β → σ → Prop} {s : σ}
    (need : required ⟨s, action, .took⟩)
    (after : (rest ()).Holds apply allowed required crash post (apply action s)) :
    (Program.tell action >>= rest).Holds apply allowed required crash post s :=
  fun _ => ⟨need, after⟩

theorem holds_put_bind {action : ι} {rest : Bool → Program σ ι β} {post : β → σ → Prop} {s : σ}
    (took : allowed ⟨s, action, .took⟩ → required ⟨s, action, .took⟩ ∧
      (rest true).Holds apply allowed required crash post (apply action s))
    (lost : allowed ⟨s, action, .lost⟩ → required ⟨s, action, .lost⟩ ∧
      ∀ reported, (rest reported).Holds apply allowed required crash post s)
    (cut : allowed ⟨s, action, .cut⟩ → required ⟨s, action, .cut⟩ ∧ crash s) :
    (Program.put action >>= rest).Holds apply allowed required crash post s :=
  ⟨took, lost, cut⟩

def Step.Took (step : Step σ ι) : Prop := step.ending = .took

/-- The invariant is there before the step and after it. -/
def Step.Keeps (apply : ι → σ → σ) (inv : σ → Prop) (step : Step σ ι) : Prop :=
  inv step.before ∧ inv (step.after apply)

theorem holds_tell_keeps {inv crash : σ → Prop} {allowed : Step σ ι → Prop} {action : ι}
    {post : Unit → σ → Prop} {s : σ} (before : inv s) (after : inv (apply action s))
    (holds : post () (apply action s)) :
    (Program.tell action).Holds apply allowed (Step.Keeps apply inv) crash post s :=
  holds_tell ⟨before, after⟩ holds

theorem holds_ite {condition : Prop} [Decidable condition] {first second : Program σ ι α}
    {post : α → σ → Prop} {s : σ}
    (yes : condition → first.Holds apply allowed required crash post s)
    (no : ¬ condition → second.Holds apply allowed required crash post s) :
    (if condition then first else second).Holds apply allowed required crash post s := by
  split
  · next met => exact yes met
  · next unmet => exact no unmet

/-! ## Soundness -/

theorem Program.Holds.run {program : Program σ ι α} {post : α → σ → Prop} {s : σ}
    (holds : program.Holds apply allowed required crash post s) {fates : List Fate}
    (granted : ∀ step ∈ (program.run apply s fates).steps, allowed step) :
    (∀ step ∈ (program.run apply s fates).steps, required step) ∧
      (∀ value, (program.run apply s fates).value = some value →
        post value (program.run apply s fates).state) ∧
      ((program.run apply s fates).value = none → crash (program.run apply s fates).state) := by
  induction program generalizing s fates with
  | pure value => exact ⟨nofun, fun _ same => Option.some.inj same ▸ holds, nofun⟩
  | read next ih => exact ih s holds granted
  | note action next ih =>
      obtain ⟨need, rest⟩ := holds (granted _ List.mem_cons_self)
      obtain ⟨steps, ended⟩ := ih rest fun step member => granted step (List.mem_cons_of_mem _ member)
      exact ⟨List.forall_mem_cons.mpr ⟨need, steps⟩, ended⟩
  | write action next ih =>
      obtain ⟨took, lost, cut⟩ := holds
      cases fates with
      | nil =>
          obtain ⟨need, crashed⟩ := cut (granted _ List.mem_cons_self)
          exact ⟨List.forall_mem_cons.mpr ⟨need, nofun⟩, nofun, fun _ => crashed⟩
      | cons fate fates =>
          cases fate with
          | done =>
              obtain ⟨need, rest⟩ := took (granted _ List.mem_cons_self)
              obtain ⟨steps, ended⟩ :=
                ih true rest fun step member => granted step (List.mem_cons_of_mem _ member)
              exact ⟨List.forall_mem_cons.mpr ⟨need, steps⟩, ended⟩
          | failed reported =>
              obtain ⟨need, rest⟩ := lost (granted _ List.mem_cons_self)
              obtain ⟨steps, ended⟩ := ih reported (rest reported) fun step member =>
                granted step (List.mem_cons_of_mem _ member)
              exact ⟨List.forall_mem_cons.mpr ⟨need, steps⟩, ended⟩

/-- What holds of all executions holds of the undisturbed one. -/
theorem Program.Holds.exec {program : Program σ ι α} {post : α → σ → Prop} {s : σ}
    (holds : program.Holds apply allowed required crash post s)
    (granted : ∀ step, step.ending = .took → allowed step) :
    post (program.exec apply s).2 (program.exec apply s).1 := by
  induction program generalizing s with
  | pure value => exact holds
  | read next ih => exact ih s holds
  | note action next ih => exact ih (holds (granted _ rfl)).2
  | write action next ih => exact ih true (holds.1 (granted _ rfl)).2

/-! ## Invariants -/

/-- All executions of the program keep `inv`. -/
def Program.Maintains (apply : ι → σ → σ) (allowed required : Step σ ι → Prop)
    (crash inv : σ → Prop) (program : Program σ ι α) : Prop :=
  ∀ s, inv s → program.Holds apply allowed required crash (fun _ => inv) s

section

variable {inv : σ → Prop}

theorem maintains_pure (value : α) :
    (pure value : Program σ ι α).Maintains apply allowed required crash inv :=
  fun _ holds => holds

theorem Program.Maintains.bind {program : Program σ ι α} {rest : α → Program σ ι β}
    (first : program.Maintains apply allowed required crash inv)
    (second : ∀ value, (rest value).Maintains apply allowed required crash inv) :
    (program >>= rest).Maintains apply allowed required crash inv :=
  fun s holds => (first s holds).bind fun value s' holds' => second value s' holds'

theorem maintains_get_bind {rest : σ → Program σ ι β}
    (later : ∀ s, (rest s).Maintains apply allowed required crash inv) :
    (Program.get >>= rest).Maintains apply allowed required crash inv :=
  fun s holds => holds_get_bind (later s s holds)

theorem maintains_ite {condition : Prop} [Decidable condition] {first second : Program σ ι α}
    (yes : first.Maintains apply allowed required crash inv)
    (no : second.Maintains apply allowed required crash inv) :
    (if condition then first else second).Maintains apply allowed required crash inv := by
  split
  · exact yes
  · exact no

/-- Every action of the program is among these. -/
def Program.Only (among : ι → Prop) : Program σ ι α → Prop
  | .pure _ => True
  | .read next => ∀ s, (next s).Only among
  | .note action next => among action ∧ next.Only among
  | .write action next => among action ∧ ∀ reported, (next reported).Only among

theorem only_anything (program : Program σ ι α) : program.Only fun _ => True := by
  induction program with
  | pure value => trivial
  | read next ih => exact ih
  | note action next ih => exact ⟨trivial, ih⟩
  | write action next ih => exact ⟨trivial, ih⟩

theorem Program.Only.bind {among : ι → Prop} {program : Program σ ι α}
    {rest : α → Program σ ι β} (first : program.Only among)
    (second : ∀ value, (rest value).Only among) : (program >>= rest).Only among := by
  show (program.bind rest).Only among
  induction program with
  | pure value => exact second value
  | read next ih => exact fun s => ih s (first s)
  | note action next ih => exact ⟨first.1, ih first.2⟩
  | write action next ih => exact ⟨first.1, fun reported => ih reported (first.2 reported)⟩

theorem only_pure {among : ι → Prop} (value : α) : (pure value : Program σ ι α).Only among :=
  trivial

theorem only_tell {among : ι → Prop} {action : ι} (first : among action) :
    (Program.tell action : Program σ ι Unit).Only among :=
  ⟨first, trivial⟩

theorem only_tell_bind {among : ι → Prop} {action : ι} {rest : Unit → Program σ ι β}
    (first : among action) (later : (rest ()).Only among) :
    (Program.tell action >>= rest).Only among :=
  ⟨first, later⟩

theorem only_get_bind {among : ι → Prop} {rest : σ → Program σ ι β}
    (later : ∀ s, (rest s).Only among) : (Program.get >>= rest).Only among :=
  later

theorem only_put_bind {among : ι → Prop} {action : ι} {rest : Bool → Program σ ι β}
    (first : among action) (later : ∀ reported, (rest reported).Only among) :
    (Program.put action >>= rest).Only among :=
  ⟨first, later⟩

theorem Program.Only.mono {among wider : ι → Prop} {program : Program σ ι α}
    (only : program.Only among) (weaker : ∀ action, among action → wider action) :
    program.Only wider := by
  induction program with
  | pure value => trivial
  | read next ih => exact fun s => ih s (only s)
  | note action next ih => exact ⟨weaker action only.1, ih only.2⟩
  | write action next ih => exact ⟨weaker action only.1, fun reported => ih reported (only.2 reported)⟩

theorem only_ite {among : ι → Prop} {condition : Prop} [Decidable condition]
    {first second : Program σ ι α} (yes : first.Only among) (no : second.Only among) :
    (if condition then first else second).Only among := by
  split
  · exact yes
  · exact no

/-- What each of its actions keeps, a program keeps. -/
theorem Program.Only.maintains {among : ι → Prop} {program : Program σ ι α}
    (only : program.Only among)
    (safe : ∀ action ending s, among action → inv s → required ⟨s, action, ending⟩)
    (kept : ∀ action s, among action → inv s → inv (apply action s))
    (crashed : ∀ s, inv s → crash s) : program.Maintains apply allowed required crash inv := by
  induction program with
  | pure value => exact maintains_pure value
  | read next ih => exact fun s holds => ih s (only s) s holds
  | note action next ih =>
      intro s holds granted
      exact ⟨safe action _ s only.1 holds, ih only.2 _ (kept action s only.1 holds)⟩
  | write action next ih =>
      intro s holds
      refine ⟨fun _ => ?_, fun _ => ?_, fun _ => ?_⟩
      · exact ⟨safe action _ s only.1 holds, ih true (only.2 true) _ (kept action s only.1 holds)⟩
      · exact ⟨safe action _ s only.1 holds, fun reported => ih reported (only.2 reported) s holds⟩
      · exact ⟨safe action _ s only.1 holds, crashed s holds⟩

end

/-! ## Composed runs -/

theorem run_get_bind (rest : σ → Program σ ι β) (s : σ) (fates : List Fate) :
    (Program.get >>= rest).run apply s fates = (rest s).run apply s fates :=
  rfl

theorem exec_bind (program : Program σ ι α) (rest : α → Program σ ι β) (s : σ) :
    (program >>= rest).exec apply s =
      (rest (program.exec apply s).2).exec apply (program.exec apply s).1 := by
  show (program.bind rest).exec apply s = _
  induction program generalizing s with
  | pure value => rfl
  | read next ih => exact ih s s
  | note action next ih => exact ih (apply action s)
  | write action next ih => exact ih true (apply action s)

theorem exec_get_bind (rest : σ → Program σ ι β) (s : σ) :
    (Program.get >>= rest).exec apply s = (rest s).exec apply s :=
  rfl

theorem exec_tell_bind (action : ι) (rest : Unit → Program σ ι β) (s : σ) :
    (Program.tell action >>= rest).exec apply s = (rest ()).exec apply (apply action s) :=
  rfl

/-- Handing out another value changes nothing in the run. -/
theorem run_map (program : Program σ ι α) (value : α → β) (s : σ) (fates : List Fate) :
    (program >>= fun result => pure (value result)).run apply s fates =
      ⟨(program.run apply s fates).state, (program.run apply s fates).value.map value,
        (program.run apply s fates).steps⟩ := by
  show (program.bind fun result => .pure (value result)).run apply s fates = _
  induction program generalizing s fates with
  | pure result => rfl
  | read next ih => exact ih s s fates
  | note action next ih => exact congrArg (Outcome.cons ⟨s, action, .took⟩) (ih (apply action s) fates)
  | write action next ih =>
      cases fates with
      | nil => rfl
      | cons fate fates =>
          cases fate with
          | done =>
              exact congrArg (Outcome.cons ⟨s, action, .took⟩) (ih true (apply action s) fates)
          | failed reported =>
              exact congrArg (Outcome.cons ⟨s, action, .lost⟩) (ih reported s fates)

theorem run_bind_pure (program : Program σ ι α) (value : α → β) (s : σ) (fates : List Fate) :
    ((program >>= fun result => pure (value result)).run apply s fates).state =
      (program.run apply s fates).state := by
  rw [run_map]

/-- A field that none of the program's actions touches. -/
theorem Program.Only.run_frame {among : ι → Prop} {γ : Type} (field : σ → γ)
    (frame : ∀ action s, among action → field (apply action s) = field s) {program : Program σ ι α}
    (only : program.Only among) (s : σ) (fates : List Fate) :
    field (program.run apply s fates).state = field s := by
  induction program generalizing s fates with
  | pure value => rfl
  | read next ih => exact ih s (only s) s fates
  | note action next ih => exact (ih only.2 _ fates).trans (frame action s only.1)
  | write action next ih =>
      cases fates with
      | nil => rfl
      | cons fate fates =>
          cases fate with
          | done => exact (ih true (only.2 true) _ fates).trans (frame action s only.1)
          | failed reported => exact ih reported (only.2 reported) s fates

theorem Program.Only.exec_frame {among : ι → Prop} {γ : Type} (field : σ → γ)
    (frame : ∀ action s, among action → field (apply action s) = field s) {program : Program σ ι α}
    (only : program.Only among) (s : σ) : field (program.exec apply s).1 = field s := by
  induction program generalizing s with
  | pure value => rfl
  | read next ih => exact ih s (only s) s
  | note action next ih => exact (ih only.2 _).trans (frame action s only.1)
  | write action next ih => exact (ih true (only.2 true) _).trans (frame action s only.1)

/-- What holds before some step of a run, and is kept by every step, holds at its end. -/
theorem run_keeps {program : Program σ ι α} {s : σ} {fates : List Fate} {p : σ → Prop}
    (kept : ∀ step ∈ (program.run apply s fates).steps, p step.before → p (step.after apply))
    (held : p s ∨ ∃ step ∈ (program.run apply s fates).steps, p step.before) :
    p (program.run apply s fates).state := by
  induction program generalizing s fates with
  | pure value => exact held.resolve_right fun ⟨_, member, _⟩ => nomatch member
  | read next ih => exact ih s kept held
  | note action next ih =>
      refine ih (fun step member => kept step (List.mem_cons_of_mem _ member)) ?_
      obtain here | ⟨step, member, before⟩ := held
      · exact Or.inl (kept _ List.mem_cons_self here)
      · obtain rfl | later := List.mem_cons.mp member
        · exact Or.inl (kept _ List.mem_cons_self before)
        · exact Or.inr ⟨step, later, before⟩
  | write action next ih =>
      cases fates with
      | nil =>
          obtain here | ⟨step, member, before⟩ := held
          · exact here
          · obtain rfl := List.mem_singleton.mp member
            exact before
      | cons fate fates =>
          cases fate with
          | done =>
              refine ih true (fun step member => kept step (List.mem_cons_of_mem _ member)) ?_
              obtain here | ⟨step, member, before⟩ := held
              · exact Or.inl (kept _ List.mem_cons_self here)
              · obtain rfl | later := List.mem_cons.mp member
                · exact Or.inl (kept _ List.mem_cons_self before)
                · exact Or.inr ⟨step, later, before⟩
          | failed reported =>
              refine ih reported (fun step member => kept step (List.mem_cons_of_mem _ member)) ?_
              obtain here | ⟨step, member, before⟩ := held
              · exact Or.inl here
              · obtain rfl | later := List.mem_cons.mp member
                · exact Or.inl before
                · exact Or.inr ⟨step, later, before⟩

/-! ## Writes in a row -/

/-- Writes one after the other, whatever each of them reports. -/
def Program.puts : List ι → Program σ ι Unit
  | [] => .pure ()
  | action :: rest => .write action fun _ => Program.puts rest

/-- A field that no write touches. -/
theorem puts_run_frame {γ : Type} (field : σ → γ) {actions : List ι}
    (frame : ∀ action ∈ actions, ∀ s, field (apply action s) = field s) (s : σ)
    (fates : List Fate) :
    field ((Program.puts actions).run apply s fates).state = field s := by
  induction actions generalizing s fates with
  | nil => rfl
  | cons action rest ih =>
      have later : ∀ other ∈ rest, ∀ s, field (apply other s) = field s :=
        fun other member => frame other (List.mem_cons_of_mem _ member)
      cases fates with
      | nil => rfl
      | cons fate fates =>
          cases fate with
          | done => exact (ih later _ _).trans (frame action List.mem_cons_self s)
          | failed reported => exact ih later _ _

/-- A field that one of the writes sets and the others leave alone holds the new
value exactly where that write takes effect. -/
theorem puts_run_field {γ : Type} (field : σ → γ) (front : List ι) {back : List ι} {action : ι}
    {value : γ} (sets : ∀ s, field (apply action s) = value)
    (frame : ∀ other ∈ front ++ back, ∀ s, field (apply other s) = field s) (s : σ)
    (fates : List Fate) :
    field ((Program.puts (front ++ action :: back)).run apply s fates).state =
      if fates[front.length]? = some .done then value else field s := by
  induction front generalizing s fates with
  | nil =>
      cases fates with
      | nil => rfl
      | cons fate fates =>
          cases fate with
          | done => exact (puts_run_frame field frame _ _).trans (sets s)
          | failed reported => exact puts_run_frame field frame _ _
  | cons other front ih =>
      have later : ∀ other ∈ front ++ back, ∀ s, field (apply other s) = field s :=
        fun other member => frame other (List.mem_cons_of_mem _ member)
      cases fates with
      | nil => rfl
      | cons fate fates =>
          cases fate with
          | done =>
              refine (ih later _ _).trans ?_
              rw [frame other List.mem_cons_self s]
              rfl
          | failed reported => exact ih later _ _

/-! ## Sessions -/

variable {ω : Type} (apply) (program : ω → Program σ ι Unit) (restart : σ → σ)

/-- One request, with the fates of its writes; where power is lost, the restart. -/
def serve (s : σ) (request : ω × List Fate) : σ :=
  let outcome := (program request.1).run apply s request.2
  if outcome.value.isSome then outcome.state else restart outcome.state

def serveAll (s : σ) (requests : List (ω × List Fate)) : σ :=
  requests.foldl (serve apply program restart) s

/-- The steps of all requests, in order. -/
def stepsOf (s : σ) : List (ω × List Fate) → List (Step σ ι)
  | [] => []
  | request :: rest =>
      ((program request.1).run apply s request.2).steps ++
        stepsOf (serve apply program restart s request) rest

variable {apply program restart}

/-- An invariant that every program keeps, up to the restart after a power loss,
holds after any number of them, and all their steps are as required. -/
theorem sessions_hold {inv : σ → Prop} {requests : List (ω × List Fate)}
    (keeps : ∀ request ∈ requests, ∀ s, inv s → (program request.1).Holds apply allowed required
      (fun s' => inv (restart s')) (fun _ => inv) s)
    {s : σ} (initially : inv s) (granted : ∀ step ∈ stepsOf apply program restart s requests, allowed step) :
    (∀ step ∈ stepsOf apply program restart s requests, required step) ∧
      inv (serveAll apply program restart s requests) := by
  induction requests generalizing s with
  | nil => exact ⟨nofun, initially⟩
  | cons request rest ih =>
      obtain ⟨steps, finished, crashed⟩ := (keeps request List.mem_cons_self s initially).run
        fun step member => granted step (List.mem_append_left _ member)
      have next : inv (serve apply program restart s request) := by
        unfold serve
        dsimp only
        cases value : ((program request.1).run apply s request.2).value with
        | none => exact crashed value
        | some done => exact finished done value
      obtain ⟨later, ended⟩ := ih (fun other member => keeps other (List.mem_cons_of_mem _ member))
        next fun step member => granted step (List.mem_append_right _ member)
      refine ⟨fun step member => ?_, ended⟩
      obtain now | after := List.mem_append.mp member
      · exact steps step now
      · exact later step after

end

end FryFirmware.Lib
