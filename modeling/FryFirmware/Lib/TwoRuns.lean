import FryFirmware.Lib.Components
import Mathlib.Data.List.Basic
import Mathlib.Tactic.Common

/-!
# Two runs beside each other

`Related R` compares two programs that act alike on states related by `R`: they read
what `R` makes equal, and their actions keep the states related. So do their runs.
-/

set_option autoImplicit false

namespace FryFirmware.Lib

section

variable {σ ι α β : Type} (apply : ι → σ → σ) (R : σ → σ → Prop)

/-- The two actions keep related states related. -/
def ActAlike (action action' : ι) : Prop := ∀ s s', R s s' → R (apply action s) (apply action' s')

def Program.Related : Program σ ι α → Program σ ι α → Prop
  | .pure value, .pure value' => value = value'
  | .read next, .read next' => ∀ s s', R s s' → Related (next s) (next' s')
  | .note action next, .note action' next' => ActAlike apply R action action' ∧ Related next next'
  | .write action next, .write action' next' =>
      ActAlike apply R action action' ∧ ∀ reported, Related (next reported) (next' reported)
  | _, _ => False

variable {apply R}

theorem related_pure (value : α) :
    (pure value : Program σ ι α).Related apply R (pure value) :=
  rfl

theorem related_get_bind {rest rest' : σ → Program σ ι α}
    (later : ∀ s s', R s s' → (rest s).Related apply R (rest' s')) :
    (Program.get >>= rest).Related apply R (Program.get >>= rest') :=
  later

theorem related_tell {action action' : ι} (alike : ActAlike apply R action action') :
    (Program.tell action).Related apply R (Program.tell action') :=
  ⟨alike, rfl⟩

theorem related_tell_bind {action action' : ι} {rest rest' : Unit → Program σ ι α}
    (alike : ActAlike apply R action action') (later : (rest ()).Related apply R (rest' ())) :
    (Program.tell action >>= rest).Related apply R (Program.tell action' >>= rest') :=
  ⟨alike, later⟩

theorem related_put_bind {action action' : ι} {rest rest' : Bool → Program σ ι α}
    (alike : ActAlike apply R action action')
    (later : ∀ reported, (rest reported).Related apply R (rest' reported)) :
    (Program.put action >>= rest).Related apply R (Program.put action' >>= rest') :=
  ⟨alike, later⟩

theorem related_ite {condition condition' : Prop} [Decidable condition] [Decidable condition']
    {first first' second second' : Program σ ι α} (same : condition ↔ condition')
    (yes : first.Related apply R first') (no : second.Related apply R second') :
    (if condition then first else second).Related apply R
      (if condition' then first' else second') := by
  by_cases met : condition
  · rw [if_pos met, if_pos (same.mp met)]
    exact yes
  · rw [if_neg met, if_neg fun met' => met (same.mpr met')]
    exact no

theorem Program.Related.bind {program program' : Program σ ι α} {rest rest' : α → Program σ ι β}
    (first : program.Related apply R program')
    (second : ∀ value, (rest value).Related apply R (rest' value)) :
    (program >>= rest).Related apply R (program' >>= rest') := by
  show (program.bind rest).Related apply R (program'.bind rest')
  induction program generalizing program' with
  | pure value =>
      cases program' with
      | pure value' =>
          obtain rfl : value = value' := first
          exact second value
      | read | note | write => cases first
  | read next ih =>
      cases program' with
      | read next' => exact fun s s' related => ih s (first s s' related)
      | pure | note | write => cases first
  | note action next ih =>
      cases program' with
      | note action' next' => exact ⟨first.1, ih first.2⟩
      | pure | read | write => cases first
  | write action next ih =>
      cases program' with
      | write action' next' => exact ⟨first.1, fun reported => ih reported (first.2 reported)⟩
      | pure | read | note => cases first

/-- Related programs lead from related states to related ones, with the same result. -/
theorem Program.Related.exec {program program' : Program σ ι α}
    (related : program.Related apply R program') {s s' : σ} (start : R s s') :
    R (program.exec apply s).1 (program'.exec apply s').1 ∧
      (program.exec apply s).2 = (program'.exec apply s').2 := by
  induction program generalizing program' s s' with
  | pure value =>
      cases program' with
      | pure value' => exact ⟨start, related⟩
      | read | note | write => cases related
  | read next ih =>
      cases program' with
      | read next' => exact ih s (related s s' start) start
      | pure | note | write => cases related
  | note action next ih =>
      cases program' with
      | note action' next' => exact ih related.2 (related.1 s s' start)
      | pure | read | write => cases related
  | write action next ih =>
      cases program' with
      | write action' next' => exact ih true (related.2 true) (related.1 s s' start)
      | pure | read | note => cases related

end

/-- A program of a component that the relation makes equal is related to itself. -/
theorem Component.related_zoom {σ τ ι κ α : Type} {apply : ι → σ → σ} {applyWhole : κ → τ → τ}
    (component : Component σ τ ι κ apply applyWhole) {R : τ → τ → Prop}
    (parts : ∀ whole whole', R whole whole' → component.get whole = component.get whole')
    (alike : ∀ label, ActAlike applyWhole R (component.action label) (component.action label))
    (program : Program σ ι α) :
    (component.zoom program).Related applyWhole R (component.zoom program) := by
  induction program with
  | pure value => exact related_pure value
  | read next ih =>
      intro whole whole' related
      dsimp only
      rw [parts whole whole' related]
      exact ih (component.get whole')
  | note label next ih => exact ⟨alike label, ih⟩
  | write label next ih => exact ⟨alike label, ih⟩

end FryFirmware.Lib
