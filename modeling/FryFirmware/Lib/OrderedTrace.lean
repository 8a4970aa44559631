import Mathlib.Data.List.Basic
import Mathlib.Data.List.Induction
import Mathlib.Tactic.Common

/-!
# Traces in order

A rule says which event may follow the ones before it. A trace is in order when every
event of it may follow those in front, and a machine keeps to the order exactly when
every step of its run does.
-/

set_option autoImplicit false

namespace FryFirmware.Lib.OrderedTrace

variable {σ ι ε : Type} (allowed : List ε → ε → Prop)

/-- The events may follow one another, behind those before. -/
def OrderedFrom (before : List ε) : List ε → Prop
  | [] => True
  | event :: rest => allowed before event ∧ OrderedFrom (before ++ [event]) rest

abbrev Ordered (trace : List ε) : Prop := OrderedFrom allowed [] trace

instance decidableOrderedFrom [∀ before event, Decidable (allowed before event)] :
    ∀ before trace, Decidable (OrderedFrom allowed before trace)
  | _, [] => .isTrue trivial
  | before, event :: rest =>
      have := decidableOrderedFrom (before ++ [event]) rest
      inferInstanceAs (Decidable (allowed before event ∧ OrderedFrom allowed (before ++ [event]) rest))

variable {allowed}

theorem orderedFrom_append {before front back : List ε} :
    OrderedFrom allowed before (front ++ back) ↔
      OrderedFrom allowed before front ∧ OrderedFrom allowed (before ++ front) back := by
  induction front generalizing before with
  | nil => simp [OrderedFrom]
  | cons event front ih =>
      simp only [List.cons_append, OrderedFrom, ih, and_assoc, List.append_assoc, List.nil_append]

theorem ordered_append {front back : List ε} :
    Ordered allowed (front ++ back) ↔ Ordered allowed front ∧ OrderedFrom allowed front back :=
  orderedFrom_append

/-- In order: what stands in front of an event allows it. -/
theorem orderedFrom_iff {before trace : List ε} :
    OrderedFrom allowed before trace ↔
      ∀ front event back, trace = front ++ event :: back → allowed (before ++ front) event := by
  induction trace generalizing before with
  | nil => exact ⟨fun _ front event back same => by simp at same, fun _ => trivial⟩
  | cons first rest ih =>
      rw [OrderedFrom, ih]
      constructor
      · rintro ⟨now, later⟩ (_ | ⟨_, front⟩) event back same
        · cases same
          rwa [List.append_nil]
        · cases same
          simpa using later front event back rfl
      · intro all
        constructor
        · simpa using all [] first rest rfl
        · intro front event back same
          simpa using all (first :: front) event back (by rw [same, List.cons_append])

/-- Events that any trace may be followed by. -/
theorem orderedFrom_free {before trace : List ε} (free : ∀ event ∈ trace, ∀ before, allowed before event) :
    OrderedFrom allowed before trace := by
  rw [orderedFrom_iff]
  rintro front event back rfl
  exact free event (List.mem_append_right _ List.mem_cons_self) _

/-! ## Runs -/

section Runs

variable (step : σ → ι → σ × List ε)

/-- One more step, whose events go behind the trace. -/
def advance (now : σ × List ε) (input : ι) : σ × List ε :=
  ((step now.1 input).1, now.2 ++ (step now.1 input).2)

/-- The state and the trace after the inputs. -/
def run (start : σ) (inputs : List ι) : σ × List ε := inputs.foldl (advance step) (start, [])

variable {step}

@[simp] theorem run_concat (start : σ) (inputs : List ι) (input : ι) :
    run step start (inputs ++ [input]) = advance step (run step start inputs) input := by
  simp [run]

theorem run_invariant {invariant : σ → List ε → Prop} {start : σ} (initial : invariant start [])
    (preserves : ∀ state trace input, invariant state trace →
      invariant (step state input).1 (trace ++ (step state input).2)) (inputs : List ι) :
    invariant (run step start inputs).1 (run step start inputs).2 := by
  induction inputs using List.reverseRecOn with
  | nil => exact initial
  | append_singleton inputs input ih =>
      rw [run_concat]
      exact preserves _ _ input ih

theorem forall_concat {p : List ι → ι → Prop} {inputs : List ι} {input : ι} :
    (∀ front next back, inputs ++ [input] = front ++ next :: back → p front next) ↔
      (∀ front next back, inputs = front ++ next :: back → p front next) ∧ p inputs input := by
  constructor
  · intro all
    constructor
    · rintro front next back rfl
      exact all front next (back ++ [input]) (by simp)
    · exact all inputs input [] rfl
  · rintro ⟨earlier, last⟩ front next back same
    induction back using List.reverseRecOn with
    | nil =>
        obtain ⟨rfl, one⟩ := List.append_inj' same rfl
        cases one
        exact last
    | append_singleton back final _ =>
        rw [← List.cons_append, ← List.append_assoc] at same
        obtain ⟨rfl, -⟩ := List.append_inj' same rfl
        exact earlier front next back rfl

/-- A run is in order exactly when each of its steps keeps the order. -/
theorem run_ordered_iff {invariant : σ → List ε → Prop} {meets : σ → List ε → ι → Prop} {start : σ}
    (initial : invariant start [])
    (preserves : ∀ state trace input, invariant state trace →
      invariant (step state input).1 (trace ++ (step state input).2))
    (exact_step : ∀ state trace input, invariant state trace →
      (OrderedFrom allowed trace (step state input).2 ↔ meets state trace input)) (inputs : List ι) :
    Ordered allowed (run step start inputs).2 ↔
      ∀ front input back, inputs = front ++ input :: back →
        meets (run step start front).1 (run step start front).2 input := by
  induction inputs using List.reverseRecOn with
  | nil => exact ⟨fun _ front input back same => by simp at same, fun _ => trivial⟩
  | append_singleton inputs input ih =>
      have kept := run_invariant initial preserves inputs
      rw [run_concat, forall_concat, ← ih]
      simp only [advance]
      rw [ordered_append, exact_step _ _ input kept]

end Runs

end FryFirmware.Lib.OrderedTrace
