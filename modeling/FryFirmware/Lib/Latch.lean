import Mathlib.Data.List.Basic
import Mathlib.Data.List.Induction
import Mathlib.Tactic.Common

/-!
# Latches on a history

A latch is set by some events and cleared by others. It is set exactly when some event
set it and none has cleared it since.
-/

set_option autoImplicit false

namespace FryFirmware.Lib

variable {ε : Type} (sets clears : ε → Bool)

def latched (trace : List ε) : Bool :=
  trace.foldl (fun on event => if sets event then true else if clears event then false else on) false

variable {sets clears}

@[simp] theorem latched_nil : latched sets clears [] = false := rfl

@[simp] theorem latched_concat (trace : List ε) (event : ε) :
    latched sets clears (trace ++ [event]) =
      if sets event then true else if clears event then false else latched sets clears trace := by
  simp [latched]

end FryFirmware.Lib
