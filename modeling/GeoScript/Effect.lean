import GeoScript.EvalError

/-!
# Steps that may fail

A step reads and changes a state, which it leaves changed also when it fails.
-/

namespace GeoScript

/-- A step over a state of type `σ`. -/
abbrev Effect (σ : Type) := ExceptT EvalError (StateM σ)

namespace Effect

variable {σ α : Type}

/-- Fails at a line. -/
@[inline] def fail (fault : EvalFault) (line : Nat) : Effect σ α := throw ⟨fault, line⟩

/-- The outcome of a computation without effects, with its faults reported at a line. -/
@[inline] def ofExcept (line : Nat) : Except EvalFault α → Effect σ α
  | .ok a => pure a
  | .error fault => fail fault line

/-- A change of the state that cannot fail. -/
@[inline] def change (f : σ → α × σ) : Effect σ α := ExceptT.lift (modifyGet f)

/-- Runs a step and gives its outcome, be it a value or an error. -/
@[inline] def outcome (step : Effect σ α) : Effect σ (Except EvalError α) :=
  ExceptT.lift step.run

/-- Goes on with an outcome. -/
@[inline] def ofOutcome : Except EvalError α → Effect σ α
  | .ok a => pure a
  | .error e => throw e

end Effect

end GeoScript
