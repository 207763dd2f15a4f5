import ConstraintStreams.Error

/-!
# Actions

An action works on a state and may fail. When it fails, the state keeps what was done up to the
failure: callers see how far the work got, and decide whether to go on with it.
-/

namespace ConstraintStreams

/-- Work on a state that may fail; a failure keeps the state reached. -/
abbrev Action (σ α : Type) := EStateM Error σ α

namespace Action

variable {σ τ α : Type}

/-- A computation that needs no state. -/
def ofExcept : Except Error α → Action σ α
  | .ok a => pure a
  | .error e => throw e

instance : MonadLift (Except Error) (Action σ) := ⟨ofExcept⟩

/-- Work on a part of the state, which `view` reads and `update` writes back. -/
def within (view : σ → τ) (update : τ → σ → σ) (x : Action τ α) : Action σ α := fun s =>
  match x (view s) with
  | .ok a t => .ok a (update t s)
  | .error e t => .error e (update t s)

end Action

end ConstraintStreams
