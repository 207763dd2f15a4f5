import ConstraintStreams.Operator.Workbench

/-!
# Concatenation

Concatenation has one output for each input of either side, with the input's facts. A tuple that
arrives on both sides is two inputs.
-/

namespace ConstraintStreams

/-- The output of each input of each side. -/
structure ConcatMemory where
  outputs : Table (Side × TupleId) TupleId := ∅

namespace ConcatMemory

/-- Makes the output of a new input. -/
def insert (node : NodeId) (side : Side) (input : TupleId) : Work ConcatMemory Unit := do
  let facts ← Work.facts input
  let output ← Agenda.create node facts (.single input)
  Work.modifyMemory fun m => ⟨m.outputs.insert (side, input) output⟩

/-- Passes a change of an input on to its output. -/
def update (side : Side) (input : TupleId) : Work ConcatMemory Unit := do
  match (← Work.memory).outputs.get? (side, input) with
  | none => throw (.inconsistent (.noState "Concat" input))
  | some output => Work.refreshTuple output (← Work.facts input)

/-- Withdraws the output of a withdrawn input. -/
def retract (side : Side) (input : TupleId) : Work ConcatMemory Unit := do
  let m ← Work.memory
  match m.outputs.get? (side, input) with
  | none => throw (.inconsistent (.noState "Concat" input))
  | some output =>
    Work.setMemory ⟨m.outputs.erase (side, input)⟩
    Agenda.retract output

end ConcatMemory

end ConstraintStreams
