import ConstraintStreams.Operator.Workbench

/-!
# Maps

A map has one output for each input, with the facts that the mapper makes of the input's. An
update that leaves those facts as they were is not passed on.
-/

namespace ConstraintStreams

/-- The output of each input. -/
structure MapMemory where
  outputs : Table TupleId TupleId := ∅

namespace MapMemory

/-- The mapped facts of an input, which have to be as many as the stream declares. -/
def image (arity : Nat) (mapper : Facts → Except Error Facts) (input : TupleId) :
    Work MapMemory Facts := do
  let facts ← mapper (← Work.facts input)
  if facts.length ≠ arity then throw (.invalidArity arity facts.length)
  Agenda.number facts

/-- Makes the output of a new input. -/
def insert (node : NodeId) (arity : Nat) (mapper : Facts → Except Error Facts) (input : TupleId) :
    Work MapMemory Unit := do
  let facts ← image arity mapper input
  let output ← Agenda.create node facts (.single input)
  Work.modifyMemory fun m => ⟨m.outputs.insert input output⟩

/-- Brings the output of a changed input up to date. -/
def update (arity : Nat) (mapper : Facts → Except Error Facts) (input : TupleId) :
    Work MapMemory Unit := do
  match (← Work.memory).outputs.get? input with
  | none => throw (.inconsistent (.noState "Map" input))
  | some output => Work.refreshIfChanged output (← image arity mapper input)

/-- Withdraws the output of a withdrawn input. -/
def retract (input : TupleId) : Work MapMemory Unit := do
  let m ← Work.memory
  match m.outputs.get? input with
  | none => throw (.inconsistent (.noState "Map" input))
  | some output =>
    Work.setMemory ⟨m.outputs.erase input⟩
    Agenda.retract output

end MapMemory

end ConstraintStreams
