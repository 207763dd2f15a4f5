import ConstraintStreams.Operator.Workbench

/-!
# Flattening

Flattening expands the last fact of an input into items. Each item gives one output, which carries
the other facts of the input before it. A changed input gets all its outputs anew.
-/

namespace ConstraintStreams

/-- The outputs of each input. -/
structure FlattenMemory where
  outputs : Table TupleId (List TupleId) := ∅

namespace FlattenMemory

/-- Makes the outputs of a new input. -/
def insert (node : NodeId) (items : Fact → Except Error (List Fact)) (input : TupleId) :
    Work FlattenMemory Unit := do
  let facts ← Work.facts input
  let expanded ← Agenda.number (← items (← facts.last?))
  let outputs ← expanded.mapM fun (item : Fact) =>
    Agenda.create node (facts.dropLast ++ [item]) (.single input)
  Work.modifyMemory fun m => ⟨m.outputs.insert input outputs⟩

/-- Withdraws the outputs of a withdrawn input. -/
def retract (input : TupleId) : Work FlattenMemory Unit := do
  let m ← Work.memory
  match m.outputs.get? input with
  | none => throw (.inconsistent (.noState "FlattenLast" input))
  | some outputs =>
    Work.setMemory ⟨m.outputs.erase input⟩
    outputs.forM fun output => Agenda.retract output

/-- Makes the outputs of a changed input anew. -/
def update (node : NodeId) (items : Fact → Except Error (List Fact)) (input : TupleId) :
    Work FlattenMemory Unit := do
  retract input
  insert node items input

end FlattenMemory

end ConstraintStreams
