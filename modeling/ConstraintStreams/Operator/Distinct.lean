import ConstraintStreams.Operator.Workbench

/-!
# Distinct tuples

Inputs whose facts stand for the same things form a class, and each class has one output, however
many inputs it has. The output carries the facts of the input that founded the class, until an
input of the class changes.
-/

namespace ConstraintStreams

/-- A class of inputs: how many there are, and their common output. -/
structure DistinctClass where
  size : Nat
  output : TupleId
  deriving DecidableEq

/-- The classes by what their inputs stand for, and the class of each input. -/
structure DistinctMemory where
  classes : Table Facts DistinctClass := ∅
  members : Table TupleId Facts := ∅

namespace DistinctMemory

/-- Adds an input to its class; the first input of a class makes the output. -/
def insert (node : NodeId) (input : TupleId) : Work DistinctMemory Unit := do
  let facts ← Work.facts input
  let identity := facts.identity
  match (← Work.memory).classes.get? identity with
  | some c =>
    Work.modifyMemory fun m =>
      { m with classes := m.classes.insert identity { c with size := c.size + 1 } }
  | none =>
    let output ← Agenda.create node facts (.single input)
    Work.modifyMemory fun m => { m with classes := m.classes.insert identity ⟨1, output⟩ }
  Work.modifyMemory fun m => { m with members := m.members.insert input identity }

/-- Removes an input from its class; the last input of a class takes the output with it. -/
def retract (input : TupleId) : Work DistinctMemory Unit := do
  let m ← Work.memory
  match m.members.get? input with
  | none => throw (.inconsistent (.noState "Distinct" input))
  | some identity =>
    let m := { m with members := m.members.erase input }
    Work.setMemory m
    match m.classes.get? identity with
    | none => throw (.inconsistent (.noState "Distinct" input))
    | some c =>
      let size ← countDown c.size 1
      if size = 0 then
        Work.setMemory { m with classes := m.classes.erase identity }
        Agenda.retract c.output
      else
        Work.setMemory { m with classes := m.classes.insert identity { c with size } }

/-- Moves a changed input to its class; within its class, the output takes its facts over. -/
def update (node : NodeId) (input : TupleId) : Work DistinctMemory Unit := do
  let m ← Work.memory
  match m.members.get? input with
  | none => throw (.inconsistent (.noState "Distinct" input))
  | some identity =>
    let facts ← Work.facts input
    if facts.identity = identity then
      match m.classes.get? identity with
      | none => throw (.inconsistent (.noState "Distinct" input))
      | some c => Work.refreshIfChanged c.output facts
    else
      retract input
      insert node input

end DistinctMemory

end ConstraintStreams
