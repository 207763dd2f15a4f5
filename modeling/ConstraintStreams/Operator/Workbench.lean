import ConstraintStreams.Tuple.Agenda

/-!
# The workbench of an operator

What one operator of the network works on: its own memory and the agenda that all operators
share. The signals that reach an operator, and the side they come from, are named here too.
-/

namespace ConstraintStreams

/-- What an operator is told about an input tuple. -/
inductive Signal
  | insert
  | update
  | retract
  deriving DecidableEq

/-- A signal's name. -/
def Signal.name : Signal → String
  | insert => "Insert"
  | update => "Update"
  | retract => "Retract"

/-- The parent that an input comes from: the only one, or the left or right of two. -/
inductive Side
  | only
  | left
  | right
  deriving DecidableEq

/-- A side's name. -/
def Side.name : Side → String
  | only => "Only"
  | left => "Left"
  | right => "Right"

/-- The memory of one operator, and the agenda. -/
structure Workbench (μ : Type) where
  memory : μ
  agenda : Agenda

/-- Work of one operator. -/
abbrev Work (μ α : Type) := Action (Workbench μ) α

namespace Work

variable {μ α : Type}

/-- Work on the agenda alone. -/
def onAgenda (x : Action Agenda α) : Work μ α :=
  Action.within Workbench.agenda (fun agenda w => { w with agenda }) x

instance : MonadLift (EStateM Error Agenda) (EStateM Error (Workbench μ)) := ⟨onAgenda⟩

/-- Work on the memory alone. -/
def onMemory (x : Action μ α) : Work μ α :=
  Action.within Workbench.memory (fun memory w => { w with memory }) x

/-- The memory of the operator. -/
def memory : Work μ μ := return (← get).memory

/-- Replaces the memory of the operator. -/
def setMemory (memory : μ) : Work μ Unit := modify fun w => { w with memory }

/-- Changes the memory of the operator. -/
def modifyMemory (f : μ → μ) : Work μ Unit := modify fun w => { w with memory := f w.memory }

/-- Items in the order in which a hash map hands them out. -/
def inHashOrder {κ : Type} (order : HashOrder → Arrangement κ) (items : List κ) : Work μ (List κ) :=
  return (order (← get).agenda.hashOrder).arrange items

/-- The facts of a tuple. -/
def facts (id : TupleId) : Work μ Facts := do (← get).agenda.facts id

/-- The sources of a tuple. -/
def sources (id : TupleId) : Work μ Sources := do (← get).agenda.sources id

/-- Gives a tuple new facts, and queues it for its children to see them. -/
def refreshTuple (id : TupleId) (facts : Facts) : Work μ Unit := do
  Agenda.setFacts id facts
  Agenda.update id

/-- Gives a tuple new facts unless it has them already. -/
def refreshIfChanged (id : TupleId) (facts : Facts) : Work μ Unit := do
  if (← Work.facts id) ≠ facts then refreshTuple id facts

end Work

end ConstraintStreams
