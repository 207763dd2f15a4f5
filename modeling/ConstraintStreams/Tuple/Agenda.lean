import ConstraintStreams.Action
import ConstraintStreams.HashOrder
import ConstraintStreams.Tuple.Store

/-!
# The agenda

The tuples of a session together with what remains to be done about them: for each node, the queue
of its tuples that were made, changed or withdrawn since the node was last drained. Changes only
move tuples from stage to stage and queue them; a tuple is in the queue of its node exactly while
its stage is dirty, and once.
-/

namespace ConstraintStreams

/-- The tuples of a session and the queues of dirty ones. -/
structure Agenda where
  limits : Limits
  tuples : TupleStore := ∅
  queues : Table NodeId (List TupleId) := ∅
  /-- The number of queued tuples. -/
  pending : Nat := 0
  /-- The number for the next new version of an entity. -/
  nextVersion : Nat := 0
  /-- How the hash maps of the session are arranged, which may change as tuples come and go. -/
  order : TupleStore → HashOrder := fun _ => {}

namespace Agenda

instance : Inhabited Agenda := ⟨{ limits := default }⟩

/-- Gives a node a queue. -/
def register (node : NodeId) (g : Agenda) : Agenda :=
  { g with queues := g.queues.insert node [] }

/-- The number of live tuples. -/
def tupleCount (g : Agenda) : Nat := g.tuples.size

/-- The present arrangements of hash maps. -/
def hashOrder (g : Agenda) : HashOrder := g.order g.tuples

/-- The tuple of a name. -/
def tuple (g : Agenda) (id : TupleId) : Except Error Tuple := g.tuples.get id

/-- The facts of a tuple. -/
def facts (g : Agenda) (id : TupleId) : Except Error Facts := return (← g.tuple id).facts

/-- The stage of a tuple. -/
def stage (g : Agenda) (id : TupleId) : Except Error Stage := return (← g.tuple id).stage

/-- The sources of a tuple. -/
def sources (g : Agenda) (id : TupleId) : Except Error Sources := return (← g.tuple id).sources

/-- Puts a tuple at the end of the queue of a node. -/
def enqueue (node : NodeId) (id : TupleId) : Action Agenda Unit := do
  let g ← get
  match g.queues.get? node with
  | none => throw (.inconsistent (.noQueue node))
  | some queue =>
    set { g with queues := g.queues.insert node (queue ++ [id]), pending := g.pending + 1 }

/-- Forgets a tuple. -/
def release (id : TupleId) : Action Agenda Unit :=
  modify fun g => { g with tuples := g.tuples.erase id }

/-- Makes a tuple at a node and queues it there. -/
def create (node : NodeId) (facts : Facts) (sources : Sources) : Action Agenda TupleId := do
  let g ← get
  let (id, tuples) ← g.tuples.acquire g.limits (Tuple.new node facts sources)
  set { g with tuples }
  try
    enqueue node id
  catch e =>
    release id
    throw e
  pure id

/-- Replaces a tuple. -/
def setTuple (id : TupleId) (t : Tuple) : Action Agenda Unit :=
  modify fun g => { g with tuples := g.tuples.set id t }

/-- Notes that a tuple was changed. One that is still to be seen absorbs the change. -/
def update (id : TupleId) : Action Agenda Unit := do
  let t ← (← get).tuple id
  match t.stage with
  | .settled =>
    setTuple id { t with stage := .updating }
    enqueue t.node id
  | .creating | .updating => pure ()
  | stage => throw (.inconsistent (.cannotUpdate stage))

/-- Withdraws a tuple. -/
def retract (id : TupleId) : Action Agenda Unit := do
  let t ← (← get).tuple id
  match t.stage with
  | .creating => setTuple id { t with stage := .aborting }
  | .settled =>
    setTuple id { t with stage := .dying }
    enqueue t.node id
  | .updating => setTuple id { t with stage := .dying }
  | stage => throw (.inconsistent (.cannotRetract stage))

/-- Replaces the facts of a tuple. -/
def setFacts (id : TupleId) (facts : Facts) : Action Agenda Unit := do
  let t ← (← get).tuple id
  setTuple id { t with facts }

/-- Replaces the stage of a tuple. -/
def setStage (id : TupleId) (stage : Stage) : Action Agenda Unit := do
  let t ← (← get).tuple id
  setTuple id { t with stage }

/-- Empties the queue of a node and answers what was in it, in order. -/
def takeQueue (node : NodeId) : Action Agenda (List TupleId) := do
  let g ← get
  match g.queues.get? node with
  | none => pure []
  | some queue =>
    let pending ← countDown g.pending queue.length
    set { g with queues := g.queues.insert node [], pending }
    pure queue

/-- Numbers the entities that have just been built. -/
def number (facts : Facts) : Action Agenda Facts :=
  modifyGet fun g =>
    let (facts, nextVersion) := Fact.numberItemsFrom g.nextVersion facts
    (facts, { g with nextVersion })

/-- Forgets all tuples and empties all queues. -/
def clear (g : Agenda) : Agenda :=
  { g with
    tuples := g.tuples.clear
    queues := g.queues.mapValues fun _ _ => []
    pending := 0 }

end Agenda

end ConstraintStreams
