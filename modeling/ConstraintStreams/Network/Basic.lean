import ConstraintStreams.Network.Memory

/-!
# Networks

The moving parts of one session on a graph: the agenda and the memory of each node. A flush drains
the nodes layer by layer. Draining a node settles its outputs, takes its queue, and tells its
children about every queued tuple once; filters and constraints act on that at once, every other
child changes its own tuples, which wait in a higher layer for their turn.
-/

namespace ConstraintStreams

/-- The tuples and the memories of a session on a graph. -/
structure Network (kind : ScoreKind) where
  agenda : Agenda
  memories : Table NodeId (NodeMemory kind) := ∅
  /-- The deliveries made in the current flush. -/
  operations : Nat := 0

/-- Work on a network. -/
abbrev NetworkAction (kind : ScoreKind) (α : Type) := Action (Network kind) α

namespace Network

variable {kind : ScoreKind}

/-- Work on the agenda alone. -/
def onAgenda (x : Action Agenda α) : NetworkAction kind α :=
  Action.within Network.agenda (fun agenda net => { net with agenda }) x

/-- Work of the operator at a node on its memory. -/
def onMemory (node : NodeId) (memory : μ) (wrap : μ → NodeMemory kind) (x : Work μ α) :
    NetworkAction kind α :=
  Action.within (fun net => ⟨memory, net.agenda⟩)
    (fun w net => { net with
      agenda := w.agenda
      memories := net.memories.insert node (wrap w.memory) }) x

/-- The network without tuples, every node with an empty memory. -/
def reset (g : Graph kind) (net : Network kind) : Network kind where
  agenda := g.nodes.entries.foldl
    (fun agenda (id, n) => if n.operator.ownsTuples then agenda.register id else agenda)
    net.agenda.clear
  memories := g.nodes.mapValues fun _ n => .new n.operator
  operations := net.operations

/-- The network of a new session. -/
def new (g : Graph kind) (limits : Limits) (order : TupleStore → HashOrder := fun _ => {}) :
    Network kind :=
  reset g { agenda := { limits, order } }

/-- Makes the tuple of a fact at a source. -/
def insertSource (node : NodeId) (fact : Fact) : NetworkAction kind TupleId :=
  onAgenda (Agenda.create node [fact] .none)

/-- Replaces the fact of a source tuple. -/
def updateSource (id : TupleId) (fact : Fact) : NetworkAction kind Unit :=
  onAgenda do
    Agenda.setFacts id [fact]
    Agenda.update id

/-- Withdraws a source tuple. -/
def retractSource (id : TupleId) : NetworkAction kind Unit := onAgenda (Agenda.retract id)

/-- Counts a delivery against the limit of the flush. -/
def countOperation : NetworkAction kind Unit := do
  modify fun net => { net with operations := net.operations + 1 }
  let net ← get
  net.agenda.limits.check .operations net.operations

/-- The memory of a node. -/
def memoryOf (node : NodeId) : NetworkAction kind (NodeMemory kind) := do
  match (← get).memories.get? node with
  | some memory => pure memory
  | none => throw (.inconsistent (.noMemory node))

/-- What a join does on a signal. -/
def signalJoin (node : NodeId) (joiners : List Joiner) (side : Side) (id : TupleId) :
    Signal → Work JoinMemory Unit
  | .insert => JoinMemory.insert node joiners side id
  | .update => JoinMemory.update node joiners side id
  | .retract => JoinMemory.retract side id

/-- What a semijoin does on a signal. -/
def signalSemijoin (joiners : List Joiner) (id : TupleId) :
    Side → Signal → Work SemijoinMemory Unit
  | .right, .insert => SemijoinMemory.insertRight joiners id
  | .right, .update => SemijoinMemory.updateRight joiners id
  | .right, .retract => SemijoinMemory.retractRight id
  | _, .insert => SemijoinMemory.insertLeft joiners id
  | _, .update => SemijoinMemory.updateLeft joiners id
  | _, .retract => SemijoinMemory.retractLeft id

/-- What a grouping does on a signal. -/
def signalGroup (key : Option (Facts → Except Error Fact)) (collector : Option Collector)
    (id : TupleId) : Signal → Work GroupMemory Unit
  | .insert => GroupMemory.insert key collector id
  | .update => GroupMemory.update key collector id
  | .retract => GroupMemory.retract id

/-- What a map does on a signal. -/
def signalMap (node : NodeId) (arity : Nat) (mapper : Facts → Except Error Facts) (id : TupleId) :
    Signal → Work MapMemory Unit
  | .insert => MapMemory.insert node arity mapper id
  | .update => MapMemory.update arity mapper id
  | .retract => MapMemory.retract id

/-- What flattening does on a signal. -/
def signalFlatten (node : NodeId) (items : Fact → Except Error (List Fact)) (id : TupleId) :
    Signal → Work FlattenMemory Unit
  | .insert => FlattenMemory.insert node items id
  | .update => FlattenMemory.update node items id
  | .retract => FlattenMemory.retract id

/-- What a distinct node does on a signal. -/
def signalDistinct (node : NodeId) (id : TupleId) : Signal → Work DistinctMemory Unit
  | .insert => DistinctMemory.insert node id
  | .update => DistinctMemory.update node id
  | .retract => DistinctMemory.retract id

/-- What a concatenation does on a signal. -/
def signalConcat (node : NodeId) (side : Side) (id : TupleId) : Signal → Work ConcatMemory Unit
  | .insert => ConcatMemory.insert node side id
  | .update => ConcatMemory.update side id
  | .retract => ConcatMemory.retract side id

/-- What a constraint does on a signal. -/
def signalConstraint (c : Constraint kind) (id : TupleId) : Signal → Work (Ledger kind) Unit
  | .insert => do
    let facts ← Work.facts id
    Work.onMemory (Ledger.insert c id facts)
  | .update => do
    let facts ← Work.facts id
    Work.onMemory (Ledger.update c id facts)
  | .retract => Work.onMemory (Ledger.retract c id)

/-- Lets the operator at a node act on a signal. The answer is the signal that the node passes on at
once, which only a filter does. -/
def act (node : NodeId) (n : Node kind) (side : Side) (id : TupleId) (signal : Signal) :
    NetworkAction kind (Option Signal) := do
  match n.operator, ← memoryOf node with
  | .filter predicate, .filter m =>
    onMemory node m .filter (FilterMemory.accept predicate.run signal id)
  | .join joiners, .join m =>
    onMemory node m .join (signalJoin node joiners side id signal)
    pure none
  | .semijoin _ joiners, .semijoin m =>
    onMemory node m .semijoin (signalSemijoin joiners id side signal)
    pure none
  | .group key collector, .group m =>
    onMemory node m .group (signalGroup (key.map (·.run)) collector id signal)
    pure none
  | .map mapper, .map m =>
    onMemory node m .map (signalMap node n.arity mapper.run id signal)
    pure none
  | .flatten items, .flatten m =>
    onMemory node m .flatten (signalFlatten node items.run id signal)
    pure none
  | .distinct, .distinct m =>
    onMemory node m .distinct (signalDistinct node id signal)
    pure none
  | .concat, .concat m =>
    onMemory node m .concat (signalConcat node side id signal)
    pure none
  | .constraint c, .constraint l =>
    onMemory node l .constraint (signalConstraint c id signal)
    pure none
  | operator, _ => throw (.inconsistent (.misdelivered operator.name node))

/-- Tells a child about a tuple. What the child passes on goes to its own children; `depth` bounds
how often that can happen in a row, and the height of the graph is always enough. -/
def deliver (g : Graph kind) : Nat → Signal → TupleId → Link → NetworkAction kind Unit
  | 0, _, _, link => throw (.inconsistent (.tooDeep link.node))
  | depth + 1, signal, id, ⟨node, side⟩ => do
    countOperation
    let n ← g.node node
    match ← act node n side id signal with
    | some next => n.children.forM (deliver g depth next id)
    | none => pure ()

/-- Tells all children of a node about a tuple. -/
def forward (g : Graph kind) (node : NodeId) (signal : Signal) (id : TupleId) :
    NetworkAction kind Unit := do
  (← g.node node).children.forM (deliver g g.height signal id)

/-- Settles the outputs of a node that decides about them once per flush. -/
def refresh (g : Graph kind) (node : NodeId) : NetworkAction kind Unit := do
  match (← g.node node).operator, (← get).memories.get? node with
  | .group .., some (.group m) => onMemory node m .group (GroupMemory.refresh node)
  | .semijoin expected _, some (.semijoin m) =>
    onMemory node m .semijoin (SemijoinMemory.refresh node expected)
  | _, _ => pure ()

/-- Lets the children of a node see what became of one of its tuples. -/
def process (g : Graph kind) (node : NodeId) (id : TupleId) : NetworkAction kind Unit := do
  match ← (← get).agenda.stage id with
  | .creating =>
    onAgenda (Agenda.setStage id .settled)
    forward g node .insert id
  | .updating =>
    onAgenda (Agenda.setStage id .settled)
    forward g node .update id
  | .dying =>
    forward g node .retract id
    onAgenda (Agenda.release id)
  | .aborting => onAgenda (Agenda.release id)
  | .settled | .dead => pure ()

/-- Drains a node, and answers how many tuples were queued there. -/
def drain (g : Graph kind) (node : NodeId) : NetworkAction kind Nat := do
  refresh g node
  let queue ← onAgenda (Agenda.takeQueue node)
  queue.forM (process g node)
  pure queue.length

/-- Drains nodes one after the other. -/
def drainAll (g : Graph kind) : List NodeId → NetworkAction kind Nat
  | [] => pure 0
  | node :: rest => do
    let drained ← drain g node
    return drained + (← drainAll g rest)

/-- Propagates all queued changes, layer by layer, and answers how many tuples were drained. -/
def flush (g : Graph kind) : NetworkAction kind Nat := do
  modify fun net => { net with operations := 0 }
  drainAll g g.layers.flatten

/-- The ledger of a constraint. -/
def ledger? (net : Network kind) (node : NodeId) : Option (Ledger kind) :=
  (net.memories.get? node).bind NodeMemory.ledger?

/-- The ledgers of the constraints, in the order of their declaration. -/
def ledgers (g : Graph kind) (net : Network kind) : List (Ledger kind) :=
  g.constraints.filterMap net.ledger?

/-- The sum of the totals of all constraints. -/
def score (g : Graph kind) (net : Network kind) : Except Error (Score kind) :=
  (net.ledgers g).foldlM
    (fun sum l => match sum.checkedAdd l.total with
      | some s => .ok s
      | none => .error (.overflow .sumOfTotals))
    .zero

/-- Puts another weight of a constraint in force. -/
def setWeight (g : Graph kind) (node : NodeId) (weight : Score kind) : NetworkAction kind Unit := do
  let c ← g.constraintAt node
  let net ← get
  match net.ledger? node with
  | some l =>
    Action.within (fun _ => l)
      (fun l net => { net with memories := net.memories.insert node (.constraint l) })
      (Ledger.setWeight c weight net.agenda.hashOrder.tuples)
  | none => pure ()

def tupleCount (net : Network kind) : Nat := net.agenda.tupleCount

def pending (net : Network kind) : Nat := net.agenda.pending

end Network

end ConstraintStreams
