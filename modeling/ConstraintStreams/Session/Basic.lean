import ConstraintStreams.Config.Basic
import ConstraintStreams.Network.Consistency

/-!
# Sessions

A session holds facts and keeps the score of a graph's constraints over them up to date. Facts are
inserted, updated and retracted in batches that are checked as a whole before anything is changed;
the changes are queued and propagated by a flush. A failure that may have left work half done
poisons the session, and a poisoned session refuses all further work.
-/

namespace ConstraintStreams

/-- A fact of a session, and its tuple at each source of its type; it has none where it is hidden. -/
structure SourceFact where
  fact : Fact
  tuples : List (NodeId × Option TupleId)

/-- Facts, and the network that propagates them. -/
structure Session (kind : ScoreKind) where
  graph : Graph kind
  network : Network kind
  facts : Table Fact.Key SourceFact := ∅
  config : Config
  /-- The weights that were set for constraints. -/
  weights : Table ConstraintId (Score kind) := ∅
  poisoned : Bool := false

/-- Work on a session. -/
abbrev SessionAction (kind : ScoreKind) (α : Type) := Action (Session kind) α

namespace Session

variable {kind : ScoreKind} {α : Type}

/-- A session on a graph, whatever its configuration. -/
def new (graph : Graph kind) (config : Config) (order : TupleStore → HashOrder := fun _ => {}) :
    Session kind :=
  { graph, config, network := .new graph config.limits order }

/-- Opens a session if its configuration is valid. -/
def create (graph : Graph kind) (config : Config)
    (order : TupleStore → HashOrder := fun _ => {}) : Except Error (Session kind) :=
  match config.validate with
  | .ok () => .ok (new graph config order)
  | .error e => .error (.config e)

/-- Work on the network alone. -/
def onNetwork (x : NetworkAction kind α) : SessionAction kind α :=
  Action.within Session.network (fun network s => { s with network }) x

/-- Refuses to work on a poisoned session. -/
def checkUsable : SessionAction kind Unit := do
  if (← get).poisoned then throw .sessionPoisoned

/-- Work that poisons the session if it fails half done. -/
def guarded (x : SessionAction kind α) : SessionAction kind α := fun s =>
  match x s with
  | .ok a s => .ok a s
  | .error e s => .error e (if e.poisons then { s with poisoned := true } else s)

/-- Propagates all queued changes and answers how many tuples were drained. -/
def flush : SessionAction kind Nat := do
  checkUsable
  let s ← get
  guarded (onNetwork (Network.flush s.graph))

/-- Propagates a change at once if the configuration says so. -/
def afterChange : SessionAction kind Unit := do
  if (← get).config.propagation = .immediate then discard flush

/-- A source shows a fact. -/
def isVisible (g : Graph kind) (node : NodeId) (fact : Fact) : Except Error Bool := do
  match (← g.node node).operator with
  | .source _ false (some predicate) => predicate fact
  | _ => pure true

/-- The error of a fact that is there already or not there. -/
def missing (type : FactType) (id : Fact.Id) : Error := .factNotFound type.name id.toNumber

/-! ## Inserting -/

/-- Checks that none of the facts is in the session, or comes twice. -/
def checkNew (facts : Table Fact.Key SourceFact) : List Fact → List Fact.Key → Except Error Unit
  | [], _ => .ok ()
  | fact :: rest, seen =>
    if facts.contains fact.key ∨ fact.key ∈ seen then
      .error (.duplicateFact fact.type.name fact.id.toNumber)
    else checkNew facts rest (fact.key :: seen)

/-- Makes the tuple of a fact at a source that shows it. -/
def attachAt (fact : Fact) (node : NodeId) : SessionAction kind (NodeId × Option TupleId) := do
  let s ← get
  if ← isVisible s.graph node fact then
    return (node, some (← onNetwork (Network.insertSource node fact)))
  else return (node, none)

/-- Takes in a new fact. -/
def attach (fact : Fact) : SessionAction kind Unit := do
  let tuples ← ((← get).graph.sourcesOf fact.type).mapM (attachAt fact)
  modify fun s => { s with facts := s.facts.insert fact.key ⟨fact, tuples⟩ }

/-- Inserts facts that are not in the session yet. -/
def insert (facts : List Fact) : SessionAction kind Unit := do
  checkUsable
  let s ← get
  checkNew s.facts facts []
  s.config.limits.check .facts (s.facts.size + facts.length)
  guarded (facts.forM attach)
  afterChange

/-! ## Updating -/

/-- Checks that all of the facts are in the session. -/
def checkKnown (facts : Table Fact.Key SourceFact) : List Fact → Except Error Unit
  | [] => .ok ()
  | fact :: rest =>
    if facts.contains fact.key then checkKnown facts rest else .error (missing fact.type fact.id)

/-- Brings the tuple of a fact at a source up to date with a new version of the fact. -/
def refreshAt (fact : Fact) (node : NodeId) (tuple : Option TupleId) :
    SessionAction kind (Option TupleId) := do
  let s ← get
  match tuple, ← isVisible s.graph node fact with
  | some id, true =>
    onNetwork (Network.updateSource id fact)
    pure (some id)
  | some id, false =>
    onNetwork (Network.retractSource id)
    pure none
  | none, true => return some (← onNetwork (Network.insertSource node fact))
  | none, false => pure none

/-- Brings the tuples of a fact up to date, noting each as soon as it is. -/
def refreshTuples (fact : Fact) (old : Fact) (done : List (NodeId × Option TupleId)) :
    List (NodeId × Option TupleId) → SessionAction kind Unit
  | [] => pure ()
  | (node, tuple) :: rest => do
    let tuple ← refreshAt fact node tuple
    let done := done ++ [(node, tuple)]
    modify fun s => { s with facts := s.facts.insert fact.key ⟨old, done ++ rest⟩ }
    refreshTuples fact old done rest

/-- Replaces a fact by a new version of it. -/
def refresh (fact : Fact) : SessionAction kind Unit := do
  match (← get).facts.get? fact.key with
  | none => throw (missing fact.type fact.id)
  | some entry =>
    refreshTuples fact entry.fact [] entry.tuples
    modify fun s => { s with facts := s.facts.modify fact.key ({ · with fact }) }

/-- Replaces facts of the session by the versions given. -/
def update (facts : List Fact) : SessionAction kind Unit := do
  checkUsable
  checkKnown (← get).facts facts
  guarded (facts.forM refresh)
  afterChange

/-! ## Retracting -/

/-- Checks that all of the keys are in the session, and that none comes twice. -/
def checkHeld (facts : Table Fact.Key SourceFact) : List Fact.Key → List Fact.Key → Except Error Unit
  | [], _ => .ok ()
  | key :: rest, seen =>
    if facts.contains key ∧ key ∉ seen then checkHeld facts rest (key :: seen)
    else .error (missing key.type key.id)

/-- Gives up a fact. -/
def detach (key : Fact.Key) : SessionAction kind Unit := do
  let s ← get
  match s.facts.get? key with
  | none => pure ()
  | some entry =>
    set { s with facts := s.facts.erase key }
    (entry.tuples.filterMap Prod.snd).forM fun id => onNetwork (Network.retractSource id)

/-- Retracts the facts with the given keys. -/
def retract (keys : List Fact.Key) : SessionAction kind Unit := do
  checkUsable
  checkHeld (← get).facts keys []
  guarded (keys.forM detach)
  afterChange

/-- A fact with the key is in the session. -/
def contains (s : Session kind) (key : Fact.Key) : Bool := s.facts.contains key

/-- The current version of a fact. -/
def fact? (s : Session kind) (key : Fact.Key) : Option Fact := (s.facts.get? key).map (·.fact)

/-! ## Scoring -/

/-- The present arrangements of the session's hash maps. -/
def hashOrder (s : Session kind) : HashOrder := s.network.agenda.hashOrder

/-- The weights that were set, in the order in which their hash map hands them out. -/
def weightsInOrder (s : Session kind) : List (ConstraintId × Score kind) :=
  s.weights.inOrder s.hashOrder.constraints

/-- Puts weights in force. -/
def applyWeights (g : Graph kind) (weights : List (ConstraintId × Score kind)) :
    NetworkAction kind Unit :=
  weights.forM fun (id, weight) => do
    let node ← g.constraintNode id
    Network.setWeight g node weight

/-- The tuples that the sources show, each with its node and fact, in the order in which the hash map
of the facts hands them out. -/
def visibleFacts (s : Session kind) : List (NodeId × Fact) :=
  (s.facts.inOrder s.hashOrder.facts).flatMap fun e =>
    e.2.tuples.filterMap fun (node, tuple) => tuple.map fun _ => (node, e.2.fact)

/-- The score of the current facts and weights, computed in a network of its own. -/
def rebuild (s : Session kind) : Except Error (Score kind) :=
  let work : NetworkAction kind (Score kind) := do
    applyWeights s.graph s.weightsInOrder
    s.visibleFacts.forM fun (node, fact) => discard (Network.insertSource node fact)
    discard (Network.flush s.graph)
    (← get).score s.graph
  match work (Network.new s.graph s.config.limits s.network.agenda.order) with
  | .ok score _ => .ok score
  | .error e _ => .error e

/-- Compares a score with the one computed from scratch. -/
def checkAgainstRebuild (s : Session kind) (score : Score kind) : Except Error Unit := do
  let rebuilt ← s.rebuild
  if rebuilt ≠ score then throw (.scoreCorruption score.text rebuilt.text)

/-- The checks that a mode asks for. -/
def selfCheck (s : Session kind) (score : Score kind) : Except Error Unit :=
  match s.config.mode with
  | .production => .ok ()
  | .fastAssert => s.network.validate s.graph
  | .fullAssert => do
    s.network.validate s.graph
    s.checkAgainstRebuild score

/-- Flushes, then answers the sum of the totals of all constraints. -/
def calculateScore : SessionAction kind (Score kind) := do
  discard flush
  let s ← get
  let score ← s.network.score s.graph
  guarded (Action.ofExcept (s.selfCheck score))
  pure score

/-- Gives up all facts. Weights that were set stay in force. -/
def clear : SessionAction kind Unit := do
  checkUsable
  modify fun s => { s with network := s.network.reset s.graph, facts := ∅ }
  let s ← get
  guarded (onNetwork (applyWeights s.graph s.weightsInOrder))

/-- Sets the weight of a constraint and recomputes what its matches count. -/
def setWeight (id : ConstraintId) (weight : Score kind) : SessionAction kind Unit := do
  checkUsable
  let s ← get
  let node ← s.graph.constraintNode id
  if (s.network.ledger? node).isNone then throw (.inconsistent (.noLedger id))
  onNetwork (Network.setWeight s.graph node weight)
  modify fun s => { s with weights := s.weights.insert id weight }

/-- The weight of a constraint that is in force. -/
def weight (s : Session kind) (id : ConstraintId) : Except Error (Score kind) := do
  match s.network.ledger? (← s.graph.constraintNode id) with
  | some l => pure l.weight
  | none => throw (.inconsistent (.noLedger id))

/-! ## Looking on -/

def factCount (s : Session kind) : Nat := s.facts.size

def tupleCount (s : Session kind) : Nat := s.network.tupleCount

/-- The checks between flushes. -/
def validate (s : Session kind) : Except Error Unit := s.network.validate s.graph

/-- Stops the program if any tuple is alive. -/
def assertEmpty (s : Session kind) : Except Trap Unit :=
  if s.tupleCount = 0 then .ok () else .error (.leak s.tupleCount)

end Session

end ConstraintStreams
