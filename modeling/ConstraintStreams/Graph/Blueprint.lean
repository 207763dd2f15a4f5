import ConstraintStreams.Graph.Basic
import ConstraintStreams.Graph.Catalog

/-!
# Blueprints

A blueprint collects declarations and is then built into a graph. A declaration that cannot be
carried out is recorded as an error and answers no node; what is declared on top of no node is
skipped in silence, and `Blueprint.build` reports the first recorded error. Once built, a
blueprint takes no further declarations.
-/

namespace ConstraintStreams

/-- The declarations made so far. -/
structure Blueprint (kind : ScoreKind) where
  catalog : Catalog kind := {}
  /-- For a type, which of its facts the sources made from now on show. -/
  visibility : Table FactType (Fact → Except Error Bool) := ∅
  /-- The types that have a source already. -/
  resolved : List FactType := []
  constraints : List NodeId := []
  names : Table ConstraintId NodeId := ∅
  /-- The package of the constraints declared from now on. -/
  package : String := defaultPackage
  errors : List Error := []
  built : Bool := false

/-- A declaration on a blueprint. -/
abbrev Draft (kind : ScoreKind) (α : Type) := StateM (Blueprint kind) α

namespace Blueprint

variable {kind : ScoreKind}

instance : Inhabited (Blueprint kind) := ⟨{ catalog := {} }⟩

/-- The number of facts in the tuples of a node. -/
def arityOf? (b : Blueprint kind) (id : NodeId) : Option Nat :=
  (b.catalog.nodes.get? id).map (·.arity)

def nodeCount (b : Blueprint kind) : Nat := b.catalog.nodes.size

/-- Records an error. -/
def record (e : Error) : Draft kind Unit := modify fun b => { b with errors := b.errors ++ [e] }

/-- Records an error and answers no node. -/
def refuse (e : Error) : Draft kind (Option NodeId) := do
  record e
  pure none

/-- Puts the constraints declared from now on into a package. -/
def setPackage (package : String) : Draft kind Unit := modify ({ · with package })

/-- Restricts the facts of a type that its sources show. The sources have to come later. -/
def registerVisibility (type : FactType) (predicate : Fact → Except Error Bool) : Draft kind Unit := do
  let b ← get
  if b.resolved.contains type then record (.declaration (.lateVisibility type.name))
  else set { b with visibility := b.visibility.insert type predicate }

/-- The layer above all the given parents, or the first of them that does not exist. -/
def layerAbove (nodes : Table NodeId (Node kind)) : List NodeId → Nat → Except NodeId Nat
  | [], layer => .ok layer
  | parent :: rest, layer =>
    match nodes.get? parent with
    | some n => layerAbove nodes rest (max layer (n.layer + 1))
    | none => .error parent

/-- The sides on which a node is linked to its parents. -/
def sides : List NodeId → List (NodeId × Side)
  | [left, right] => [(left, .left), (right, .right)]
  | parents => parents.map fun parent => (parent, .only)

/-- Links a new node to its parents. -/
def attach (child : NodeId) (parents : List NodeId) : Draft kind Unit :=
  modify fun b => { b with
    catalog := (sides parents).foldl (fun c (parent, side) => c.link parent ⟨child, side⟩) b.catalog }

/-- Gives a source that respects visibility the predicate registered for its type. -/
def resolveVisibility (b : Blueprint kind) (n : Node kind) : Node kind :=
  match n.operator with
  | .source type false _ => { n with operator := .source type false (b.visibility.get? type) }
  | _ => n

/-- Adds a node, or finds the one declared before. -/
def addNode (operator : Operator kind) (parents : List NodeId) (arity : Nat) :
    Draft kind (Option NodeId) := do
  let b ← get
  if b.built then refuse .alreadyBuilt
  else if arity = 0 ∨ maxArity < arity then
    refuse (.declaration (.arity operator.name arity maxArity))
  else
    match layerAbove b.catalog.nodes parents 0 with
    | .error parent => refuse (.declaration (.foreignParent parent))
    | .ok layer =>
      let candidate : Node kind := { operator, parents, arity, layer }
      match Catalog.share candidate (fun n => .ok (b.resolveVisibility n)) b.catalog with
      | .error e catalog =>
        set { b with catalog }
        refuse e
      | .ok shared catalog =>
        set { b with catalog }
        if shared.created then attach shared.node parents
        pure (some shared.node)

/-- All visible facts of a type, or all its facts. -/
def forEach (type : FactType) (includeUnassigned : Bool) : Draft kind (Option NodeId) := do
  match ← addNode (.source type includeUnassigned none) [] 1 with
  | none => pure none
  | some id =>
    modify fun b => { b with resolved := b.resolved.insert type }
    pure (some id)

/-- Declares on a stream, with its arity at hand; nothing on a stream that has no node. -/
def withArity (parent : Option NodeId) (f : NodeId → Nat → Draft kind (Option NodeId)) :
    Draft kind (Option NodeId) := do
  match parent with
  | none => pure none
  | some id =>
    match (← get).arityOf? id with
    | none => pure none
    | some arity => f id arity

/-- Keeps the tuples that satisfy a predicate. -/
def filter (parent : Option NodeId) (predicate : Handle (Facts → Except Error Bool)) :
    Draft kind (Option NodeId) :=
  withArity parent fun id arity => addNode (.filter predicate) [id] arity

/-- Pairs of tuples that the joiners accept. -/
def join (left right : Option NodeId) (joiners : List Joiner) : Draft kind (Option NodeId) :=
  match right with
  | none => pure none
  | some _ =>
    withArity left fun l leftArity => withArity right fun r rightArity =>
      if maxArity < leftArity + rightArity then
        refuse (.incompatibleJoinArity leftArity rightArity maxArity)
      else addNode (.join joiners) [l, r] (leftArity + rightArity)

/-- Left tuples with a match on the right, or those without. -/
def semijoin (left right : Option NodeId) (expected : Bool) (joiners : List Joiner) :
    Draft kind (Option NodeId) :=
  match right with
  | none => pure none
  | some r => withArity left fun l arity => addNode (.semijoin expected joiners) [l, r] arity

/-- Groups by a key, or the whole stream as one group, with what a collector makes of each. -/
def group (parent : Option NodeId) (key : Option (Handle (Facts → Except Error Fact)))
    (collector : Option Collector) : Draft kind (Option NodeId) :=
  match parent with
  | none => pure none
  | some id =>
    let arity := key.toList.length + collector.toList.length
    if arity = 0 then refuse (.declaration .emptyGroup)
    else addNode (.group key collector) [id] arity

/-- Tuples of the facts that a mapper makes, which is to answer `arity` of them. -/
def map (parent : Option NodeId) (mapper : Handle (Facts → Except Error Facts)) (arity : Nat) :
    Draft kind (Option NodeId) :=
  match parent with
  | none => pure none
  | some id => addNode (.map mapper) [id] arity

/-- One tuple for each item of the last fact. -/
def flatten (parent : Option NodeId) (items : Handle (Fact → Except Error (List Fact))) :
    Draft kind (Option NodeId) :=
  withArity parent fun id arity => addNode (.flatten items) [id] arity

/-- One tuple for all those that stand for the same things. -/
def distinct (parent : Option NodeId) : Draft kind (Option NodeId) :=
  withArity parent fun id arity => addNode .distinct [id] arity

/-- The tuples of both streams. -/
def concat (left right : Option NodeId) : Draft kind (Option NodeId) :=
  match right with
  | none => pure none
  | some _ =>
    withArity left fun l leftArity => withArity right fun r rightArity =>
      if leftArity ≠ rightArity then
        refuse (.declaration (.unequalArities leftArity rightArity))
      else addNode .concat [l, r] leftArity

/-- Charges the tuples of a stream under a name that is new in its package. -/
def addConstraint (parent : Option NodeId) (name : String) (weight : Score kind) (impact : Impact)
    (weigher : Option (Facts → Except Error Int64)) : Draft kind (Option NodeId) := do
  match parent with
  | none => pure none
  | some parent =>
    let id : ConstraintId := ⟨(← get).package, name⟩
    if (← get).names.contains id then refuse (.duplicateConstraint id.text)
    else withArity (some parent) fun parent arity => do
      match ← addNode (.constraint { id, weight, impact, weigher }) [parent] arity with
      | none => pure none
      | some node =>
        modify fun b =>
          { b with constraints := b.constraints ++ [node], names := b.names.insert id node }
        pure (some node)

/-- Chooses the facts that the matches of a constraint are blamed on. -/
def setIndicter (constraint : Option NodeId) (indicter : Facts → Except Error (List Fact)) :
    Draft kind Unit :=
  match constraint with
  | none => pure ()
  | some id =>
    modify fun b => { b with
      catalog := { b.catalog with
        nodes := b.catalog.nodes.modify id fun n =>
          match n.operator with
          | .constraint c => { n with operator := .constraint { c with indicter := some indicter } }
          | _ => n } }

/-- The given nodes and all that they depend on. Parents are declared before their children, so
one pass from the last node to the first finds them all. -/
def ancestors (nodes : List (NodeId × Node kind)) (leaves : List NodeId) : List NodeId :=
  nodes.foldr (fun (id, n) found => if id ∈ found then n.parents ++ found else found) leaves

/-- The graph of the constraints declared: their nodes, what these depend on, and nothing else. -/
def prune (b : Blueprint kind) : Graph kind :=
  let kept := ancestors b.catalog.nodes.entries b.constraints
  let keep (n : Node kind) : Node kind :=
    { n with children := n.children.filter fun link => link.node ∈ kept }
  { nodes := (b.catalog.nodes.filter fun id _ => id ∈ kept).mapValues fun _ n => keep n
    constraints := b.constraints
    names := b.names }

/-- The blueprint after its graph was taken out of it. -/
def emptied (b : Blueprint kind) : Blueprint kind :=
  { b with
    built := true
    catalog := { b.catalog with nodes := ∅ }
    constraints := []
    names := ∅ }

/-- Ends the declarations and answers the graph, or the first error recorded. -/
def build : Draft kind (Except Error (Graph kind)) := fun b =>
  if b.built then (.error .alreadyBuilt, b)
  else
    match b.errors with
    | e :: errors => (.error e, { b with built := true, errors })
    | [] => (.ok b.prune, b.emptied)

end Blueprint

end ConstraintStreams
