import ConstraintStreams.Graph.Node

/-!
# Graphs

An immutable network of nodes, built once and shared by any number of sessions. Tuples travel from
the sources, in layer zero, up to the constraints; every link leads to a higher layer.
-/

namespace ConstraintStreams

/-- A network of nodes with its constraints in the order of their declaration. -/
structure Graph (kind : ScoreKind) where
  nodes : Table NodeId (Node kind) := ∅
  constraints : List NodeId := []
  /-- The constraints by name. -/
  names : Table ConstraintId NodeId := ∅

namespace Graph

variable {kind : ScoreKind}

/-- The node of a name. -/
def node (g : Graph kind) (id : NodeId) : Except Error (Node kind) :=
  match g.nodes.get? id with
  | some n => .ok n
  | none => .error (.invalidIndex (.node id))

def nodeCount (g : Graph kind) : Nat := g.nodes.size

/-- The sources of the facts of a type. -/
def sourcesOf (g : Graph kind) (type : FactType) : List NodeId :=
  g.nodes.entries.filterMap fun (id, n) =>
    match n.operator with
    | .source t _ _ => if t = type then some id else none
    | _ => none

/-- The nodes of a layer that own tuples. -/
def layer (g : Graph kind) (i : Nat) : List NodeId :=
  g.nodes.entries.filterMap fun (id, n) =>
    if n.operator.ownsTuples ∧ n.layer = i then some id else none

/-- One more than the highest layer of the given nodes. -/
def heightOf (nodes : List (Node kind)) : Nat := nodes.foldl (fun h n => max h (n.layer + 1)) 0

/-- The number of layers of all nodes together. -/
def height (g : Graph kind) : Nat := heightOf g.nodes.values

/-- The nodes that own tuples, layer by layer. -/
def layers (g : Graph kind) : List (List NodeId) :=
  (List.range (heightOf (g.nodes.values.filter (·.operator.ownsTuples)))).map g.layer

/-- The node of a constraint. -/
def constraintNode (g : Graph kind) (id : ConstraintId) : Except Error NodeId :=
  match g.names.get? id with
  | some node => .ok node
  | none => .error (.constraintNotFound id.text)

/-- The constraint at a node. -/
def constraintAt (g : Graph kind) (id : NodeId) : Except Error (Constraint kind) := do
  match (← g.node id).operator.constraint? with
  | some c => pure c
  | none => throw (.invalidIndex (.constraint id))

/-- The names of the constraints in the order of their declaration. -/
def constraintIds (g : Graph kind) : List ConstraintId :=
  g.constraints.filterMap fun id => ((g.nodes.get? id).bind (·.operator.constraint?)).map (·.id)

end Graph

end ConstraintStreams
