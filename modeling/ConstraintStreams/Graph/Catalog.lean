import ConstraintStreams.Graph.Node

/-!
# The catalog of nodes

The nodes declared so far, together with the key under which each can be found again. A declaration
that repeats an earlier one gets the node that is already there; `Catalog.share` decides that.
-/

namespace ConstraintStreams

/-- Nodes by name, and the names of those that can be shared by key. -/
structure Catalog (kind : ScoreKind) where
  nodes : Table NodeId (Node kind) := ∅
  keys : Table NodeKey NodeId := ∅

/-- What came of sharing a candidate. -/
structure Shared where
  node : NodeId
  /-- The node is new. -/
  created : Bool
  deriving DecidableEq

namespace Catalog

variable {kind : ScoreKind}

/-- The name for the next new node. -/
def nextId (c : Catalog kind) : NodeId := ⟨c.nodes.size + 1⟩

/-- Adds a node under a key, if it has one. -/
def add (c : Catalog kind) (key : Option NodeKey) (node : Node kind) : Catalog kind where
  nodes := c.nodes.insert c.nextId node
  keys := match key with
    | some key => c.keys.insert key c.nextId
    | none => c.keys

/-- Finds the node of a candidate's key or else adds the candidate, after `prepare` has completed
it. A candidate that already has children is refused, for they would not know a shared node. -/
def share (candidate : Node kind) (prepare : Node kind → Except Error (Node kind)) :
    Action (Catalog kind) Shared := do
  if !candidate.children.isEmpty then throw .childBeforeSharing
  let key ← candidate.key?
  let c ← get
  match key.bind c.keys.get? with
  | some node => pure ⟨node, false⟩
  | none =>
    let node ← prepare candidate
    set (c.add key node)
    pure ⟨c.nextId, true⟩

/-- Adds a link from a node to a child. -/
def link (c : Catalog kind) (parent : NodeId) (child : Link) : Catalog kind :=
  { c with nodes := c.nodes.modify parent fun n => { n with children := n.children ++ [child] } }

end Catalog

end ConstraintStreams
