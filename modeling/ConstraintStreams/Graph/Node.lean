import ConstraintStreams.Collector.Basic
import ConstraintStreams.Constraint.Basic
import ConstraintStreams.Joiner.Basic
import ConstraintStreams.Operator.Workbench

/-!
# Nodes

A node of a graph is an operator with its parents, its children, the number of facts in the tuples
it passes on, and its layer. `NodeKey` is what makes two nodes the same: the operator with its
arguments, functions being compared by handle, and the parents. Constraints have no key; each is a
node of its own.
-/

namespace ConstraintStreams

/-- What a node does with the tuples of its parents. -/
inductive Operator (kind : ScoreKind)
  /-- All facts of a type that satisfy the visibility predicate. -/
  | source (type : FactType) (includeUnassigned : Bool) (visibility : Option (Fact → Except Error Bool))
  | filter (predicate : Handle (Facts → Except Error Bool))
  | join (joiners : List Joiner)
  /-- The left tuples that have a match on the right, or those that have none. -/
  | semijoin (expected : Bool) (joiners : List Joiner)
  | group (key : Option (Handle (Facts → Except Error Fact))) (collector : Option Collector)
  | map (mapper : Handle (Facts → Except Error Facts))
  | flatten (items : Handle (Fact → Except Error (List Fact)))
  | distinct
  | concat
  | constraint (c : Constraint kind)

namespace Operator

variable {kind : ScoreKind}

/-- The operator's name. -/
def name : Operator kind → String
  | source .. => "ForEach"
  | filter _ => "Filter"
  | join _ => "Join"
  | semijoin true _ => "IfExists"
  | semijoin false _ => "IfNotExists"
  | group .. => "GroupBy"
  | map _ => "Map"
  | flatten _ => "FlattenLast"
  | distinct => "Distinct"
  | concat => "Concat"
  | constraint _ => "Constraint"

/-- Filters and constraints own no tuples; they act on a signal as it arrives. -/
def ownsTuples : Operator kind → Bool
  | filter _ | constraint _ => false
  | _ => true

/-- The constraint at a leaf. -/
def constraint? : Operator kind → Option (Constraint kind)
  | constraint c => some c
  | _ => none

end Operator

/-- The way from a node to one of its children, and the side on which it arrives there. -/
structure Link where
  node : NodeId
  side : Side
  deriving DecidableEq

/-- A node of a graph. -/
structure Node (kind : ScoreKind) where
  operator : Operator kind
  parents : List NodeId
  children : List Link := []
  arity : Nat
  /-- Zero for a source; every other node is above all its parents. -/
  layer : Nat

/-- The identity of a node, as far as sharing is concerned. -/
inductive NodeKey
  | source (type : FactType) (includeUnassigned : Bool)
  | filter (parent : NodeId) (predicate : HandleKey)
  | join (left right : NodeId) (joiners : List Joiner.Key)
  | semijoin (left right : NodeId) (expected : Bool) (joiners : List Joiner.Key)
  | group (parent : NodeId) (key : Option HandleKey) (collector : Option CollectorKey)
  | map (parent : NodeId) (mapper : HandleKey) (arity : Nat)
  | flatten (parent : NodeId) (items : HandleKey)
  | distinct (parent : NodeId)
  | concat (left right : NodeId)
  deriving DecidableEq

namespace Node

variable {kind : ScoreKind}

/-- The operator's name. -/
def name (n : Node kind) : String := n.operator.name

/-- The parent at a position. -/
def parent (n : Node kind) (i : Nat) : Except Error NodeId :=
  match n.parents[i]? with
  | some id => .ok id
  | none => .error (.declaration (.missingParent n.name i))

/-- The key under which a node is shared; none for a constraint. -/
def key? (n : Node kind) : Except Error (Option NodeKey) :=
  match n.operator with
  | .source type includeUnassigned _ => return some (.source type includeUnassigned)
  | .filter predicate => return some (.filter (← n.parent 0) predicate.key)
  | .join joiners =>
    return some (.join (← n.parent 0) (← n.parent 1) (joiners.map Joiner.key))
  | .semijoin expected joiners =>
    return some (.semijoin (← n.parent 0) (← n.parent 1) expected (joiners.map Joiner.key))
  | .group key collector =>
    return some (.group (← n.parent 0) (key.map (·.key)) (collector.map (·.key)))
  | .map mapper => return some (.map (← n.parent 0) mapper.key n.arity)
  | .flatten items => return some (.flatten (← n.parent 0) items.key)
  | .distinct => return some (.distinct (← n.parent 0))
  | .concat => return some (.concat (← n.parent 0) (← n.parent 1))
  | .constraint _ => return none

end Node

end ConstraintStreams
