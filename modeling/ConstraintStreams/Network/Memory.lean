import ConstraintStreams.Constraint.Ledger
import ConstraintStreams.Graph.Basic
import ConstraintStreams.Operator.Concat
import ConstraintStreams.Operator.Distinct
import ConstraintStreams.Operator.Filter
import ConstraintStreams.Operator.Flatten
import ConstraintStreams.Operator.Group
import ConstraintStreams.Operator.Join
import ConstraintStreams.Operator.Map
import ConstraintStreams.Operator.Semijoin

/-!
# What a session remembers of each node

Graphs never change; what an operator has to remember between signals is kept per session, in one
`NodeMemory` for each node.
-/

namespace ConstraintStreams

/-- The memory of one node. -/
inductive NodeMemory (kind : ScoreKind)
  | source
  | filter (m : FilterMemory)
  | join (m : JoinMemory)
  | semijoin (m : SemijoinMemory)
  | group (m : GroupMemory)
  | map (m : MapMemory)
  | flatten (m : FlattenMemory)
  | distinct (m : DistinctMemory)
  | concat (m : ConcatMemory)
  | constraint (l : Ledger kind)

namespace NodeMemory

variable {kind : ScoreKind}

/-- The memory of a node that has seen nothing. -/
def new : Operator kind → NodeMemory kind
  | .source .. => source
  | .filter _ => filter {}
  | .join _ => join {}
  | .semijoin .. => semijoin {}
  | .group .. => group {}
  | .map _ => map {}
  | .flatten _ => flatten {}
  | .distinct => distinct {}
  | .concat => concat {}
  | .constraint c => constraint (.new c.weight)

/-- The number of inputs that the node holds something about. -/
def size : NodeMemory kind → Nat
  | source => 0
  | filter m => m.passed.length
  | join m => m.size
  | semijoin m => m.size
  | group m => m.size
  | map m => m.outputs.size
  | flatten m => m.outputs.size
  | distinct m => m.members.size
  | concat m => m.outputs.size
  | constraint l => l.size

/-- The node has outputs that its next refresh would look at. -/
def hasDirty : NodeMemory kind → Bool
  | group m => m.hasDirty
  | semijoin m => m.hasDirty
  | _ => false

/-- The ledger at a constraint. -/
def ledger? : NodeMemory kind → Option (Ledger kind)
  | constraint l => some l
  | _ => none

end NodeMemory

end ConstraintStreams
