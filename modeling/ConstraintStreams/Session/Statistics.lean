import ConstraintStreams.Session.Basic

/-!
# Statistics

How large a session and its network are.
-/

namespace ConstraintStreams

/-- The sizes of a session and its network. -/
structure Statistics where
  nodes : Nat
  /-- How many nodes there are of each operator, by name. -/
  nodesByName : Table String Nat
  constraints : Nat
  facts : Nat
  tuples : Nat
  pending : Nat
  /-- The inputs that all nodes together hold something about. -/
  memoryEntries : Nat

namespace Session

variable {kind : ScoreKind}

/-- The current sizes. -/
def statistics (s : Session kind) : Statistics where
  nodes := s.graph.nodeCount
  nodesByName := s.graph.nodes.values.foldl
    (fun table n => table.insert n.name ((table.get? n.name).getD 0 + 1)) ∅
  constraints := s.graph.constraints.length
  facts := s.factCount
  tuples := s.tupleCount
  pending := s.network.pending
  memoryEntries := s.graph.nodes.keys.foldl
    (fun total id => total + ((s.network.memories.get? id).map NodeMemory.size).getD 0) 0

end Session

end ConstraintStreams
