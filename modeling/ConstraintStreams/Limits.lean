/-!
# Resource limits

Bounds that keep a session from growing without end.
-/

namespace ConstraintStreams

/-- The limits of a session. -/
structure Limits where
  /-- Most tuples alive at a time, over all nodes. -/
  maxTuples : Nat := 10000000
  /-- Most facts in the session at a time. -/
  maxFacts : Nat := 1000000
  /-- Most deliveries to child nodes in one flush. -/
  maxOperationsPerFlush : Nat := 10000000
  deriving DecidableEq

/-- The three bounds that can be exceeded. -/
inductive Limit
  | tuples
  | facts
  | operations
  deriving DecidableEq

/-- The name by which a report of an exceeded bound calls it. -/
def Limit.name : Limit → String
  | .tuples => "max_tuples"
  | .facts => "max_facts"
  | .operations => "operations_per_flush"

namespace Limits

instance : Inhabited Limits := ⟨{}⟩

/-- Limits for small systems. -/
def conservative : Limits := ⟨100000, 50000, 100000⟩

/-- Limits for large systems. -/
def aggressive : Limits := ⟨100000000, 10000000, 100000000⟩

/-- The bound that a limit sets. -/
def bound (l : Limits) : Limit → Nat
  | .tuples => l.maxTuples
  | .facts => l.maxFacts
  | .operations => l.maxOperationsPerFlush

/-- The name of the first limit that is zero. -/
def firstZero? (l : Limits) : Option String :=
  if l.maxTuples = 0 then some "max_tuples"
  else if l.maxFacts = 0 then some "max_facts"
  else if l.maxOperationsPerFlush = 0 then some "max_operations_per_flush"
  else none

end Limits

end ConstraintStreams
