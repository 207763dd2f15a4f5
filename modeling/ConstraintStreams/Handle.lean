import ConstraintStreams.Fact.Basic

/-!
# Handles on functions

Functions of the user's have no content that could be compared, so each carries a key: two
handles with one key are the same function. Streams built from the same handle share their nodes.
-/

namespace ConstraintStreams

/-- Tells functions apart. -/
inductive HandleKey
  /-- A function of the user's. -/
  | given (n : Nat)
  /-- The test that keeps a fact of a type from meeting itself. -/
  | otherFact (type : FactType)
  /-- The test that keeps one of the two orders of a pair of facts of a type. -/
  | uniquePair (type : FactType)
  deriving DecidableEq

/-- A function together with its key. -/
structure Handle (α : Type) where
  key : HandleKey
  run : α

end ConstraintStreams
