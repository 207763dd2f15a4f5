/-!
# Names of nodes and tuples

A node is named by its ordinal in the blueprint that declared it. A tuple is named by the slot it
occupies and by the generation in which it got the slot, so that a name outlives its tuple
without ever meaning another one.
-/

namespace ConstraintStreams

/-- Names a node of a graph. -/
structure NodeId where
  ordinal : Nat
  deriving DecidableEq

/-- A node's name in messages. -/
def NodeId.text (id : NodeId) : String := "NodeId(" ++ toString id.ordinal ++ "v1)"

/-- Names a tuple of a session. -/
structure TupleId where
  slot : Nat
  generation : Nat
  deriving DecidableEq

/-- A tuple's name in messages. -/
def TupleId.text (id : TupleId) : String :=
  "Index \x7b index: " ++ toString id.slot ++ ", generation: " ++ toString id.generation ++ " \x7d"

/-- Where a tuple stands in its life. -/
inductive Stage
  /-- Made, and not yet seen by the children of its node. -/
  | creating
  /-- Seen by the children as it is. -/
  | settled
  /-- Changed since the children last saw it. -/
  | updating
  /-- Withdrawn; the children still have to see that. -/
  | dying
  /-- Withdrawn before the children ever saw it. -/
  | aborting
  /-- Released. -/
  | dead
  deriving DecidableEq

namespace Stage

/-- A stage's name in messages. -/
def name : Stage → String
  | creating => "Creating"
  | settled => "Ok"
  | updating => "Updating"
  | dying => "Dying"
  | aborting => "Aborting"
  | dead => "Dead"

/-- All stages. -/
def all : List Stage := [creating, settled, updating, dying, aborting, dead]

/-- The stage with a name. -/
def ofName? (name : String) : Option Stage := all.find? fun s => s.name = name

/-- A tuple in this stage waits in the queue of its node. -/
def isDirty : Stage → Bool
  | creating | updating | dying | aborting => true
  | settled | dead => false

/-- The children of the node currently see a tuple in this stage. -/
def isLive : Stage → Bool
  | settled | updating => true
  | creating | dying | aborting | dead => false

end Stage

/-- The input tuples that a tuple was derived from. -/
inductive Sources
  | none
  | single (input : TupleId)
  | pair (left right : TupleId)
  deriving DecidableEq

/-- The sources in messages. -/
def Sources.text : Sources → String
  | none => "None"
  | single input => "Single(" ++ input.text ++ ")"
  | pair left right => "Pair(" ++ left.text ++ ", " ++ right.text ++ ")"

end ConstraintStreams
