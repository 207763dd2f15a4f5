import ConstraintStreams.Error
import ConstraintStreams.Fact.Basic

/-!
# Tuples

A tuple carries between one and four facts. Predicates, mappers, keys and weights all read the
facts of a tuple through the accessors of `Facts`, which report a position or a type that is not
there.
-/

namespace ConstraintStreams

/-- The most facts that a tuple can carry. -/
def maxArity : Nat := 4

/-- The facts of a tuple, in order. -/
abbrev Facts := List Fact

namespace Facts

/-- The fact at a position. Where there is none, the number of facts that there would have to be is
reported; it is counted in words, and the program stops where it is not one. -/
def at? (facts : Facts) (i : Nat) : Except Error Fact :=
  match facts[i]? with
  | some a => .ok a
  | none =>
    if i + 1 < UInt64.size then .error (.invalidArity (i + 1) facts.length)
    else .error (.stopped .addition)

/-- The fact at a position, which has to be of a type. -/
def typedAt? (facts : Facts) (type : FactType) (i : Nat) : Except Error Fact := do
  let a ← facts.at? i
  if a.type = type then pure a else throw (.typeMismatch type.name a.type.name)

/-- The last fact. -/
def last? (facts : Facts) : Except Error Fact :=
  match facts.getLast? with
  | some a => .ok a
  | none => .error (.invalidArity 1 0)

/-- What the facts stand for, one by one. -/
def identity (facts : Facts) : Facts := facts.map Fact.identity

/-- The facts stand for the same things, one by one. -/
def Same (a b : Facts) : Prop := identity a = identity b

instance (a b : Facts) : Decidable (Same a b) := inferInstanceAs (Decidable (_ = _))

end Facts

/-- A tuple: its facts, the node that owns it, its stage, and the tuples it was derived from. -/
structure Tuple where
  facts : Facts
  node : NodeId
  stage : Stage
  sources : Sources
  deriving DecidableEq

namespace Tuple

/-- A tuple that has just been made. -/
def new (node : NodeId) (facts : Facts) (sources : Sources) : Tuple :=
  ⟨facts, node, .creating, sources⟩

def arity (t : Tuple) : Nat := t.facts.length

end Tuple

end ConstraintStreams
