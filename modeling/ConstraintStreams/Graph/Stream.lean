import ConstraintStreams.Graph.Blueprint

/-!
# Streams

Declarations as users write them. A `TupleStream n` stands for a node whose tuples carry `n` facts;
each operation declares one more node on the blueprint and answers the stream of its tuples. A
stream whose declaration failed has no node, and nothing comes of what is declared on it.
-/

namespace ConstraintStreams

/-- A stream of tuples of `arity` facts. -/
structure TupleStream (arity : Nat) where
  node : Option NodeId

/-- A constraint that was declared, if it was. -/
structure DeclaredConstraint where
  node : Option NodeId

namespace TupleStream

variable {kind : ScoreKind} {m n : Nat}

/-- The visible facts of a type. -/
def forEach (type : FactType) : Draft kind (TupleStream 1) :=
  return ⟨← Blueprint.forEach type false⟩

/-- All facts of a type, hidden ones included. -/
def forEachIncludingUnassigned (type : FactType) : Draft kind (TupleStream 1) :=
  return ⟨← Blueprint.forEach type true⟩

/-- Each pair of different facts of a type once, the one with the lower id first. -/
def forEachUniquePair (type : FactType) (joiners : List Joiner) : Draft kind (TupleStream 2) := do
  let source ← Blueprint.forEach type false
  return ⟨← Blueprint.join source source (joiners ++ [Joiner.uniquePair type])⟩

/-- The tuples that satisfy a predicate. -/
def filter (s : TupleStream n) (predicate : Handle (Facts → Except Error Bool)) :
    Draft kind (TupleStream n) :=
  return ⟨← Blueprint.filter s.node predicate⟩

/-- Pairs of tuples that the joiners accept; a pair carries the facts of the left tuple, then those
of the right one, and is refused if that is more than a tuple can carry. -/
def join (s : TupleStream m) (t : TupleStream n) (joiners : List Joiner) :
    Draft kind (TupleStream (m + n)) :=
  return ⟨← Blueprint.join s.node t.node joiners⟩

/-- The tuples that have a match in another stream. -/
def ifExists (s : TupleStream m) (t : TupleStream n) (joiners : List Joiner) :
    Draft kind (TupleStream m) :=
  return ⟨← Blueprint.semijoin s.node t.node true joiners⟩

/-- The tuples that have no match in another stream. -/
def ifNotExists (s : TupleStream m) (t : TupleStream n) (joiners : List Joiner) :
    Draft kind (TupleStream m) :=
  return ⟨← Blueprint.semijoin s.node t.node false joiners⟩

/-- The tuples whose first fact has a match among the *other* facts of a type, or has none. -/
def semijoinOther (s : TupleStream n) (type : FactType) (expected includeUnassigned : Bool)
    (joiners : List Joiner) : Draft kind (TupleStream n) := do
  let other ← Blueprint.forEach type includeUnassigned
  return ⟨← Blueprint.semijoin s.node other expected (joiners ++ [Joiner.otherFact type])⟩

/-- Groups of tuples: the key that they share, if they are grouped by one, and what a collector makes
of them, if there is one. -/
def group (s : TupleStream n) (key : Option (Handle (Facts → Except Error Fact)))
    (collector : Option Collector) :
    Draft kind (TupleStream (key.toList.length + collector.toList.length)) :=
  return ⟨← Blueprint.group s.node key collector⟩

/-- Pairs of a key and what a collector makes of the tuples with that key. -/
def groupBy (s : TupleStream n) (key : Handle (Facts → Except Error Fact)) (collector : Collector) :
    Draft kind (TupleStream 2) :=
  s.group (some key) (some collector)

/-- The keys that occur, each once. -/
def groupByKey (s : TupleStream n) (key : Handle (Facts → Except Error Fact)) :
    Draft kind (TupleStream 1) :=
  s.group (some key) none

/-- What a collector makes of the whole stream. -/
def aggregate (s : TupleStream n) (collector : Collector) : Draft kind (TupleStream 1) :=
  s.group none (some collector)

/-- Tuples of the facts that a mapper makes; it has to answer `m` of them. -/
def map (s : TupleStream n) (mapper : Handle (Facts → Except Error Facts)) (m : Nat) :
    Draft kind (TupleStream m) :=
  return ⟨← Blueprint.map s.node mapper m⟩

/-- One tuple for each item of the last fact, with the other facts before it. -/
def flattenLast (s : TupleStream n) (items : Handle (Fact → Except Error (List Fact))) :
    Draft kind (TupleStream n) :=
  return ⟨← Blueprint.flatten s.node items⟩

/-- One tuple for all those that stand for the same things. -/
def distinct (s : TupleStream n) : Draft kind (TupleStream n) :=
  return ⟨← Blueprint.distinct s.node⟩

/-- The tuples of both streams. -/
def concat (s t : TupleStream n) : Draft kind (TupleStream n) :=
  return ⟨← Blueprint.concat s.node t.node⟩

/-- Charges every tuple. -/
def charge (s : TupleStream n) (impact : Impact) (name : String) (weight : Score kind)
    (weigher : Option (Facts → Except Error Int64)) : Draft kind DeclaredConstraint :=
  return ⟨← Blueprint.addConstraint s.node name weight impact weigher⟩

end TupleStream

namespace DeclaredConstraint

variable {kind : ScoreKind}

/-- Chooses the facts that matches are blamed on. -/
def indictWith (c : DeclaredConstraint) (indicter : Facts → Except Error (List Fact)) :
    Draft kind Unit :=
  Blueprint.setIndicter c.node indicter

/-- The full name of the constraint. -/
def id? (c : DeclaredConstraint) : Draft kind (Option ConstraintId) := do
  let b ← get
  return ((c.node.bind b.catalog.nodes.get?).bind (·.operator.constraint?)).map (·.id)

end DeclaredConstraint

end ConstraintStreams
