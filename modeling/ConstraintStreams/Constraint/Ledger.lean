import ConstraintStreams.Constraint.Basic
import ConstraintStreams.HashOrder

/-!
# The ledger of a constraint

What a session remembers of one constraint: the weight in force, an entry for each tuple that
matches, and the running total of the entries' scores.
-/

namespace ConstraintStreams

/-- What one match counts. -/
structure Entry (kind : ScoreKind) where
  matchWeight : Int64
  score : Score kind
  deriving DecidableEq

/-- The matches of a constraint and their total. -/
structure Ledger (kind : ScoreKind) where
  weight : Score kind
  entries : Table TupleId (Entry kind) := ∅
  total : Score kind := .zero

namespace Ledger

variable {kind : ScoreKind}

/-- The ledger of a constraint that nothing matches. -/
def new (weight : Score kind) : Ledger kind := { weight }

/-- A score that is a word at every level, or the report that the total is not. -/
def orTotalOverflow (c : Constraint kind) : Option (Score kind) → Except Error (Score kind)
  | some s => .ok s
  | none => .error (.overflow (.total c.id))

/-- Enters a tuple that now matches. -/
def insert (c : Constraint kind) (id : TupleId) (facts : Facts) : Action (Ledger kind) Unit := do
  let matchWeight ← c.matchWeight facts
  let l ← get
  let score ← c.charge l.weight matchWeight
  if l.entries.contains id then throw (.inconsistent (.matchedTwice c.id id))
  let total ← orTotalOverflow c (l.total.checkedAdd score)
  set { l with total, entries := l.entries.insert id ⟨matchWeight, score⟩ }

/-- Strikes out a tuple that matches no longer. -/
def retract (c : Constraint kind) (id : TupleId) : Action (Ledger kind) Unit := do
  let l ← get
  match l.entries.get? id with
  | none => throw (.inconsistent (.noMatch c.id id))
  | some entry =>
    set { l with entries := l.entries.erase id }
    let total ← orTotalOverflow c (l.total.checkedSub entry.score)
    modify fun l => { l with total }

/-- Enters a tuple anew whose facts have changed. -/
def update (c : Constraint kind) (id : TupleId) (facts : Facts) : Action (Ledger kind) Unit := do
  retract c id
  insert c id facts

/-- Recomputes one match under another weight, and adds it to the total of those before it. -/
def rescore (c : Constraint kind) (weight : Score kind)
    (done : Table TupleId (Entry kind) × Score kind) (entry : TupleId × Entry kind) :
    Except Error (Table TupleId (Entry kind) × Score kind) := do
  let score ← c.charge weight entry.2.matchWeight
  let total ← orTotalOverflow c (done.2.checkedAdd score)
  return (done.1.insert entry.1 ⟨entry.2.matchWeight, score⟩, total)

/-- The ledger under another weight, with every match recomputed in the order in which the hash map
of the entries hands them out. -/
def underWeight (c : Constraint kind) (weight : Score kind) (order : Arrangement TupleId)
    (l : Ledger kind) : Except Error (Ledger kind) := do
  let (entries, total) ← (l.entries.inOrder order).foldlM (rescore c weight) (l.entries, .zero)
  return { weight, entries, total }

/-- Puts another weight in force and recomputes every entry. On failure nothing changes. -/
def setWeight (c : Constraint kind) (weight : Score kind)
    (order : Arrangement TupleId := .arrival) : Action (Ledger kind) Unit := do
  set (← (← get).underWeight c weight order)

/-- The number of matches. -/
def size (l : Ledger kind) : Nat := l.entries.size

/-- Forgets all matches and keeps the weight. -/
def clear (l : Ledger kind) : Ledger kind := new l.weight

end Ledger

end ConstraintStreams
