import ConstraintStreams.Table
import ConstraintStreams.Tuple.Basic

/-!
# The store of tuples

All live tuples of a session. A tuple gets the slot freed last or, when none is free, the lowest
slot that was never used; its name joins the slot with the current generation. Every release
starts a new generation, so a name is never given twice and an outdated name is noticed.
-/

namespace ConstraintStreams

/-- The live tuples of a session and the slots to hand out next. -/
structure TupleStore where
  live : Table TupleId Tuple := ∅
  /-- Freed slots, the one freed last in front. -/
  free : List Nat := []
  /-- The lowest slot that was never used. -/
  unused : Nat := 0
  generation : Nat := 0

namespace TupleStore

instance : EmptyCollection TupleStore := ⟨{ live := ∅ }⟩
instance : Inhabited TupleStore := ⟨∅⟩

/-- The number of live tuples. -/
def size (s : TupleStore) : Nat := s.live.size

/-- The tuple of a name. -/
def find? (s : TupleStore) (id : TupleId) : Option Tuple := s.live.get? id

/-- The tuple of a name; a name that has none is an error. -/
def get (s : TupleStore) (id : TupleId) : Except Error Tuple :=
  match s.find? id with
  | some t => .ok t
  | none => .error (.invalidIndex (.tuple id))

def contains (s : TupleStore) (id : TupleId) : Bool := s.live.contains id

/-- Takes a tuple in and names it. -/
def insert (s : TupleStore) (t : Tuple) : TupleId × TupleStore :=
  match s.free with
  | slot :: free =>
    let id := ⟨slot, s.generation⟩
    (id, { s with live := s.live.insert id t, free })
  | [] =>
    let id := ⟨s.unused, s.generation⟩
    (id, { s with live := s.live.insert id t, unused := s.unused + 1 })

/-- Takes a tuple in unless that would exceed the limit on tuples. -/
def acquire (s : TupleStore) (limits : Limits) (t : Tuple) : Except Error (TupleId × TupleStore) := do
  limits.check .tuples (s.size + 1)
  pure (s.insert t)

/-- Replaces the tuple of a name. -/
def set (s : TupleStore) (id : TupleId) (t : Tuple) : TupleStore :=
  { s with live := s.live.insert id t }

/-- Frees the slot of a tuple; a name without a tuple changes nothing. -/
def erase (s : TupleStore) (id : TupleId) : TupleStore :=
  if s.contains id then
    { s with live := s.live.erase id, free := id.slot :: s.free, generation := s.generation + 1 }
  else s

/-- Releases a tuple and answers it, dead. -/
def release (s : TupleStore) (id : TupleId) : Option Tuple × TupleStore :=
  ((s.find? id).map fun t => { t with stage := .dead }, s.erase id)

/-- Releases every tuple; slots are then handed out from zero again. -/
def clear (s : TupleStore) : TupleStore :=
  { generation := if s.live.isEmpty then s.generation else s.generation + 1 }

/-- The live tuples by ascending slot. -/
def toList (s : TupleStore) : List (TupleId × Tuple) :=
  s.live.entries.mergeSort fun a b => a.1.slot ≤ b.1.slot

/-- The store in one line: how many tuples live in it, and how many may. -/
def describe (s : TupleStore) (limits : Limits) : String :=
  "TupleArena \x7b live_tuples: " ++ toString s.size ++ ", max_tuples: "
    ++ toString limits.maxTuples ++ " \x7d"

end TupleStore

end ConstraintStreams
