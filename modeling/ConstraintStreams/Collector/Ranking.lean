import ConstraintStreams.Fact.Basic

/-!
# Rankings

The members of a group in ascending order, each with the number under which it is kept. Members
that compare equal stand in the order of their numbers, so no two places of a ranking are equal.
-/

namespace ConstraintStreams

/-- Numbered members in ascending order. -/
abbrev Ranking := List (Nat × Fact)

namespace Ranking

/-- How two members compare: by content, then by number. -/
def compare (order : Fact → Fact → Ordering) (a b : Nat × Fact) : Ordering :=
  (order a.2 b.2).then (Ord.compare a.1 b.1)

/-- Ranks a new member. -/
def insert (order : Fact → Fact → Ordering) (a : Nat × Fact) : Ranking → Ranking
  | [] => [a]
  | b :: rest =>
    match compare order a b with
    | .lt => a :: b :: rest
    | .eq => b :: rest
    | .gt => b :: insert order a rest

/-- Takes a member out, if it is found at its rank. -/
def erase? (order : Fact → Fact → Ordering) (a : Nat × Fact) : Ranking → Option Ranking
  | [] => none
  | b :: rest =>
    if (compare order a b).isEq then some rest else (erase? order a rest).map (b :: ·)

/-- The first of the least members. -/
def least? (r : Ranking) : Option Fact := r.head?.map Prod.snd

/-- The last of the greatest members. -/
def greatest? (r : Ranking) : Option Fact := r.getLast?.map Prod.snd

end Ranking

end ConstraintStreams
