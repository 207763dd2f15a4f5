import ConstraintStreams.Action
import ConstraintStreams.Quoted
import ConstraintStreams.Score
import ConstraintStreams.Tuple.Basic

/-!
# Constraints

A constraint charges each tuple that reaches it: its weight times the tuple's match weight, to be
added for a reward and subtracted for a penalty.
-/

namespace ConstraintStreams

/-- Whether matches cost or earn. -/
inductive Impact
  | penalty
  | reward
  deriving DecidableEq

namespace Impact

/-- The factor that an impact applies. -/
def sign : Impact → Int64
  | penalty => -1
  | reward => 1

def name : Impact → String
  | penalty => "Penalty"
  | reward => "Reward"

end Impact

/-- The package of constraints declared without one. -/
def defaultPackage : String := "default"

/-- A constraint of a graph. -/
structure Constraint (kind : ScoreKind) where
  id : ConstraintId
  weight : Score kind
  impact : Impact
  /-- The match weight of a tuple; one for every tuple if absent. -/
  weigher : Option (Facts → Except Error Int64) := none
  /-- The facts that a match is blamed on; all facts of the tuple if absent. -/
  indicter : Option (Facts → Except Error (List Fact)) := none

namespace Constraint

variable {kind : ScoreKind}

/-- The match weight of a tuple. -/
def matchWeight (c : Constraint kind) (facts : Facts) : Except Error Int64 :=
  match c.weigher with
  | some weigher => weigher facts
  | none => .ok 1

/-- What a match of the given match weight counts: `weight × matchWeight × sign`. The match weight
gets its sign first, and that product has to be a word as well. -/
def charge (c : Constraint kind) (weight : Score kind) (matchWeight : Int64) :
    Except Error (Score kind) :=
  match (checkedMul matchWeight c.impact.sign).bind weight.checkedScale with
  | some s => .ok s
  | none => .error (.overflow (.impact c.id weight.text matchWeight))

/-- The facts that a match of a tuple is blamed on. -/
def indicted (c : Constraint kind) (facts : Facts) : Except Error (List Fact) :=
  match c.indicter with
  | some indicter => indicter facts
  | none => .ok facts

/-- The constraint in one line. -/
def describe (c : Constraint kind) : String :=
  "ConstraintDef \x7b id: ConstraintId \x7b package: " ++ quoted '"' c.id.package ++ ", name: "
    ++ quoted '"' c.id.name ++ " \x7d, weight: " ++ c.weight.describe ++ ", impact: "
    ++ c.impact.name ++ ", weighted: " ++ toString c.weigher.isSome ++ " \x7d"

end Constraint

end ConstraintStreams
