import ConstraintStreams.Graph.Blueprint
import ConstraintStreams.Session.Explanation

/-!
# Calls and runs

What callers can do to a session, as data. A call is carried out by `Call.run`; the sessions of a
graph that any run of calls leads to are those of `Reached`.
-/

namespace ConstraintStreams

/-- A call on a session. Single facts are batches of one. -/
inductive Call (kind : ScoreKind)
  | insert (facts : List Fact)
  | update (facts : List Fact)
  | retract (keys : List Fact.Key)
  | flush
  | calculateScore
  | clear
  | setWeight (id : ConstraintId) (weight : Score kind)
  | matchTotals
  | indictments
  | indictmentOf (key : Fact.Key)
  | explain

namespace Call

variable {kind : ScoreKind}

/-- Carries a call out; what it answers is left aside. -/
def run : Call kind → SessionAction kind Unit
  | insert facts => Session.insert facts
  | update facts => Session.update facts
  | retract keys => Session.retract keys
  | flush => discard Session.flush
  | calculateScore => discard Session.calculateScore
  | clear => Session.clear
  | setWeight id weight => Session.setWeight id weight
  | matchTotals => discard Session.matchTotals
  | indictments => discard Session.indictments
  | indictmentOf key => discard (Session.indictmentOf key)
  | explain => discard Session.explain

/-- Carries calls out one after the other, whether or not they fail, and answers how each ended. -/
def replay : List (Call kind) → Session kind → List (Except Error Unit) × Session kind
  | [], s => ([], s)
  | c :: rest, s =>
    match c.run s with
    | .ok () s' => ((replay rest s').1.cons (.ok ()), (replay rest s').2)
    | .error e s' => ((replay rest s').1.cons (.error e), (replay rest s').2)

end Call

/-- The sessions on a graph that calls lead to, none of which failed half done. -/
inductive Reached {kind : ScoreKind} (g : Graph kind) : Session kind → Prop
  | opened (config : Config) (order : TupleStore → HashOrder := fun _ => {}) :
    Reached g (Session.new g config order)
  | done {s s' : Session kind} (c : Call kind) : Reached g s → c.run s = .ok () s' → Reached g s'
  /-- A call that was refused before it changed anything. -/
  | refused {s : Session kind} {e : Error} (c : Call kind) :
    Reached g s → c.run s = .error e s → Reached g s

end ConstraintStreams
