import ConstraintStreams.Proofs.Network.Turns
import ConstraintStreams.Proofs.Session.Settling
import ConstraintStreams.Proofs.Tuple.Lifecycle

/-!
# The chronicle of a session

A run of a session that also takes down every propagation: the agenda as the one before left it, and
the turns of the nodes. It is the run of the session; only the record is added. As long as propagation
succeeds, the queues hold the dirty tuples, every propagation tells what is due since the one before and
nothing else, and over the whole run a child of a node hears of each tuple the beginning of
`insert update* retract`.
-/

namespace ConstraintStreams

/-- A propagation: the agenda as the one before left it, and the turns of the nodes. -/
structure Wave where
  since : Agenda
  rounds : List Round

/-- What is heard about a tuple over a link in a propagation. -/
def Wave.heard (w : Wave) (l : Link) (u : TupleId) : List Signal :=
  w.rounds.flatMap fun r => ConstraintStreams.heard r.messages l u

/-- A session with a record of what was propagated in it. -/
structure Chronicle (kind : ScoreKind) where
  session : Session kind
  /-- The agenda as the last propagation left it, or as it was when the session started over. -/
  since : Agenda
  waves : List Wave := []
  /-- A propagation has failed. -/
  broken : Bool := false

/-- Work on a session that keeps a record. -/
abbrev ChronicleAction (kind : ScoreKind) (α : Type) := Action (Chronicle kind) α

namespace Chronicle

variable {kind : ScoreKind} {α : Type}

/-- What is heard about a tuple over a link in the whole run. -/
def heard (c : Chronicle kind) (l : Link) (u : TupleId) : List Signal :=
  c.waves.flatMap fun w => w.heard l u

/-- The beginning of a run. -/
def opened (g : Graph kind) (config : Config) (order : TupleStore → HashOrder) : Chronicle kind where
  session := .new g config order
  since := (Session.new g config order).network.agenda

/-- Work on the session that propagates nothing. -/
def onSession (x : SessionAction kind α) : ChronicleAction kind α :=
  Action.within Chronicle.session (fun session c => { c with session }) x

/-- `Session.flush`, with a record. A session that refuses further work is not broken by that. -/
def flush : ChronicleAction kind Nat := fun c =>
  match Session.flush c.session with
  | .ok count s => .ok count
    { c with
      session := s
      since := s.network.agenda
      waves := c.waves ++ [⟨c.since, c.session.network.rounds c.session.graph⟩] }
  | .error e s => .error e { c with session := s, broken := c.broken || !c.session.poisoned }

/-- `Session.afterChange`, with a record. -/
def afterChange : ChronicleAction kind Unit := do
  if (← get).session.config.propagation = .immediate then discard flush

/-- `Session.calculateScore`, with a record. -/
def calculateScore : ChronicleAction kind (Score kind) := do
  discard flush
  onSession Session.readScore

/-- `Session.matchTotals`, with a record. -/
def matchTotals : ChronicleAction kind (List (MatchTotal kind)) := do
  discard flush
  onSession Session.readTotals

/-- `Session.indictments`, with a record. -/
def indictments : ChronicleAction kind (Except Trap (List (Indictment kind))) :=
  return indict (← matchTotals)

/-- `Session.indictmentOf`, with a record. -/
def indictmentOf (key : Fact.Key) : ChronicleAction kind (Except Trap (Option (Indictment kind))) :=
  return (← indictments).map fun is => is.find? fun i => i.fact.key = key

/-- `Session.explain`, with a record. -/
def explain : ChronicleAction kind (Except Trap (Explanation kind)) := do
  let score ← calculateScore
  let totals ← matchTotals
  return (indict totals).map fun indictments => { score, totals, indictments }

/-- `Session.clear`, with a record. What is asked from then on is asked of an empty agenda. -/
def clear : ChronicleAction kind Unit := do
  onSession Session.checkUsable
  onSession Session.startOver
  modify fun c => { c with since := c.session.network.agenda }
  onSession Session.reweigh

/-- `Call.run`, with a record. -/
def run : Call kind → ChronicleAction kind Unit
  | .insert facts => do onSession (Session.takeIn facts); afterChange
  | .update facts => do onSession (Session.takeOver facts); afterChange
  | .retract keys => do onSession (Session.giveUp keys); afterChange
  | .flush => discard flush
  | .calculateScore => discard calculateScore
  | .clear => clear
  | .setWeight id weight => onSession (Session.setWeight id weight)
  | .matchTotals => discard matchTotals
  | .indictments => discard indictments
  | .indictmentOf key => discard (indictmentOf key)
  | .explain => discard explain

/-- The record after a call, whichever way it ended. -/
def after (c : Chronicle kind) (call : Call kind) : Chronicle kind :=
  match run call c with
  | .ok _ c' | .error _ c' => c'

/-- The record of a run, which begins with a new session. -/
def recorded (g : Graph kind) (config : Config) (order : TupleStore → HashOrder)
    (calls : List (Call kind)) : Chronicle kind :=
  calls.foldl after (opened g config order)

/-! ## The record changes nothing -/

open ConstraintStreams.Action (Follows)

theorem follows_onSession (y : SessionAction kind α) : Follows session (onSession y) y :=
  .within (fun _ _ => rfl) y

theorem follows_flush : Follows session flush (Session.flush : SessionAction kind Nat) := by
  intro c
  unfold flush
  cases Session.flush c.session <;> rfl

theorem follows_afterChange :
    Follows session afterChange (Session.afterChange : SessionAction kind Unit) := by
  refine .get fun c => ?_
  by_cases himmediate : c.session.config.propagation = .immediate
  · rw [if_pos himmediate, if_pos himmediate]
    exact .discard follows_flush
  · rw [if_neg himmediate, if_neg himmediate]
    exact .pure _

theorem follows_calculateScore :
    Follows session calculateScore (Session.calculateScore : SessionAction kind _) := by
  rw [Session.calculateScore_eq]
  exact (Follows.discard follows_flush).bind fun _ => follows_onSession _

theorem follows_matchTotals :
    Follows session matchTotals (Session.matchTotals : SessionAction kind _) := by
  rw [Session.matchTotals_eq]
  exact (Follows.discard follows_flush).bind fun _ => follows_onSession _

theorem follows_indictments :
    Follows session indictments (Session.indictments : SessionAction kind _) :=
  follows_matchTotals.bind fun _ => .pure _

theorem follows_clear : Follows session clear (Session.clear : SessionAction kind Unit) := by
  rw [Session.clear_eq]
  exact (follows_onSession _).bind fun _ => (follows_onSession _).bind fun _ =>
    .note (fun _ => rfl) (follows_onSession _)

/-- A run with a record is the run. -/
theorem follows_run (call : Call kind) : Follows session (run call) call.run := by
  cases call with
  | insert facts =>
    show Follows session _ (Session.insert facts)
    rw [Session.insert_eq]
    exact (follows_onSession _).bind fun _ => follows_afterChange
  | update facts =>
    show Follows session _ (Session.update facts)
    rw [Session.update_eq]
    exact (follows_onSession _).bind fun _ => follows_afterChange
  | retract keys =>
    show Follows session _ (Session.retract keys)
    rw [Session.retract_eq]
    exact (follows_onSession _).bind fun _ => follows_afterChange
  | flush => exact .discard follows_flush
  | calculateScore => exact .discard follows_calculateScore
  | clear => exact follows_clear
  | setWeight id weight => exact follows_onSession _
  | matchTotals => exact .discard follows_matchTotals
  | indictments => exact .discard follows_indictments
  | indictmentOf key => exact .discard (follows_indictments.bind fun _ => .pure _)
  | explain =>
    exact .discard (follows_calculateScore.bind fun _ => follows_matchTotals.bind fun _ => .pure _)

/-- The session of the record is the one that the calls lead to. -/
theorem session_foldl (calls : List (Call kind)) (c : Chronicle kind) :
    (calls.foldl after c).session = (Call.replay calls c.session).2 := by
  induction calls generalizing c with
  | nil => rfl
  | cons call rest ih =>
    rw [List.foldl_cons, ih]
    unfold after
    cases hrun : run call c with
    | ok a c' => simp [Call.replay, (follows_run call).of_ok hrun]
    | error e c' => simp [Call.replay, (follows_run call).of_error hrun]

end Chronicle

end ConstraintStreams
