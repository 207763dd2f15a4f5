import ConstraintStreams.Network.Basic
import ConstraintStreams.Proofs.Action

/-!
# The deliveries of a flush

A flush that also records what was delivered over which link. The record is for proofs only: a traced
flush ends as the flush does, so whatever is proved of the one holds of the other.
-/

namespace ConstraintStreams

/-- Something about a tuple was delivered over a link. -/
structure Delivery where
  link : Link
  tuple : TupleId
  deriving DecidableEq

/-- A network, and what was delivered in it, the last delivery in front. -/
structure Traced (kind : ScoreKind) where
  net : Network kind
  trace : List Delivery := []

/-- Work on a network that keeps a record. -/
abbrev TracedAction (kind : ScoreKind) (α : Type) := Action (Traced kind) α

namespace Traced

variable {kind : ScoreKind} {α β : Type}

/-- Work on the network alone. -/
def onNetwork (x : NetworkAction kind α) : TracedAction kind α :=
  Action.within Traced.net (fun net s => { s with net }) x

/-- Records a delivery. -/
def record (link : Link) (id : TupleId) : TracedAction kind Unit :=
  modify fun s => { s with trace := ⟨link, id⟩ :: s.trace }

/-- `Network.deliver`, with a record. -/
def deliver (g : Graph kind) : Nat → Signal → TupleId → Link → TracedAction kind Unit
  | 0, _, _, link => throw (.inconsistent (.tooDeep link.node))
  | depth + 1, signal, id, link => do
    record link id
    onNetwork Network.countOperation
    let n ← g.node link.node
    match ← onNetwork (Network.act link.node n link.side id signal) with
    | some next => n.children.forM (deliver g depth next id)
    | none => pure ()

/-- `Network.forward`, with a record. -/
def forward (g : Graph kind) (node : NodeId) (signal : Signal) (id : TupleId) :
    TracedAction kind Unit := do
  (← g.node node).children.forM (deliver g g.height signal id)

/-- `Network.process`, with a record. -/
def process (g : Graph kind) (node : NodeId) (id : TupleId) : TracedAction kind Unit := do
  match ← (← get).net.agenda.stage id with
  | .creating =>
    onNetwork (Network.onAgenda (Agenda.setStage id .settled))
    forward g node .insert id
  | .updating =>
    onNetwork (Network.onAgenda (Agenda.setStage id .settled))
    forward g node .update id
  | .dying =>
    forward g node .retract id
    onNetwork (Network.onAgenda (Agenda.release id))
  | .aborting => onNetwork (Network.onAgenda (Agenda.release id))
  | .settled | .dead => pure ()

/-- `Network.drain`, with a record. -/
def drain (g : Graph kind) (node : NodeId) : TracedAction kind Nat := do
  onNetwork (Network.refresh g node)
  let queue ← onNetwork (Network.onAgenda (Agenda.takeQueue node))
  queue.forM (process g node)
  pure queue.length

/-- `Network.drainAll`, with a record. -/
def drainAll (g : Graph kind) : List NodeId → TracedAction kind Nat
  | [] => pure 0
  | node :: rest => do
    let drained ← drain g node
    return drained + (← drainAll g rest)

/-- `Network.flush`, with a record. -/
def flush (g : Graph kind) : TracedAction kind Nat := do
  onNetwork (modify fun net => { net with operations := 0 })
  drainAll g g.layers.flatten

/-! ## The record changes nothing -/

theorem follows_onNetwork (y : NetworkAction kind α) : Action.Follows Traced.net (onNetwork y) y :=
  .within (fun _ _ => rfl) y

theorem follows_deliver (g : Graph kind) (depth : Nat) (signal : Signal) (id : TupleId) (link : Link) :
    Action.Follows Traced.net (deliver g depth signal id link)
      (Network.deliver g depth signal id link) := by
  induction depth generalizing signal link with
  | zero => exact .throw _
  | succ depth ih =>
    refine .note (fun _ => rfl) ((follows_onNetwork _).bind fun _ => (Action.Follows.lift _).bind
      fun n => (follows_onNetwork _).bind fun next => ?_)
    cases next with
    | some next => exact .forM (fun c => ih next c) n.children
    | none => exact .pure _

theorem follows_forward (g : Graph kind) (node : NodeId) (signal : Signal) (id : TupleId) :
    Action.Follows Traced.net (forward g node signal id) (Network.forward g node signal id) :=
  (Action.Follows.lift _).bind fun n => .forM (follows_deliver g _ signal id) n.children

theorem follows_process (g : Graph kind) (node : NodeId) (id : TupleId) :
    Action.Follows Traced.net (process g node id) (Network.process g node id) := by
  refine .get fun s => (Action.Follows.lift _).bind fun stage => ?_
  cases stage with
  | creating => exact (follows_onNetwork _).bind fun _ => follows_forward g node .insert id
  | updating => exact (follows_onNetwork _).bind fun _ => follows_forward g node .update id
  | dying => exact (follows_forward g node .retract id).bind fun _ => follows_onNetwork _
  | aborting => exact follows_onNetwork _
  | settled => exact .pure _
  | dead => exact .pure _

theorem follows_drain (g : Graph kind) (node : NodeId) :
    Action.Follows Traced.net (drain g node) (Network.drain g node) :=
  (follows_onNetwork _).bind fun _ => (follows_onNetwork _).bind fun queue =>
    (Action.Follows.forM (follows_process g node) queue).bind fun _ => .pure _

theorem follows_drainAll (g : Graph kind) (nodes : List NodeId) :
    Action.Follows Traced.net (drainAll g nodes) (Network.drainAll g nodes) := by
  induction nodes with
  | nil => exact .pure _
  | cons node rest ih => exact (follows_drain g node).bind fun _ => ih.bind fun _ => .pure _

theorem follows_flush (g : Graph kind) : Action.Follows Traced.net (flush g) (Network.flush g) :=
  (follows_onNetwork _).bind fun _ => follows_drainAll g _

/-- What a traced flush ensures of its network, the flush ensures. -/
theorem ensures_flush {E : Error → Prop} {g : Graph kind} {s : Traced kind}
    {Q : Nat → Network kind → Prop} (h : Action.Ensures E (flush g) s fun n s' => Q n s'.net) :
    Action.Ensures E (Network.flush g) s.net Q :=
  (follows_flush g).ensures_iff.2 h

end Traced

end ConstraintStreams
