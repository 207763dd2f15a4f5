import Mathlib.Data.List.Nodup
import ConstraintStreams.Proofs.Network.Trace
import ConstraintStreams.Proofs.Tuple.Requests

/-!
# What children hear

A flush that also records what each node tells its children when it is its turn, and in which state it
found its tuples. The record changes nothing. About a tuple that a node lets its children see, each of
them hears once, and what it hears is in the stage of the tuple.
-/

namespace ConstraintStreams

/-- A node tells a child something about a tuple. -/
structure Message where
  link : Link
  signal : Signal
  tuple : TupleId
  deriving DecidableEq

/-- A turn of a node in a flush: the agenda as the queue of the node is taken, and what the node then
tells its children, in order. -/
structure Round where
  node : NodeId
  agenda : Agenda
  messages : List Message

/-- What is heard about a tuple over a link. -/
def heard (messages : List Message) (l : Link) (u : TupleId) : List Signal :=
  (messages.filter fun m => m.link = l ∧ m.tuple = u).map Message.signal

/-- A network in a flush, the turns that are over, and what was told in the current one. -/
structure Overheard (kind : ScoreKind) where
  traced : Traced kind
  rounds : List Round := []
  messages : List Message := []

/-- Work on a network that is listened to. -/
abbrev OverheardAction (kind : ScoreKind) (α : Type) := Action (Overheard kind) α

namespace Overheard

variable {kind : ScoreKind} {α : Type}

/-- Work that nothing is heard of. -/
def onTraced (x : TracedAction kind α) : OverheardAction kind α :=
  Action.within Overheard.traced (fun traced s => { s with traced }) x

/-- Work on the network alone. -/
def onNetwork (x : NetworkAction kind α) : OverheardAction kind α := onTraced (Traced.onNetwork x)

/-- Takes down a message. -/
def note (message : Message) : OverheardAction kind Unit :=
  modify fun s => { s with messages := s.messages ++ [message] }

/-- Takes down that the turn of a node is over, which found an agenda. -/
def close (node : NodeId) (agenda : Agenda) : OverheardAction kind Unit :=
  modify fun s => { s with rounds := s.rounds ++ [⟨node, agenda, s.messages⟩], messages := [] }

/-- `Network.forward`, listened to. -/
def forward (g : Graph kind) (node : NodeId) (signal : Signal) (id : TupleId) :
    OverheardAction kind Unit := do
  (← g.node node).children.forM fun link => do
    note ⟨link, signal, id⟩
    onTraced (Traced.deliver g g.height signal id link)

/-- `Network.process`, listened to. -/
def process (g : Graph kind) (node : NodeId) (id : TupleId) : OverheardAction kind Unit := do
  match ← (← get).traced.net.agenda.stage id with
  | .creating =>
    onNetwork (Network.onAgenda (Agenda.setStage id .settled))
    forward g node .insert id
  | .updating =>
    onNetwork (Network.onAgenda (Agenda.setStage id .settled))
    forward g node .update id
  | .dying =>
    forward g node .retract id
    onNetwork (Network.onAgenda (Agenda.release id))
  | .aborting => onNetwork (Network.onAgenda (Agenda.release id))
  | .settled | .dead => pure ()

/-- `Network.drain`, listened to. -/
def drain (g : Graph kind) (node : NodeId) : OverheardAction kind Nat := do
  onNetwork (Network.refresh g node)
  let agenda := (← get).traced.net.agenda
  let queue ← onNetwork (Network.onAgenda (Agenda.takeQueue node))
  queue.forM (process g node)
  close node agenda
  pure queue.length

/-- `Network.drainAll`, listened to. -/
def drainAll (g : Graph kind) : List NodeId → OverheardAction kind Nat
  | [] => pure 0
  | node :: rest => do
    let drained ← drain g node
    return drained + (← drainAll g rest)

/-- `Network.flush`, listened to. -/
def flush (g : Graph kind) : OverheardAction kind Nat := do
  onNetwork (modify fun net => { net with operations := 0 })
  drainAll g g.layers.flatten

/-! ## Listening changes nothing -/

theorem follows_onTraced (y : TracedAction kind α) :
    Action.Follows Overheard.traced (onTraced y) y :=
  .within (fun _ _ => rfl) y

theorem follows_onNetwork (y : NetworkAction kind α) :
    Action.Follows Overheard.traced (onNetwork y) (Traced.onNetwork y) := follows_onTraced _

theorem follows_forward (g : Graph kind) (node : NodeId) (signal : Signal) (id : TupleId) :
    Action.Follows Overheard.traced (forward g node signal id) (Traced.forward g node signal id) := by
  refine (Action.Follows.lift _).bind fun n => .forM (fun link => ?_) n.children
  exact .note (fun _ => rfl) (follows_onTraced _)

theorem follows_process (g : Graph kind) (node : NodeId) (id : TupleId) :
    Action.Follows Overheard.traced (process g node id) (Traced.process g node id) := by
  refine .get fun s => (Action.Follows.lift _).bind fun stage => ?_
  cases stage with
  | creating => exact (follows_onNetwork _).bind fun _ => follows_forward g node .insert id
  | updating => exact (follows_onNetwork _).bind fun _ => follows_forward g node .update id
  | dying => exact (follows_forward g node .retract id).bind fun _ => follows_onNetwork _
  | aborting => exact follows_onNetwork _
  | settled => exact .pure _
  | dead => exact .pure _

theorem follows_drain (g : Graph kind) (node : NodeId) :
    Action.Follows Overheard.traced (drain g node) (Traced.drain g node) :=
  (follows_onNetwork _).bind fun _ => .peek fun _ => (follows_onNetwork _).bind fun queue =>
    (Action.Follows.forM (follows_process g node) queue).bind fun _ => .note (fun _ => rfl) (.pure _)

theorem follows_drainAll (g : Graph kind) (nodes : List NodeId) :
    Action.Follows Overheard.traced (drainAll g nodes) (Traced.drainAll g nodes) := by
  induction nodes with
  | nil => exact .pure _
  | cons node rest ih => exact (follows_drain g node).bind fun _ => ih.bind fun _ => .pure _

theorem follows_flush (g : Graph kind) :
    Action.Follows Overheard.traced (flush g) (Traced.flush g) :=
  (follows_onNetwork _).bind fun _ => follows_drainAll g _

/-! ## What is taken down -/

variable {g : Graph kind} {p : NodeId} {n : Node kind} {u : TupleId} {t : Tuple} {s : Overheard kind}
  {E : Error → Prop}

/-- The messages to the children of a node about a tuple in a stage. -/
def announcements (n : Node kind) (u : TupleId) (stage : Stage) : List Message :=
  match stage.signal? with
  | some signal => n.children.map fun link => ⟨link, signal, u⟩
  | none => []

theorem ensures_onNetwork {x : NetworkAction kind α} {Q : α → Overheard kind → Prop} :
    Action.Ensures E (onNetwork x) s Q ↔
      Action.Ensures E x s.traced.net fun a net => Q a { s with traced := { s.traced with net } } :=
  Action.ensures_within.trans Action.ensures_within

/-- Work on the network takes nothing down. -/
theorem onTraced_silent (x : TracedAction kind α) (s : Overheard kind) :
    Action.Ensures (fun _ => True) (onTraced x) s fun _ s' =>
      s'.messages = s.messages ∧ s'.rounds = s.rounds := by
  refine Action.ensures_within.2 ?_
  unfold Action.Ensures
  split
  · exact ⟨rfl, rfl⟩
  · trivial

theorem forward_messages (hn : g.nodes.get? p = some n) (signal : Signal) (u : TupleId)
    (s : Overheard kind) :
    Action.Ensures (fun _ => True) (forward g p signal u) s fun _ s' =>
      s'.messages = s.messages ++ n.children.map (fun link => ⟨link, signal, u⟩) ∧
        s'.rounds = s.rounds := by
  have hnode : g.node p = .ok n := by simp [Graph.node, hn]
  unfold forward
  rw [Action.ensures_bind, Action.ensures_lift_of_ok hnode]
  generalize n.children = links
  induction links generalizing s with
  | nil => simp
  | cons l rest ih =>
    rw [Action.ensures_forM_cons, Action.ensures_bind]
    refine (onTraced_silent _ _).mono ?_
    rintro _ s₁ ⟨hmessages₁, hrounds₁⟩
    refine (ih s₁).mono ?_
    rintro _ s₂ ⟨hmessages₂, hrounds₂⟩
    refine ⟨?_, hrounds₂.trans hrounds₁⟩
    rw [hmessages₂, hmessages₁, List.append_assoc]
    rfl

/-- What children are told about a tuple is in its stage. -/
theorem process_messages (hn : g.nodes.get? p = some n) (ht : s.traced.net.agenda.find? u = some t) :
    Action.Ensures (fun _ => True) (process g p u) s fun _ s' =>
      s'.messages = s.messages ++ announcements n u t.stage ∧ s'.rounds = s.rounds := by
  have silent (x : NetworkAction kind Unit) (s : Overheard kind) := onTraced_silent (Traced.onNetwork x) s
  unfold process
  rw [Action.ensures_bind, Action.ensures_get, Action.ensures_bind,
    Action.ensures_lift_of_ok (Agenda.stage_eq ht)]
  -- What is told of a tuple that is settled first.
  have settled (signal : Signal) : Action.Ensures (fun _ => True) (do
      onNetwork (Network.onAgenda (Agenda.setStage u .settled))
      forward g p signal u) s fun _ s' =>
        s'.messages = s.messages ++ n.children.map (fun link => ⟨link, signal, u⟩) ∧
          s'.rounds = s.rounds := by
    rw [Action.ensures_bind]
    refine (silent _ s).mono ?_
    rintro _ s₁ ⟨hmessages₁, hrounds₁⟩
    rw [← hmessages₁, ← hrounds₁]
    exact forward_messages hn signal u s₁
  cases hstage : t.stage with
  | creating => exact settled .insert
  | updating => exact settled .update
  | dying =>
    rw [Action.ensures_bind]
    refine (forward_messages hn .retract u s).mono ?_
    rintro _ s₁ ⟨hmessages₁, hrounds₁⟩
    refine (silent _ s₁).mono ?_
    rintro _ s₂ ⟨hmessages₂, hrounds₂⟩
    exact ⟨hmessages₂.trans hmessages₁, hrounds₂.trans hrounds₁⟩
  | aborting =>
    refine (silent _ s).mono ?_
    rintro _ s₁ ⟨hmessages₁, hrounds₁⟩
    exact ⟨by rw [hmessages₁]; simp [announcements, Stage.signal?], hrounds₁⟩
  | settled => exact ⟨by simp [announcements, Stage.signal?], rfl⟩
  | dead => exact ⟨by simp [announcements, Stage.signal?], rfl⟩

theorem heard_append (messages messages' : List Message) (l : Link) (u : TupleId) :
    heard (messages ++ messages') l u = heard messages l u ++ heard messages' l u := by
  simp [heard]

/-- About one tuple, a child hears what is told about that tuple, once. -/
theorem heard_announcements {l : Link} (hnodup : n.children.Nodup) (hl : l ∈ n.children)
    (u x : TupleId) (stage : Stage) :
    heard (announcements n u stage) l x = if u = x then stage.signal?.toList else [] := by
  unfold announcements
  cases stage.signal? with
  | none => simp [heard]
  | some signal =>
    unfold heard
    rw [List.filter_map, List.map_map]
    by_cases hx : u = x
    · have hfilter : n.children.filter (fun link => link = l) = [l] := by
        rw [List.filter_eq, List.count_eq_one_of_mem hnodup hl]
        rfl
      simp [hx, Function.comp_def, hfilter]
    · simp [hx, Function.comp_def]

/-- Over another link nothing is heard. -/
theorem heard_announcements_of_not_mem {l : Link} (hl : l ∉ n.children) (u x : TupleId)
    (stage : Stage) : heard (announcements n u stage) l x = [] := by
  unfold announcements
  cases stage.signal? with
  | none => rfl
  | some signal =>
    unfold heard
    rw [List.map_eq_nil_iff, List.filter_eq_nil_iff]
    intro m hm
    obtain ⟨link, hlink, rfl⟩ := List.mem_map.1 hm
    simp only [decide_eq_true_eq, not_and]
    intro he
    exact absurd (he ▸ hlink) hl

/-- About the tuples of a queue, a child hears in turn what is told about each. -/
theorem heard_queue {l : Link} (hnodup : n.children.Nodup) (hl : l ∈ n.children)
    {queue : List TupleId} (hqueue : queue.Nodup) (stages : TupleId → Stage) (x : TupleId) :
    heard (queue.flatMap fun u => announcements n u (stages u)) l x =
      if x ∈ queue then (stages x).signal?.toList else [] := by
  induction queue with
  | nil => rfl
  | cons u rest ih =>
    obtain ⟨hnot, hrest⟩ := List.nodup_cons.1 hqueue
    rw [List.flatMap_cons, heard_append, heard_announcements hnodup hl, ih hrest]
    by_cases hx : u = x
    · subst hx
      simp [hnot]
    · simp [hx, Ne.symm hx]

theorem heard_queue_of_not_mem {l : Link} (hl : l ∉ n.children) (queue : List TupleId)
    (stages : TupleId → Stage) (x : TupleId) :
    heard (queue.flatMap fun u => announcements n u (stages u)) l x = [] := by
  induction queue with
  | nil => rfl
  | cons u rest ih => rw [List.flatMap_cons, heard_append, heard_announcements_of_not_mem hl, ih]; rfl

end Overheard

end ConstraintStreams
