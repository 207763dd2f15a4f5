import ConstraintStreams.Network.Basic
import ConstraintStreams.Proofs.Action
import ConstraintStreams.Proofs.Graph.Routes

/-!
# The moments of a flush

A flush that also notes, before each time a node acts on a signal, in what state the network is. The
notes are for statements and proofs only: a watched flush ends as the flush does. What they are for is
that a flush ends with the first moment at which a node fails, with its error, and in the state in which
it left the network.
-/

namespace ConstraintStreams

/-- A node is about to act on a signal. -/
structure Moment (kind : ScoreKind) where
  node : NodeId
  side : Side
  tuple : TupleId
  signal : Signal
  net : Network kind

/-- A network, and the moments at which a node acted in it, the last one in front. -/
structure Watched (kind : ScoreKind) where
  net : Network kind
  moments : List (Moment kind) := []

/-- Work on a network that is watched. -/
abbrev WatchedAction (kind : ScoreKind) (α : Type) := Action (Watched kind) α

variable {kind : ScoreKind} {α β : Type}

/-- How the node acts. -/
def Moment.act (g : Graph kind) (m : Moment kind) : EStateM.Result Error (Network kind) (Option Signal) :=
  (do Network.act m.node (← g.node m.node) m.side m.tuple m.signal : NetworkAction kind _) m.net

namespace Watched

/-- Work on the network alone. -/
def onNetwork (x : NetworkAction kind α) : WatchedAction kind α :=
  Action.within Watched.net (fun net s => { s with net }) x

/-- Notes that a node is about to act. -/
def note (link : Link) (id : TupleId) (signal : Signal) : WatchedAction kind Unit :=
  modify fun s => { s with moments := ⟨link.node, link.side, id, signal, s.net⟩ :: s.moments }

/-- `Network.deliver`, watched. -/
def deliver (g : Graph kind) : Nat → Signal → TupleId → Link → WatchedAction kind Unit
  | 0, _, _, link => throw (.inconsistent (.tooDeep link.node))
  | depth + 1, signal, id, link => do
    onNetwork Network.countOperation
    let n ← g.node link.node
    note link id signal
    match ← onNetwork (Network.act link.node n link.side id signal) with
    | some next => n.children.forM (deliver g depth next id)
    | none => pure ()

/-- `Network.forward`, watched. -/
def forward (g : Graph kind) (node : NodeId) (signal : Signal) (id : TupleId) :
    WatchedAction kind Unit := do
  (← g.node node).children.forM (deliver g g.height signal id)

/-- `Network.process`, watched. -/
def process (g : Graph kind) (node : NodeId) (id : TupleId) : WatchedAction kind Unit := do
  match ← (← get).net.agenda.stage id with
  | .creating =>
    onNetwork (Network.onAgenda (Agenda.setStage id .settled))
    forward g node .insert id
  | .updating =>
    onNetwork (Network.onAgenda (Agenda.setStage id .settled))
    forward g node .update id
  | .dying =>
    forward g node .retract id
    onNetwork (Network.onAgenda (Agenda.release id))
  | .aborting => onNetwork (Network.onAgenda (Agenda.release id))
  | .settled | .dead => pure ()

/-- `Network.drain`, watched. -/
def drain (g : Graph kind) (node : NodeId) : WatchedAction kind Nat := do
  onNetwork (Network.refresh g node)
  let queue ← onNetwork (Network.onAgenda (Agenda.takeQueue node))
  queue.forM (process g node)
  pure queue.length

/-- `Network.drainAll`, watched. -/
def drainAll (g : Graph kind) : List NodeId → WatchedAction kind Nat
  | [] => pure 0
  | node :: rest => do
    let drained ← drain g node
    return drained + (← drainAll g rest)

/-- `Network.flush`, watched. -/
def flush (g : Graph kind) : WatchedAction kind Nat := do
  onNetwork (modify fun net => { net with operations := 0 })
  drainAll g g.layers.flatten

/-- The moments of a watched work, however it ended. -/
def momentsOf : EStateM.Result Error (Watched kind) α → List (Moment kind)
  | .ok _ s => s.moments
  | .error _ s => s.moments

end Watched

/-- The moments of a flush of the network, the last one in front. -/
def Network.moments (g : Graph kind) (net : Network kind) : List (Moment kind) :=
  Watched.momentsOf (Watched.flush g { net })

namespace Watched

/-! ## Watching changes nothing -/

theorem follows_onNetwork (y : NetworkAction kind α) : Action.Follows Watched.net (onNetwork y) y :=
  .within (fun _ _ => rfl) y

theorem follows_deliver (g : Graph kind) (depth : Nat) (signal : Signal) (id : TupleId) (link : Link) :
    Action.Follows Watched.net (deliver g depth signal id link)
      (Network.deliver g depth signal id link) := by
  induction depth generalizing signal link with
  | zero => exact .throw _
  | succ depth ih =>
    refine (follows_onNetwork _).bind fun _ => (Action.Follows.lift _).bind fun n =>
      .note (fun _ => rfl) ((follows_onNetwork _).bind fun next => ?_)
    cases next with
    | some next => exact .forM (fun c => ih next c) n.children
    | none => exact .pure _

theorem follows_forward (g : Graph kind) (node : NodeId) (signal : Signal) (id : TupleId) :
    Action.Follows Watched.net (forward g node signal id) (Network.forward g node signal id) :=
  (Action.Follows.lift _).bind fun n => .forM (follows_deliver g _ signal id) n.children

theorem follows_process (g : Graph kind) (node : NodeId) (id : TupleId) :
    Action.Follows Watched.net (process g node id) (Network.process g node id) := by
  refine .get fun s => (Action.Follows.lift _).bind fun stage => ?_
  cases stage with
  | creating => exact (follows_onNetwork _).bind fun _ => follows_forward g node .insert id
  | updating => exact (follows_onNetwork _).bind fun _ => follows_forward g node .update id
  | dying => exact (follows_forward g node .retract id).bind fun _ => follows_onNetwork _
  | aborting => exact follows_onNetwork _
  | settled => exact .pure _
  | dead => exact .pure _

theorem follows_drain (g : Graph kind) (node : NodeId) :
    Action.Follows Watched.net (drain g node) (Network.drain g node) :=
  (follows_onNetwork _).bind fun _ => (follows_onNetwork _).bind fun queue =>
    (Action.Follows.forM (follows_process g node) queue).bind fun _ => .pure _

theorem follows_drainAll (g : Graph kind) (nodes : List NodeId) :
    Action.Follows Watched.net (drainAll g nodes) (Network.drainAll g nodes) := by
  induction nodes with
  | nil => exact .pure _
  | cons node rest ih => exact (follows_drain g node).bind fun _ => ih.bind fun _ => .pure _

theorem follows_flush (g : Graph kind) : Action.Follows Watched.net (flush g) (Network.flush g) :=
  (follows_onNetwork _).bind fun _ => follows_drainAll g _

/-! ## The first failure ends the flush -/

/-- All nodes acted without failing. -/
def Smooth (g : Graph kind) (s : Watched kind) : Prop :=
  ∀ m ∈ s.moments, ∀ e net, m.act g ≠ .error e net

/-- A node failed with the error and left the network as it is, unless none failed. -/
def Stopped (g : Graph kind) (e : Error) (s : Watched kind) : Prop :=
  ∀ m ∈ s.moments, ∀ e' net, m.act g = .error e' net → e' = e ∧ net = s.net

theorem Smooth.stopped {g : Graph kind} {s : Watched kind} (h : Smooth g s) (e : Error) :
    Stopped g e s :=
  fun m hm e' net hfails => (h m hm e' net hfails).elim

/-- The work goes on smoothly, or stops with the failure of a node. -/
def Heeds (g : Graph kind) (x : WatchedAction kind α) : Prop :=
  ∀ s, Smooth g s → match x s with
    | .ok _ s' => Smooth g s'
    | .error e s' => Stopped g e s'

namespace Heeds

variable {g : Graph kind} {x : WatchedAction kind α} {f : α → WatchedAction kind β} {s s' : Watched kind}

theorem of_ok (hx : Heeds g x) (hs : Smooth g s) {a : α} (h : x s = .ok a s') : Smooth g s' := by
  have hend := hx s hs
  rwa [h] at hend

theorem of_error (hx : Heeds g x) (hs : Smooth g s) {e : Error} (h : x s = .error e s') :
    Stopped g e s' := by
  have hend := hx s hs
  rwa [h] at hend

theorem pure (a : α) : Heeds g (pure a : WatchedAction kind α) := fun _ h => h

theorem throw (e : Error) : Heeds g (throw e : WatchedAction kind α) := fun _ h => h.stopped e

theorem lift_bind {r : Except Error α} (hf : ∀ a, r = .ok a → Heeds g (f a)) :
    Heeds g (do let a ← (liftM r : WatchedAction kind α); f a) := by
  cases r with
  | ok a => exact hf a rfl
  | error e => exact fun s h => h.stopped e

theorem get_bind {f : Watched kind → WatchedAction kind α} (hf : ∀ s, Heeds g (f s)) :
    Heeds g (do let s ← get; f s) := fun s h => hf s s h

theorem bind (hx : Heeds g x) (hf : ∀ a, Heeds g (f a)) : Heeds g (x >>= f) := by
  intro s hs
  cases hrun : x s with
  | ok a s' =>
    rw [Action.bind_ok hrun]
    exact hf a s' (hx.of_ok hs hrun)
  | error e s' =>
    rw [Action.bind_error hrun]
    exact hx.of_error hs hrun

theorem forM {f : β → WatchedAction kind PUnit} (hf : ∀ b, Heeds g (f b)) (bs : List β) :
    Heeds g (bs.forM f) := by
  induction bs with
  | nil => exact pure _
  | cons b rest ih => exact bind (hf b) fun _ => ih

/-- Nothing is noted of work on the network alone. -/
theorem onNetwork (y : NetworkAction kind α) : Heeds g (Watched.onNetwork y) := by
  intro s hs
  unfold Watched.onNetwork Action.within
  cases y s.net with
  | ok a net => exact hs
  | error e net => exact Smooth.stopped (s := { s with net }) hs e

/-- A moment is noted with the outcome that it then has. -/
theorem act_bind {n : Node kind} {link : Link} {f : Option Signal → WatchedAction kind β}
    (hn : g.node link.node = .ok n) (id : TupleId) (signal : Signal) (hf : ∀ next, Heeds g (f next)) :
    Heeds g (do
      note link id signal
      let next ← Watched.onNetwork (Network.act link.node n link.side id signal)
      f next) := by
  intro s hs
  let m : Moment kind := ⟨link.node, link.side, id, signal, s.net⟩
  have hm : m.act g = Network.act link.node n link.side id signal s.net := by
    show (do Network.act _ (← g.node link.node) _ _ _ : NetworkAction kind _) s.net = _
    rw [hn]
    rfl
  have hnoted : note link id signal s = .ok () { s with moments := m :: s.moments } := rfl
  rw [Action.bind_ok hnoted]
  cases hact : Network.act link.node n link.side id signal s.net with
  | ok next net =>
    have hrun : Watched.onNetwork (Network.act link.node n link.side id signal)
        { s with moments := m :: s.moments } = .ok next ⟨net, m :: s.moments⟩ := by
      simp only [Watched.onNetwork, Action.within, hact]
    rw [Action.bind_ok hrun]
    refine hf next _ fun m' hm' e net' hfails => ?_
    rcases List.mem_cons.1 hm' with rfl | hm'
    · rw [hm, hact] at hfails
      cases hfails
    · exact hs m' hm' e net' hfails
  | error e net =>
    have hrun : Watched.onNetwork (Network.act link.node n link.side id signal)
        { s with moments := m :: s.moments } = .error e ⟨net, m :: s.moments⟩ := by
      simp only [Watched.onNetwork, Action.within, hact]
    rw [Action.bind_error hrun]
    intro m' hm' e' net' hfails
    rcases List.mem_cons.1 hm' with rfl | hm'
    · rw [hm, hact] at hfails
      cases hfails
      exact ⟨rfl, rfl⟩
    · exact (hs m' hm' e' net' hfails).elim

end Heeds

theorem heeds_deliver (g : Graph kind) (depth : Nat) (signal : Signal) (id : TupleId) (link : Link) :
    Heeds g (deliver g depth signal id link) := by
  induction depth generalizing signal link with
  | zero => exact .throw _
  | succ depth ih =>
    refine .bind (.onNetwork _) fun _ => .lift_bind fun n hn => .act_bind hn id signal fun next => ?_
    cases next with
    | some next => exact .forM (fun c => ih next c) n.children
    | none => exact .pure _

theorem heeds_forward (g : Graph kind) (node : NodeId) (signal : Signal) (id : TupleId) :
    Heeds g (forward g node signal id) :=
  .lift_bind fun n _ => .forM (heeds_deliver g _ signal id) n.children

theorem heeds_process (g : Graph kind) (node : NodeId) (id : TupleId) : Heeds g (process g node id) := by
  refine .get_bind fun s => .lift_bind fun stage _ => ?_
  cases stage with
  | creating => exact .bind (.onNetwork _) fun _ => heeds_forward g node .insert id
  | updating => exact .bind (.onNetwork _) fun _ => heeds_forward g node .update id
  | dying => exact .bind (heeds_forward g node .retract id) fun _ => .onNetwork _
  | aborting => exact .onNetwork _
  | settled => exact .pure _
  | dead => exact .pure _

theorem heeds_drainAll (g : Graph kind) (nodes : List NodeId) : Heeds g (drainAll g nodes) := by
  have drain (node : NodeId) : Heeds g (drain g node) :=
    .bind (.onNetwork _) fun _ => .bind (.onNetwork _) fun queue =>
      .bind (.forM (heeds_process g node) queue) fun _ => .pure _
  induction nodes with
  | nil => exact .pure _
  | cons node rest ih => exact .bind (drain node) fun _ => .bind ih fun _ => .pure _

theorem heeds_flush (g : Graph kind) : Heeds g (flush g) :=
  .bind (.onNetwork _) fun _ => heeds_drainAll g _

end Watched

/-- Where a node fails in a flush, the flush fails, with its error and in the state in which it left the
network. -/
theorem Network.flush_of_fails {g : Graph kind} {net net' : Network kind} {m : Moment kind} {e : Error}
    (hm : m ∈ net.moments g) (hfails : m.act g = .error e net') : flush g net = .error e net' := by
  have hsmooth : Watched.Smooth g { net } := fun _ h => by cases h
  unfold moments Watched.momentsOf at hm
  split at hm
  · next s hrun => exact ((Watched.heeds_flush g).of_ok hsmooth hrun m hm e net' hfails).elim
  · next e' s hrun =>
    obtain ⟨rfl, rfl⟩ := (Watched.heeds_flush g).of_error hsmooth hrun m hm e net' hfails
    exact (Watched.follows_flush g).of_error hrun

/-! ## Mappers -/

/-- At the moment, a map that declares so many facts asks its mapper, and this answers an image: the
input is new, or the map has an output for it. -/
def Moment.Maps (g : Graph kind) (m : Moment kind) (arity : Nat) (image : Facts) : Prop :=
  ∃ n mapper memory facts, g.nodes.get? m.node = some n ∧ n.operator = .map mapper ∧ n.arity = arity ∧
    m.net.memories.get? m.node = some (.map memory) ∧
    (m.signal = .insert ∨ m.signal = .update ∧ (memory.outputs.get? m.tuple).isSome = true) ∧
    m.net.agenda.facts m.tuple = .ok facts ∧ mapper.run facts = .ok image

/-- A mapper that answers another number of facts than declared is noticed before anything is done. -/
theorem MapMemory.image_of_misfit {arity : Nat} {mapper : Facts → Except Error Facts} {input : TupleId}
    {w : Workbench MapMemory} {facts answer : Facts} (hfacts : w.agenda.facts input = .ok facts)
    (hmapper : mapper facts = .ok answer) (hmisfit : answer.length ≠ arity) :
    image arity mapper input w = .error (.invalidArity arity answer.length) w := by
  have hread : Work.facts input w = .ok facts w := by
    unfold Work.facts
    rw [Action.bind_ok (Action.get_eq w), hfacts]
    rfl
  have hmapped : (liftM (mapper facts) : Work MapMemory Facts) w = .ok answer w :=
    Action.lift_eq_ok.2 ⟨hmapper, rfl⟩
  unfold image
  rw [Action.bind_ok hread, Action.bind_ok hmapped, if_pos hmisfit]
  rfl

theorem Moment.Maps.fails {g : Graph kind} {m : Moment kind} {arity : Nat} {image : Facts}
    (h : m.Maps g arity image) (hmisfit : image.length ≠ arity) :
    m.act g = .error (.invalidArity arity image.length) m.net := by
  obtain ⟨n, mapper, memory, facts, hn, hop, rfl, hm, hasks, hfacts, hmapper⟩ := h
  have hsignal : Network.signalMap m.node n.arity mapper.run m.tuple m.signal ⟨memory, m.net.agenda⟩ =
      .error (.invalidArity n.arity image.length) ⟨memory, m.net.agenda⟩ := by
    have himage := MapMemory.image_of_misfit (w := ⟨memory, m.net.agenda⟩) hfacts hmapper hmisfit
    rcases hasks with hs | ⟨hs, ho⟩
    · rw [hs]
      exact Action.bind_error himage
    · obtain ⟨o, ho⟩ := Option.isSome_iff_exists.1 ho
      have hmemory : Work.memory (⟨memory, m.net.agenda⟩ : Workbench MapMemory) =
        .ok memory ⟨memory, m.net.agenda⟩ := rfl
      rw [hs]
      show MapMemory.update _ _ _ _ = _
      unfold MapMemory.update
      rw [Action.bind_ok hmemory, ho]
      exact Action.bind_error himage
  have hmemory : Network.memoryOf m.node m.net = .ok (.map memory) m.net := by
    unfold Network.memoryOf
    rw [Action.bind_ok (Action.get_eq m.net), hm]
    rfl
  have hnode : g.node m.node = .ok n := Graph.node_eq_ok.2 hn
  show (do Network.act _ (← g.node m.node) _ _ _ : NetworkAction kind _) m.net = _
  rw [hnode]
  show Network.act m.node n m.side m.tuple m.signal m.net = _
  unfold Network.act
  rw [Action.bind_ok hmemory, hop]
  refine Action.bind_error ?_
  simp only [Network.onMemory, Action.within, hsignal]
  rw [Table.insert_eq_self hm]

end ConstraintStreams
