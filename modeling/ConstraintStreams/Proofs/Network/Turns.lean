import ConstraintStreams.Proofs.Network.Rounds
import ConstraintStreams.Proofs.Network.Weight
import ConstraintStreams.Proofs.Operator.Lasting

/-!
# Every turn is fair

In a flush each node that has tuples has one turn. `Round.Fair` says of a turn that everything that was
done to the tuples of the node before was asked for, and that its children hear what the stages of the
tuples say, once. `rounds_spec` shows it of every turn of a flush that succeeds.
-/

namespace ConstraintStreams

/-! ## What is asked meanwhile -/

namespace Network

open Agenda (Answers Owns Continues)

variable {kind : ScoreKind} {g : Graph kind} {net : Network kind} {g₀ : Agenda} {p q : NodeId}
  {u : TupleId}

/-- In a flush no name is used twice. -/
theorem withstands_continues (g : Graph kind) (g₀ : Agenda) :
    Withstands g (fun _ _ => False) (On (Continues g₀)) where
  toConserves := conserves (Continues.outlasts g₀) g
  refresh p := .of_keeps (keeps_refresh (Continues.outlasts g₀) g p)
  settle u := keeps_onAgenda fun agenda h => (Agenda.setStage_ends agenda u .settled).mono
    (fun _ _ ⟨_, hreplaces⟩ => h.replaces hreplaces) fun _ hsame => hsame ▸ h
  release u := keeps_onAgenda (.modify fun _ h => h.release u)
  takeQueue p := keeps_onAgenda fun agenda h => (Agenda.takeQueue_ends agenda p).mono
    (fun _ _ hsame => h.unmoved hsame.2) fun _ hsame => hsame ▸ h

theorem keepsContinues_flush (g : Graph kind) (g₀ : Agenda) :
    Action.Keeps (On (Continues g₀)) (flush g) :=
  (withstands_continues g g₀).flush.keeps fun _ _ => False.elim

/-- Nor when a network starts over. -/
theorem continues_reset (h : Continues g₀ net.agenda) : Continues g₀ (reset g net).agenda := by
  obtain ⟨hblank, -⟩ := reset_agenda g net
  have htuples := reset_tuples g net
  refine h.cleared hblank.find?_none hblank.store ?_ fun {x t} ht => ?_
  · rw [htuples]
    exact net.agenda.tuples.generation_le_clear
  · rw [htuples]
    exact h.store.generation_lt_clear ht

/-- While a node lets its children see one of its tuples, the tuples of other nodes only change as is
asked for. -/
theorem process_answers (hne : p ≠ q) (h : ∃ requests, Answers q g₀ requests net.agenda)
    (hu : Owns p u net.agenda) :
    Action.Ensures (fun _ => True) (process g p u) net fun _ net' =>
      ∃ requests, Answers q g₀ requests net'.agenda := by
  let I : Agenda → Prop := fun agenda => (∃ requests, Answers q g₀ requests agenda) ∧ Owns p u agenda
  have hI : Agenda.Outlasts I := (Answers.outlasts q g₀).and (Owns.outlasts p u)
  have settle : Action.Keeps (On I)
      (onAgenda (Agenda.setStage u .settled) : NetworkAction kind Unit) := by
    refine keeps_onAgenda fun agenda hagenda => (Agenda.setStage_ends agenda u .settled).mono ?_
      fun _ hsame => hsame ▸ hagenda
    rintro _ agenda' ⟨t, hreplaces⟩
    obtain ⟨⟨requests, hanswers⟩, howns⟩ := hagenda
    obtain ⟨t', ht', hnode⟩ := howns.owned
    rw [hreplaces.found] at ht'
    cases ht'
    exact ⟨⟨requests, hanswers.aside hreplaces (.inr (hnode ▸ hne))⟩, howns.replaces hreplaces⟩
  have release {net : Network kind} (hnet : On I net) :
      Action.Ensures (fun _ => True) (onAgenda (Agenda.release u) : NetworkAction kind Unit) net
        fun _ net' => ∃ requests, Answers q g₀ requests net'.agenda := by
    obtain ⟨⟨requests, hanswers⟩, howns⟩ := hnet
    obtain ⟨t, ht, hnode⟩ := howns.owned
    refine Action.ensures_within.2 ?_
    unfold Agenda.release
    rw [Action.ensures_modify]
    exact ⟨requests, hanswers.release ht (hnode ▸ hne)⟩
  have told (signal : Signal) : Action.Keeps (On I) (forward g p signal u) := keeps_forward hI g p signal u
  unfold process
  rw [Action.ensures_bind, Action.ensures_get, Action.ensures_bind, Action.ensures_lift]
  refine ⟨fun stage _ => ?_, fun _ _ => trivial⟩
  cases stage with
  | creating =>
    exact (settle.bind fun _ => told .insert).ensures ⟨h, hu⟩ |>.mono fun _ _ h' => h'.1
  | updating =>
    exact (settle.bind fun _ => told .update).ensures ⟨h, hu⟩ |>.mono fun _ _ h' => h'.1
  | dying =>
    rw [Action.ensures_bind]
    exact ((told .retract).ensures ⟨h, hu⟩).mono fun _ _ h' => release h'
  | aborting => exact release ⟨h, hu⟩
  | settled => exact h
  | dead => exact h

end Network

/-! ## A turn -/

/-- A turn in which all that was done to the tuples of the node before was asked for, and its children
were told what their stages say. -/
structure Round.Fair {kind : ScoreKind} (g₀ : Agenda) (n : Node kind) (r : Round) : Prop where
  asked : ∃ requests, Agenda.Answers r.node g₀ requests r.agenda
  told : ∀ l ∈ n.children, ∀ u,
    heard r.messages l u = ((r.agenda.stageAt r.node u).bind Stage.signal?).toList
  quiet : ∀ l, l ∉ n.children → ∀ u, heard r.messages l u = []

/-- The stage of a tuple, or that it is not there. -/
def Agenda.stageOf (g : Agenda) (u : TupleId) : Stage := ((g.find? u).map Tuple.stage).getD .dead

namespace Overheard

variable {kind : ScoreKind} {g : Graph kind} {past : Network kind} {E : Error → Prop} {g₀ : Agenda}
  {done : List NodeId} {p : NodeId} {n : Node kind} {start s : Overheard kind} {u : TupleId}
  {queue rest : List TupleId} {K : Knowledge} {waiting : NodeId → Prop}

/-- The agenda of a network that is listened to. -/
abbrev agenda (s : Overheard kind) : Agenda := s.traced.net.agenda

/-- Between two turns of a flush. The turns that are over were fair, and the nodes are left to what
they showed in their turns; of the others, all that was done to their tuples was asked for. -/
structure Between (g : Graph kind) (past : Network kind) (g₀ : Agenda) (done : List NodeId)
    (s : Overheard kind) : Prop where
  network : ∃ K, Coherent g past [] K s.traced ∧
    Traced.Progress g past done (fun _ => False) K s.traced
  asked : ∀ q, q ∉ done → ∃ requests, Agenda.Answers q g₀ requests s.agenda
  messages : s.messages = []
  turns : s.rounds.map Round.node = done.reverse
  fair : ∀ r ∈ s.rounds, ∃ n, g.nodes.get? r.node = some n ∧ r.Fair g₀ n
  lasting : ∀ r ∈ s.rounds, s.agenda.openAt r.node = r.agenda.openAt r.node

/-- In the turn of a node that began with `start`, the tuples `rest` of its queue are still to be dealt
with. -/
structure Midway (g : Graph kind) (past : Network kind) (g₀ : Agenda) (done : List NodeId) (p : NodeId)
    (n : Node kind) (start : Overheard kind) (queue rest : List TupleId) (s : Overheard kind) : Prop where
  network : ∃ K, Coherent g past rest K s.traced ∧
    Traced.Progress g past (p :: done) (fun _ => False) K s.traced
  queued : ∀ x ∈ rest, ∃ t, start.agenda.find? x = some t ∧ s.agenda.find? x = some t ∧ t.node = p
  asked : ∀ q, q ∉ p :: done → ∃ requests, Agenda.Answers q g₀ requests s.agenda
  messages : ∃ before, queue = before ++ rest ∧
    s.messages = before.flatMap fun x => announcements n x (start.agenda.stageOf x)
  rounds : s.rounds = start.rounds
  behind : ∀ q, g.layerOf q ≤ g.layerOf p → s.agenda.openAt q = start.agenda.openAt q

/-- What is asked for on the agenda of a network, is so where the network is listened to. -/
theorem asked_onNetwork {α : Type} {x : NetworkAction kind α} {nodes : List NodeId}
    (hx : ∀ q, Action.Keeps (Network.On fun agenda => ∃ requests, Agenda.Answers q g₀ requests agenda) x)
    (h : ∀ q, q ∉ nodes → ∃ requests, Agenda.Answers q g₀ requests s.agenda) :
    Action.Ensures (fun _ => True) (onNetwork x) s fun _ s' =>
      ∀ q, q ∉ nodes → ∃ requests, Agenda.Answers q g₀ requests s'.agenda :=
  (Action.Ensures.all fun q : {q // q ∉ nodes} =>
    ((follows_onNetwork x).trans (Traced.follows_onNetwork x)).ensures_iff.1
      ((hx q).ensures (h q q.2))).mono fun _ _ h' q hq => h' ⟨q, hq⟩

/-- Settling its outputs does not end the time between two turns. -/
theorem Between.refresh (hg : g.WellFormed) (hE : Error.Tolerates E) (hn : g.nodes.get? p = some n)
    (hd : Traced.Drained g done p) (h : Between g past g₀ done s) :
    Action.Ensures E (onNetwork (Network.refresh g p)) s fun _ s' => Between g past g₀ done s' := by
  obtain ⟨K, hcoherent, hprogress⟩ := h.network
  have hspec := (follows_onNetwork _).ensures_iff.1
    (Traced.refresh_spec hg hE hn hcoherent hprogress hd.fresh)
  have hasked := asked_onNetwork
    (fun q => Network.keeps_refresh (Agenda.Answers.outlasts q g₀) g p) h.asked
  have hsilent := onTraced_silent (Traced.onNetwork (Network.refresh g p)) s
  refine ((hspec.and hasked).and hsilent).mono ?_
  rintro _ s' ⟨⟨⟨hcoherent', hprogress', -, -, hopens, -⟩, hasked'⟩, hmessages, hrounds⟩
  refine ⟨⟨K, hcoherent', hprogress'⟩, hasked', hmessages.trans h.messages, ?_, ?_, fun r hr => ?_⟩
  · rw [hrounds]
    exact h.turns
  · rw [hrounds]
    exact h.fair
  · rw [hrounds] at hr
    have hdone : r.node ∈ done := by
      rw [← List.mem_reverse, ← h.turns]
      exact List.mem_map_of_mem hr
    have hne : r.node ≠ p := by
      intro he
      exact hd.fresh (he ▸ hdone)
    exact (hopens r.node (.inl hne)).trans (h.lasting r hr)

/-- A turn begins when the queue of a node is taken. -/
theorem Between.take (hn : g.nodes.get? p = some n) (ho : n.operator.ownsTuples = true)
    (h : Between g past g₀ done s) :
    Action.Ensures E (onNetwork (Network.onAgenda (Agenda.takeQueue p))) s fun queue s' =>
      s.agenda.queues.get? p = some queue ∧ Midway g past g₀ done p n s queue queue s' := by
  obtain ⟨K, hcoherent, hprogress⟩ := h.network
  obtain ⟨old, hold⟩ := hcoherent.queue_of_owns hn ho
  let x : NetworkAction kind (List TupleId) := Network.onAgenda (Agenda.takeQueue p)
  have hspec := (follows_onNetwork x).ensures_iff.1
    (Traced.takeQueue_spec (E := E) hcoherent hprogress hn ho)
  have hends : Action.Ensures (fun _ => True) (onNetwork x) s fun queue s' =>
      queue = (s.agenda.queues.get? p).getD [] ∧ Agenda.Unmoved s.agenda s'.agenda :=
    ensures_onNetwork.2 (Action.ensures_within.2 (Agenda.takeQueue_ends s.agenda p).ensures)
  have hasked := asked_onNetwork (fun q => Network.keeps_onAgenda
    fun agenda ⟨requests, hanswers⟩ => (Agenda.takeQueue_ends agenda p).mono
      (fun _ _ hsame => ⟨requests, hanswers.unmoved hsame.2⟩)
      fun _ hsame => hsame ▸ ⟨requests, hanswers⟩) h.asked
  have hsilent := onTraced_silent (Traced.onNetwork x) s
  refine (((hspec.and hends).and hasked).and hsilent).mono ?_
  rintro queue s' ⟨⟨⟨⟨hcoherent', hprogress', hqueue, -, hopens, -⟩, heq, hsame⟩, hasked'⟩,
    hmessages, hrounds⟩
  have hq : s.agenda.queues.get? p = some queue := by
    rw [heq, show s.agenda.queues.get? p = some old from hold]
    rfl
  refine ⟨hq, ⟨K, hcoherent', hprogress'⟩, fun x hx => ?_, fun q hq => ?_, ⟨[], rfl, ?_⟩, hrounds,
    fun q _ => hopens q⟩
  · obtain ⟨t, ht, hnode⟩ := hqueue x hx
    exact ⟨t, (hsame.find x).symm.trans ht, ht, hnode⟩
  · exact hasked' q fun hm => hq (List.mem_cons_of_mem p hm)
  · exact hmessages.trans h.messages

/-- One more tuple is dealt with. -/
theorem Midway.process (hg : g.WellFormed) (hsafe : g.Safe E) (hE : Error.Tolerates E)
    (hn : g.nodes.get? p = some n) (ho : n.operator.ownsTuples = true) (hd : Traced.Drained g done p)
    (h : Midway g past g₀ done p n start queue (u :: rest) s) :
    Action.Ensures E (process g p u) s fun _ s' => Midway g past g₀ done p n start queue rest s' := by
  obtain ⟨K, hcoherent, hprogress⟩ := h.network
  obtain ⟨t, hstart, ht, hnode⟩ := h.queued u List.mem_cons_self
  have hturn : Traced.Turn g past (p :: done) rest u t n K s.traced := by
    refine ⟨hcoherent, hprogress, ht, hnode ▸ hn, ho, hnode ▸ List.mem_cons_self, fun q hq => ?_⟩
    rcases List.mem_cons.1 hq with rfl | hq
    · rw [hnode]
    · rw [hnode]; exact hd.above q hq
  have hspec := Traced.process_spec hg hsafe hE hturn
  rw [hnode] at hspec
  have howns : Agenda.Owns p u s.agenda :=
    ⟨hcoherent.sound.store, fun _ _ hx => hcoherent.sound.registered hx, t, ht, hnode⟩
  have hasked := Action.Ensures.all fun q : {q // q ∉ p :: done} =>
    ((follows_process g p u).trans (Traced.follows_process g p u)).ensures_iff.1
      (Network.process_answers (List.ne_of_not_mem_cons q.2).symm (h.asked q q.2) howns)
  have hheard := process_messages hn ht
  refine ((((follows_process g p u).ensures_iff.1 hspec).and hasked).and hheard).mono ?_
  rintro _ s' ⟨⟨⟨K', hcoherent', hprogress', hspares⟩, hasked'⟩, hmessages', hrounds'⟩
  obtain ⟨before, hqueue, hmessages⟩ := h.messages
  refine ⟨⟨K', hcoherent', hprogress'⟩, fun x hx => ?_, fun q hq => hasked' ⟨q, hq⟩,
    ⟨before ++ [u], ?_, ?_⟩, ?_, fun q hq => ?_⟩
  · obtain ⟨tx, hstartx, htx, hnodex⟩ := h.queued x (List.mem_cons_of_mem u hx)
    have hne : x ≠ u := fun he => (List.nodup_cons.1 hcoherent.sound.away_nodup).1 (he ▸ hx)
    exact ⟨tx, hstartx, hspares.tuples hne htx (by rw [hnodex]), hnodex⟩
  · rw [hqueue, List.append_assoc]
    rfl
  · have hstage : start.agenda.stageOf u = t.stage := by simp [Agenda.stageOf, hstart]
    rw [hmessages', hmessages, List.flatMap_append, ← hstage]
    simp
  · exact hrounds'.trans h.rounds
  · exact (hspares.behind q hq).trans (h.behind q hq)

/-- What children hear in a turn is what the stages say that the tuples had as it began. -/
theorem Midway.fair (hg : g.WellFormed) (hn : g.nodes.get? p = some n)
    (hstart : Between g past g₀ done start) (hfresh : p ∉ done)
    (hqueue : start.agenda.queues.get? p = some queue)
    (h : Midway g past g₀ done p n start queue [] s) :
    (Round.mk p start.agenda s.messages).Fair g₀ n := by
  obtain ⟨K, hcoherent, -⟩ := hstart.network
  have hsound : start.agenda.Sound [] := hcoherent.sound
  have hmessages : s.messages = queue.flatMap fun x => announcements n x (start.agenda.stageOf x) := by
    obtain ⟨before, hbefore, hmessages⟩ := h.messages
    rw [hmessages, hbefore, List.append_nil]
  refine ⟨hstart.asked p hfresh, fun l hl u => ?_, fun l hl u => ?_⟩
  · show heard s.messages l u = _
    rw [hmessages, heard_queue (hg.linked.children_nodup hn) hl (hsound.queue_nodup hqueue)]
    split
    · next hu =>
      obtain ⟨t, ht, hnode⟩ := hsound.queued ⟨queue, hqueue, hu⟩
      have hat : start.agenda.stageAt p u = some t.stage :=
        (Agenda.stageAt_of_find ht).trans (if_pos hnode)
      simp [hat, Agenda.stageOf, ht]
    · next hu =>
      show _ = Option.toList ((start.agenda.stageAt p u).bind Stage.signal?)
      cases hat : start.agenda.stageAt p u with
      | none => rfl
      | some stage =>
        -- A tuple of the node that does not wait in its queue has nothing to tell.
        obtain ⟨t, ht, hnode, rfl⟩ := Agenda.stageAt_eq_some_iff.1 hat
        have hclean : ¬ t.stage.isDirty = true := by
          rw [hsound.dirty_iff ht, hnode]
          rintro (hm | ⟨queue', hq', hm⟩)
          · cases hm
          · cases hqueue.symm.trans hq'
            exact hu hm
        cases hs : t.stage <;> simp_all [Stage.isDirty, Stage.signal?]
  · show heard s.messages l u = _
    rw [hmessages]
    exact heard_queue_of_not_mem hl _ _ u

/-- A turn of a node. -/
theorem Between.drain (hg : g.WellFormed) (hsafe : g.Safe E) (hE : Error.Tolerates E)
    (hn : g.nodes.get? p = some n) (ho : n.operator.ownsTuples = true) (hd : Traced.Drained g done p)
    (h : Between g past g₀ done s) :
    Action.Ensures E (drain g p) s fun _ s' => Between g past g₀ (p :: done) s' := by
  unfold Overheard.drain
  rw [Action.ensures_bind]
  refine (h.refresh hg hE hn hd).mono fun _ start hstart => ?_
  rw [Action.ensures_bind, Action.ensures_get, Action.ensures_bind]
  refine (hstart.take hn ho).mono fun queue s₁ ⟨hqueue, htaken⟩ => ?_
  rw [Action.ensures_bind]
  refine (Action.Ensures.forM (Midway g past g₀ done p n start queue)
    (fun u rest s' h' => h'.process hg hsafe hE hn ho hd) htaken).mono fun _ s₂ hover => ?_
  show Between g past g₀ (p :: done)
    { s₂ with rounds := s₂.rounds ++ [⟨p, start.agenda, s₂.messages⟩], messages := [] }
  refine ⟨hover.network, hover.asked, rfl, ?_, fun r hr => ?_, fun r hr => ?_⟩
  · rw [hover.rounds, List.map_append, hstart.turns, List.reverse_cons]
    rfl
  · rcases List.mem_append.1 hr with hr | hr
    · exact hstart.fair r (hover.rounds ▸ hr)
    · obtain rfl := List.mem_singleton.1 hr
      exact ⟨n, hn, hover.fair hg hn hstart hd.fresh hqueue⟩
  · rcases List.mem_append.1 hr with hr | hr
    · rw [hover.rounds] at hr
      have hdone : r.node ∈ done := by
        rw [← List.mem_reverse, ← hstart.turns]
        exact List.mem_map_of_mem hr
      exact (hover.behind r.node (hd.above _ hdone)).trans (hstart.lasting r hr)
    · obtain rfl := List.mem_singleton.1 hr
      exact hover.behind p (Nat.le_refl _)

/-- The turns of nodes, layer by layer. -/
theorem Between.drainAll (hg : g.WellFormed) (hsafe : g.Safe E) (hE : Error.Tolerates E)
    {nodes : List NodeId}
    (hnodes : ∀ p ∈ nodes, ∃ n, g.nodes.get? p = some n ∧ n.operator.ownsTuples = true)
    (hsorted : nodes.Pairwise fun p q => g.layerOf p ≤ g.layerOf q ∧ p ≠ q)
    (hd : ∀ p ∈ nodes, Traced.Drained g done p) (h : Between g past g₀ done s) :
    Action.Ensures E (drainAll g nodes) s fun _ s' => Between g past g₀ (nodes.reverse ++ done) s' := by
  induction nodes generalizing s done with
  | nil => exact h
  | cons p rest ih =>
    obtain ⟨n, hn, ho⟩ := hnodes p List.mem_cons_self
    obtain ⟨hfirst, hsorted'⟩ := List.pairwise_cons.1 hsorted
    unfold Overheard.drainAll
    rw [Action.ensures_bind]
    refine (h.drain hg hsafe hE hn ho (hd p List.mem_cons_self)).mono fun _ s₁ h₁ => ?_
    rw [Action.ensures_bind]
    refine (ih (fun q hq => hnodes q (List.mem_cons_of_mem p hq)) hsorted' (fun q hq => ?_) h₁).mono
      fun _ s₂ h₂ => ?_
    · exact (hd q (List.mem_cons_of_mem p hq)).cons (hfirst q hq)
    · rw [List.reverse_cons, List.append_assoc]
      exact h₂

end Overheard

namespace Network

open Agenda (Answers)

variable {kind : ScoreKind} {g : Graph kind} {net net' : Network kind} {K : Knowledge} {g₀ : Agenda}
  {p : NodeId} {E : Error → Prop}

/-- The turns of the nodes when a network is flushed. -/
def rounds (g : Graph kind) (net : Network kind) : List Round :=
  match Overheard.flush g { traced := { net } } with
  | .ok _ s | .error _ s => s.rounds

/-- In a flush that succeeds, each node that has tuples has one turn. Each turn is fair, and it is the
last time that the node changes which tuples it has. -/
theorem rounds_spec (hg : g.WellFormed) (hsafe : g.Safe E) (hE : Error.Tolerates E)
    (h : Consistent g K net)
    (hasked : ∀ p, ∃ requests, Answers p g₀ requests net.agenda) {count : Nat}
    (hflush : flush g net = .ok count net') :
    (rounds g net).map Round.node = g.layers.flatten ∧
      ∀ r ∈ rounds g net, (∃ n, g.nodes.get? r.node = some n ∧ r.Fair g₀ n) ∧
        net'.agenda.openAt r.node = r.agenda.openAt r.node := by
  let start : Overheard kind := { traced := { net } }
  have hspec : Action.Ensures E (Overheard.flush g) start fun _ s' =>
      ∃ done, done.reverse = g.layers.flatten ∧ Overheard.Between g net g₀ done s' := by
    obtain ⟨K₀, hcoherent, hprogress⟩ := h.progress
    unfold Overheard.flush
    rw [Action.ensures_bind]
    refine Overheard.ensures_onNetwork.2 ?_
    rw [Action.ensures_modify]
    have hbetween : Overheard.Between g net g₀ []
        ({ traced := { net := { net with operations := 0 } } } : Overheard kind) :=
      ⟨⟨K₀, hcoherent, hprogress⟩, fun q _ => hasked q, rfl, rfl, fun r hr => (nomatch hr),
        fun r hr => (nomatch hr)⟩
    refine (hbetween.drainAll hg hsafe hE
      (fun p hp => Graph.mem_layers.1 hp) g.layers_sorted
      fun p _ => ⟨List.not_mem_nil, fun q hq => (nomatch hq)⟩).mono fun _ s' h' => ?_
    exact ⟨_, by simp, h'⟩
  have hsame : Action.Follows (fun s : Overheard kind => s.traced.net) (Overheard.flush g) (flush g) :=
    (Overheard.follows_flush g).trans (Traced.follows_flush g)
  unfold rounds
  cases hrun : Overheard.flush g start with
  | error e s' =>
    cases (hsame.of_error hrun).symm.trans hflush
  | ok count' s' =>
    cases (hsame.of_ok hrun).symm.trans hflush
    obtain ⟨done, hdone, h'⟩ := hspec.of_ok hrun
    exact ⟨h'.turns.trans hdone, fun r hr => ⟨h'.fair r hr, h'.lasting r hr⟩⟩

/-- Over a link, children hear only in the turn of the one node that the link comes from. -/
theorem heard_turn {l : Link} {u : TupleId} {r : Round} {rounds : List Round}
    (hnodup : (rounds.map Round.node).Nodup) (hr : r ∈ rounds)
    (hquiet : ∀ r' ∈ rounds, r'.node ≠ r.node → heard r'.messages l u = []) :
    (rounds.flatMap fun r' => heard r'.messages l u) = heard r.messages l u := by
  induction rounds with
  | nil => cases hr
  | cons first rest ih =>
    rw [List.map_cons, List.nodup_cons] at hnodup
    rw [List.flatMap_cons]
    rcases List.mem_cons.1 hr with rfl | hr
    · have hrest : (rest.flatMap fun r' => heard r'.messages l u) = [] := by
        refine List.flatMap_eq_nil_iff.2 fun r' hr' => hquiet r' (List.mem_cons_of_mem _ hr') ?_
        intro he
        exact hnodup.1 (he ▸ List.mem_map_of_mem hr')
      rw [hrest, List.append_nil]
    · have hne : first.node ≠ r.node := by
        intro he
        exact hnodup.1 (he ▸ List.mem_map_of_mem hr)
      rw [hquiet first List.mem_cons_self hne, List.nil_append]
      exact ih hnodup.2 hr fun r' hr' => hquiet r' (List.mem_cons_of_mem _ hr')

/-- The turn of a node in a flush that succeeds. -/
theorem turn_spec (hg : g.WellFormed) (hsafe : g.Safe E) (hE : Error.Tolerates E)
    (h : Consistent g K net) (hasked : ∀ p, ∃ requests, Answers p g₀ requests net.agenda)
    {count : Nat} (hflush : flush g net = .ok count net') {n : Node kind}
    (hn : g.nodes.get? p = some n) (ho : n.operator.ownsTuples = true) :
    ∃ r ∈ rounds g net, r.node = p ∧ r.Fair g₀ n ∧ net'.agenda.openAt p = r.agenda.openAt p ∧
      ∀ l ∈ n.children, ∀ u,
        ((rounds g net).flatMap fun r' => heard r'.messages l u) = heard r.messages l u := by
  obtain ⟨hnodes, hrounds⟩ := rounds_spec hg hsafe hE h hasked hflush
  have hmem : p ∈ (rounds g net).map Round.node := by
    rw [hnodes]
    exact Graph.mem_layers.2 ⟨n, hn, ho⟩
  obtain ⟨r, hr, rfl⟩ := List.mem_map.1 hmem
  obtain ⟨⟨n', hn', hfair⟩, hlasting⟩ := hrounds r hr
  cases hn.symm.trans hn'
  refine ⟨r, hr, rfl, hfair, hlasting, fun l hl u => heard_turn ?_ hr fun r' hr' hne => ?_⟩
  · rw [hnodes]
    exact g.layers_sorted.imp fun hpq => hpq.2
  · obtain ⟨⟨m, hm, hfair'⟩, -⟩ := hrounds r' hr'
    refine hfair'.quiet l ?_ u
    intro hl'
    exact hne (hg.leads_unique ⟨m, hm, hl'⟩ ⟨n, hn, hl⟩)

end Network

end ConstraintStreams
