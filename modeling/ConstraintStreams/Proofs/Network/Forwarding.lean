import ConstraintStreams.Proofs.Network.Chains
import ConstraintStreams.Proofs.Graph.WellFormed

/-!
# A chain of filters forwards a well-formed stream

Nodes forward tuples of their own again and again, and in between anything may become of the tuples. At
any time the child beyond filters in a row has heard what one filter with the conjunction of their
predicates would have told it.
-/

namespace ConstraintStreams

variable {kind : ScoreKind}

namespace Watched

variable {g : Graph kind} {w w' : Watched kind} {p q : NodeId} {n : Node kind} {l c : Link}
  {ps : List TuplePredicate} {u : TupleId} {t : Tuple} {signal : Signal}

theorem forward_eq_ok (hn : g.nodes.get? p = some n) (hrun : forward g p signal u w = .ok () w') :
    n.children.forM (deliver g g.height signal u) w = .ok () w' := by
  unfold forward at hrun
  obtain ⟨n', w₁, hnode, hrun⟩ := Action.bind_eq_ok.1 hrun
  obtain ⟨hn', rfl⟩ := Action.lift_eq_ok.1 hnode
  cases hn.symm.trans (Graph.node_eq_ok.1 hn')
  exact hrun

/-- What a node forwards goes over the links that its tuples travel over. -/
theorem along_forward (hn : g.nodes.get? p = some n) (ho : n.operator.ownsTuples = true)
    (h : Network.Owning g w.net) (hrun : forward g p signal u w = .ok () w') :
    Along g (g.Carries p) w w' :=
  (along_forM (fun _ _ _ _ h hrun => along_deliver h hrun) h (forward_eq_ok hn hrun)).mono
    fun _ ⟨c, hc, hb⟩ => ⟨n, c, hn, ho, hc, hb⟩

/-- What a node forwards goes over each of its links, after some of the others and before the rest. -/
theorem forward_through (hg : g.WellFormed) (h : Network.Owning g w.net)
    (ht : w.net.agenda.find? u = some t) (hn : g.nodes.get? t.node = some n) (hl : l ∈ n.children)
    (hrun : forward g t.node signal u w = .ok () w') : ∃ w₁ w₂,
      Along g (g.Aside n.children l) w w₁ ∧ w₁.net.agenda.find? u = some t ∧
      deliver g g.height signal u l w₁ = .ok () w₂ ∧ Along g (g.Aside n.children l) w₂ w' := by
  obtain ⟨w₁, w₂, hbefore, hrunl, hafter⟩ := forM_through (hg.linked.children_nodup hn) hl
    (fun _ _ _ _ h hrun => along_deliver h hrun) h (forward_eq_ok hn hrun)
  exact ⟨w₁, w₂, hbefore, hbefore.found ht fun l' hl' => (hg.aside_leads hn hl').2, hrunl, hafter⟩

/-- A child is told once what a node forwards, while the tuple has the facts that it had. -/
theorem sent_forward (hg : g.WellFormed) (h : Network.Owning g w.net)
    (ht : w.net.agenda.find? u = some t) (hn : g.nodes.get? t.node = some n) (hl : l ∈ n.children)
    (hrun : forward g t.node signal u w = .ok () w') : ∃ m : Moment kind,
      m.signal = signal ∧ m.tuple = u ∧ m.facts = .ok t.facts ∧ w'.sent l = w.sent l ++ [m] := by
  obtain ⟨w₁, w₂, hbefore, hfound, hrunl, hafter⟩ := forward_through hg h ht hn hl hrun
  obtain ⟨net, hagenda, hsent⟩ := sent_deliver hg hbefore.owning hrunl
  have hown := hg.not_aside hn hl .refl
  refine ⟨⟨l.node, l.side, u, signal, net⟩, rfl, rfl, ?_, ?_⟩
  · exact (congrArg (Agenda.facts · u) hagenda).trans (Agenda.facts_eq hfound)
  · rw [hafter.sent_eq hown, hsent, hbefore.sent_eq hown]

/-- Nodes forward tuples of their own in a network, which is watched from the beginning of a session on,
and none of them fails. In between anything may become of the agenda and of the memories, but for those of
filters. -/
inductive Forwarding (g : Graph kind) : Watched kind → Prop
  | start (net : Network kind) : Forwarding g { net := net.reset g }
  | meanwhile {w : Watched kind} {net : Network kind} : Forwarding g w → Network.Owning g net →
    (∀ l, g.ToFilter l → net.memories.get? l.node = w.net.memories.get? l.node) →
    Forwarding g { w with net }
  | forward {w w' : Watched kind} {n : Node kind} {u : TupleId} {t : Tuple} {signal : Signal} :
    Forwarding g w → w.net.agenda.find? u = some t → g.nodes.get? t.node = some n →
    n.operator.ownsTuples = true → forward g t.node signal u w = .ok () w' → Forwarding g w'

theorem Forwarding.owning (h : Forwarding g w) : Network.Owning g w.net := by
  induction h with
  | start net => exact Network.owning_reset g net
  | meanwhile _ howning _ _ => exact howning
  | forward _ _ hn ho hrun ih => exact (along_forward hn ho ih hrun).owning

/-! ## A flush is made of that -/

/-- The run of a network is going on, the queues hold what belongs to their nodes, and what is held
belongs to the node `p`. -/
structure Going (g : Graph kind) (p : NodeId) (held : TupleId → Prop) (w : Watched kind) : Prop where
  forwarding : Forwarding g w
  filed : w.net.agenda.Filed
  held : ∀ u, held u → Agenda.Belongs p u w.net.agenda

namespace Going

variable {held : TupleId → Prop} {α : Type}

theorem start (g : Graph kind) (net : Network kind) (q : NodeId) :
    Going g q (fun _ => False) { net := net.reset g } where
  forwarding := .start net
  filed := by
    refine ⟨(Network.owning_reset g net).orderly, ?_⟩
    rintro p u ⟨queue, hqueue, hu⟩
    rw [(Network.reset_agenda g net).1.queues hqueue] at hu
    cases hu
  held _ := False.elim

theorem new (g : Graph kind) (limits : Limits) (order : TupleStore → HashOrder) (q : NodeId) :
    Going g q (fun _ => False) { net := .new g limits order } := start g _ q

theorem idle (h : Going g p held w) : Going g q (fun _ => False) w :=
  ⟨h.forwarding, h.filed, fun _ => False.elim⟩

/-- Work on the agenda that puts nothing into queues. -/
theorem onAgenda (h : Going g p held w) {x : Action Agenda α} {Q : α → Agenda → Prop}
    (hx : Action.Ends x w.net.agenda (fun a agenda => Agenda.Later w.net.agenda agenda ∧
      (∀ q u, agenda.Queued q u → w.net.agenda.Queued q u) ∧ Q a agenda) fun _ => True) :
    Action.Ends (onNetwork (Network.onAgenda x)) w
      (fun a w' => Going g p held w' ∧ Q a w'.net.agenda) fun _ => True := by
  refine Action.ends_within.2 (Action.ends_within.2 (hx.mono ?_ fun _ _ => trivial))
  rintro a agenda ⟨hlater, hqueued, hQ⟩
  exact ⟨⟨h.forwarding.meanwhile (h.forwarding.owning.of_later hlater rfl) fun _ _ => rfl,
    h.filed.continues hlater.continues fun q u hu => .inr (hqueued q u hu),
    fun u hu => (h.held u hu).continues hlater.continues⟩, hQ⟩

/-- What is asked of the agenda between two flushes. -/
theorem change (h : Going g p held w) {x : Action Agenda α}
    (hx : ∀ {I}, Agenda.Outlasts I → Action.Keeps I x) :
    Action.Ends (onNetwork (Network.onAgenda x)) w (fun _ => Going g p held) fun _ => True := by
  have hlater := hx (Agenda.Later.outlasts w.net.agenda) w.net.agenda (.start h.filed.orderly)
  refine Action.ends_within.2 (Action.ends_within.2
    ((hlater.and (hx Agenda.Filed.outlasts w.net.agenda h.filed)).mono ?_ fun _ _ => trivial))
  rintro _ agenda ⟨hlater, hfiled⟩
  exact ⟨h.forwarding.meanwhile (h.forwarding.owning.of_later hlater rfl) fun _ _ => rfl, hfiled,
    fun u hu => (h.held u hu).continues hlater.continues⟩

theorem setStage (h : Going g p held w) (u : TupleId) (stage : Stage) :
    Action.Ends (onNetwork (Network.onAgenda (Agenda.setStage u stage))) w
      (fun _ w' => Going g p held w' ∧ ∃ t, w'.net.agenda.find? u = some t) fun _ => True := by
  refine h.onAgenda (Q := fun _ agenda => ∃ t, agenda.find? u = some t) ?_
  unfold Agenda.setStage Agenda.setTuple
  rw [Action.ends_bind, Action.ends_get, Action.ends_bind, Action.ends_lift]
  refine ⟨fun t ht => ?_, fun _ _ => trivial⟩
  have hreplaces : Agenda.Replaces w.net.agenda
      { w.net.agenda with tuples := w.net.agenda.tuples.set u { t with stage } } u t { t with stage } :=
    .of_set (TupleStore.find?_of_get ht) rfl
  exact ⟨(Agenda.Later.start h.filed.orderly).replaces hreplaces, fun _ _ h => h, _,
    (hreplaces.find u).trans (if_pos rfl)⟩

theorem release (h : Going g p held w) (u : TupleId) :
    Action.Ends (onNetwork (Network.onAgenda (Agenda.release u))) w (fun _ => Going g p held)
      fun _ => True := by
  refine (h.onAgenda (Q := fun _ _ => True) ?_).mono (fun _ _ => And.left) fun _ => id
  unfold Agenda.release
  rw [Action.ends_modify]
  exact ⟨⟨h.filed.orderly.start.release u, fun _ => rfl⟩, fun _ _ h => h, trivial⟩

/-- What is taken out of the queue of a node belongs to the node. -/
theorem takeQueue (h : Going g p (fun _ => False) w) :
    Action.Ends (onNetwork (Network.onAgenda (Agenda.takeQueue p))) w
      (fun queue w' => Going g p (· ∈ queue) w') fun _ => True := by
  refine (h.onAgenda (Q := fun queue agenda => ∀ u ∈ queue, Agenda.Belongs p u agenda) ?_).mono
    (fun queue w' ⟨h', hqueue⟩ => ⟨h'.forwarding, h'.filed, hqueue⟩) fun _ => id
  refine ((Agenda.takeQueue_ends w.net.agenda p).and (Agenda.queued_takeQueue w.net.agenda p)).mono
    ?_ fun _ _ => trivial
  rintro queue agenda ⟨⟨-, hunmoved⟩, hqueue, hqueued⟩
  have hlater := (Agenda.Later.start h.filed.orderly).unmoved hunmoved
  exact ⟨hlater, hqueued, fun u hu => (h.filed.belongs (hqueue u hu)).continues hlater.continues⟩

/-- Refreshing a node that has tuples touches no filter. -/
theorem refresh (h : Going g q held w) (hn : g.nodes.get? p = some n)
    (ho : n.operator.ownsTuples = true) :
    Action.Ends (onNetwork (Network.refresh g p)) w (fun _ => Going g p fun _ => False)
      fun _ => True := by
  refine Action.ends_within.2 (((h.forwarding.owning.refresh hn).and
    (Network.keeps_refresh Agenda.Filed.outlasts g p w.net h.filed)).mono ?_ fun _ _ => trivial)
  rintro _ net ⟨⟨hbeside, -⟩, hfiled⟩
  refine ⟨h.forwarding.meanwhile hbeside.owning fun l hl => hbeside.memories l.node ?_, hfiled,
    fun _ => False.elim⟩
  rintro rfl
  obtain ⟨n', f, hn', hf⟩ := hl
  cases hn.symm.trans hn'
  rw [hf] at ho
  cases ho

theorem forward (h : Going g p held w) (hn : g.nodes.get? p = some n)
    (ho : n.operator.ownsTuples = true) (hu : held u) (ht : w.net.agenda.find? u = some t)
    (signal : Signal) :
    Action.Ends (Watched.forward g p signal u) w (fun _ => Going g p held) fun _ => True := by
  obtain rfl := (h.held u hu).node_eq ht
  unfold Action.Ends
  split
  · next _ w' hrun =>
    have hnet := (follows_forward g t.node signal u).of_ok hrun
    have keeps {I : Agenda → Prop} (hI : Agenda.Outlasts I) (hw : I w.net.agenda) : I w'.net.agenda :=
      (Network.keeps_forward hI g t.node signal u w.net hw).of_ok hnet
    have hcontinues := keeps (Agenda.Continues.outlasts w.net.agenda) h.filed.orderly.start
    exact ⟨h.forwarding.forward ht hn ho hrun, keeps Agenda.Filed.outlasts h.filed,
      fun u hu => (h.held u hu).continues hcontinues⟩
  · trivial

theorem process (h : Going g p held w) (hn : g.nodes.get? p = some n)
    (ho : n.operator.ownsTuples = true) (hu : held u) :
    Action.Ends (Watched.process g p u) w (fun _ => Going g p held) fun _ => True := by
  unfold Watched.process
  rw [Action.ends_bind, Action.ends_get, Action.ends_bind, Action.ends_lift]
  refine ⟨fun stage hstage => ?_, fun _ _ => trivial⟩
  obtain ⟨t, ht, -⟩ := except_bind_eq_ok.1 hstage
  have hfound : w.net.agenda.find? u = some t := TupleStore.find?_of_get ht
  have settled (signal : Signal) : Action.Ends
      (do onNetwork (Network.onAgenda (Agenda.setStage u .settled)); Watched.forward g p signal u) w
      (fun _ => Going g p held) fun _ => True := by
    rw [Action.ends_bind]
    refine (h.setStage u .settled).mono (fun _ w₁ ⟨h₁, t₁, ht₁⟩ => ?_) fun _ => id
    exact h₁.forward hn ho hu ht₁ signal
  cases stage with
  | creating => exact settled .insert
  | updating => exact settled .update
  | dying =>
    rw [Action.ends_bind]
    exact (h.forward hn ho hu hfound .retract).mono (fun _ _ h₁ => h₁.release u) fun _ => id
  | aborting => exact h.release u
  | settled => exact h
  | dead => exact h

theorem drain (h : Going g q held w) (hn : g.nodes.get? p = some n)
    (ho : n.operator.ownsTuples = true) :
    Action.Ends (Watched.drain g p) w (fun _ => Going g p fun _ => False) fun _ => True := by
  unfold Watched.drain
  rw [Action.ends_bind]
  refine (h.refresh hn ho).mono (fun _ w₁ h₁ => ?_) fun _ => id
  rw [Action.ends_bind]
  refine h₁.takeQueue.mono (fun queue w₂ h₂ => ?_) fun _ => id
  rw [Action.ends_bind]
  refine (Action.Ends.forM (fun rest => Going g p (· ∈ rest)) ?_ h₂).mono (fun _ w₃ h₃ => ?_) fun _ => id
  · intro u rest w h
    refine (h.process hn ho List.mem_cons_self).mono (fun _ w' h' => ?_) fun _ => id
    exact ⟨h'.forwarding, h'.filed, fun x hx => h'.held x (List.mem_cons_of_mem u hx)⟩
  · exact h₃.idle

theorem drainAll {nodes : List NodeId}
    (hnodes : ∀ p ∈ nodes, ∃ n, g.nodes.get? p = some n ∧ n.operator.ownsTuples = true)
    (h : Going g q held w) :
    Action.Ends (Watched.drainAll g nodes) w (fun _ => Going g q fun _ => False) fun _ => True := by
  induction nodes generalizing held w with
  | nil => exact h.idle
  | cons p rest ih =>
    obtain ⟨n, hn, ho⟩ := hnodes p List.mem_cons_self
    unfold Watched.drainAll
    rw [Action.ends_bind]
    refine (h.drain hn ho).mono (fun _ w₁ h₁ => ?_) fun _ => id
    rw [Action.ends_bind]
    exact (ih (fun x hx => hnodes x (List.mem_cons_of_mem p hx)) h₁.idle).mono (fun _ _ => id)
      fun _ => id

/-- A flush that succeeds goes on with the run. -/
theorem flush (h : Going g q held w) :
    Action.Ends (Watched.flush g) w (fun _ => Going g q fun _ => False) fun _ => True := by
  unfold Watched.flush
  rw [Action.ends_bind]
  refine Action.ends_within.2 ?_
  rw [Action.ends_modify]
  have hlater : Agenda.Later w.net.agenda w.net.agenda := .start h.filed.orderly
  have hcounted : Going g q held { w with net := { w.net with operations := 0 } } :=
    ⟨h.forwarding.meanwhile (h.forwarding.owning.of_later hlater rfl) fun _ _ => rfl, h.filed, h.held⟩
  exact hcounted.drainAll fun p hp => Graph.mem_layers.1 hp

end Going

/-- The predicates do not fail for any facts that are told over the link. -/
def Answered (w : Watched kind) (l : Link) (ps : List TuplePredicate) : Prop :=
  ∀ m ∈ w.sent l, ∀ facts, m.facts = .ok facts → ∀ p ∈ ps, ∃ passes, p.run facts = .ok passes

/-- Filters in a row are as one filter with the conjunction of their predicates would be that was told
what went over the link to the first of them. -/
structure AsOne (g : Graph kind) (w : Watched kind) (l : Link) (ps : List TuplePredicate) (c : Link) :
    Prop where
  asked : ∀ m ∈ w.sent l, ∃ passes, m.Asked (conjunction ps) passes
  stack : g.Stack w.net l ps c (FilterMemory.replay (conjunction ps) (w.sent l)).1
  received : w.received c = (FilterMemory.replay (conjunction ps) (w.sent l)).2

namespace AsOne

theorem start (hchain : g.Chain l ps c) (net : Network kind) : AsOne g { net := net.reset g } l ps c where
  asked m hm := by cases hm
  stack := by
    refine .blank hchain (fun hn => ⟨_, Network.reset_memory hn, NodeMemory.serves_new _⟩) ?_
    intro k m hm
    obtain ⟨n, -, hnew⟩ := Option.map_eq_some_iff.1 ((Table.get?_mapValues g.nodes _ k).symm.trans hm)
    cases hop : n.operator <;> rw [hop] at hnew <;> cases hnew
    rfl
  received := rfl

theorem meanwhile (h : AsOne g w l ps c) {net : Network kind}
    (hsame : ∀ l, g.ToFilter l → net.memories.get? l.node = w.net.memories.get? l.node) :
    AsOne g { w with net } l ps c :=
  ⟨h.asked, h.stack.congr fun k _ hk => hsame k hk, h.received⟩

/-- Tuples of other nodes do not come near the filters. -/
theorem along (hg : g.WellFormed) (h : AsOne g w l ps c) (hl : g.Carries q l) (hne : p ≠ q)
    (halong : Along g (g.Carries p) w w') : AsOne g w' l ps c := by
  have hcarries : ∀ k, g.Below l k → g.Carries q k := fun k hb => by
    obtain ⟨n, d, hn, ho, hd, hb'⟩ := hl
    exact ⟨n, d, hn, ho, hd, hb'.trans hb⟩
  have hsent : ∀ k, g.Below l k → w'.sent k = w.sent k := fun k hb =>
    halong.sent_eq fun hk => hne (hg.carries_unique hk (hcarries k hb))
  refine ⟨?_, ?_, ?_⟩
  · rw [hsent l .refl]
    exact h.asked
  · rw [hsent l .refl]
    exact halong.stack h.stack fun k hb hk l' hl' => hg.carries_apart hne hl' (hcarries k hb) hk
  · rw [hsent l .refl, ← h.received]
    exact congrArg (List.map Moment.message) (hsent c h.stack.chain.reaches)

/-- The node above the filters forwards a tuple of its own. -/
theorem forward (hg : g.WellFormed) (h : AsOne g w l ps c) (howning : Network.Owning g w.net)
    (ht : w.net.agenda.find? u = some t) (hn : g.nodes.get? t.node = some n) (hl : l ∈ n.children)
    (hps : ∀ p ∈ ps, ∃ passes, p.run t.facts = .ok passes)
    (hrun : Watched.forward g t.node signal u w = .ok () w') : AsOne g w' l ps c := by
  obtain ⟨w₁, w₂, hbefore, hfound, hrunl, hafter⟩ := forward_through hg howning ht hn hl hrun
  obtain ⟨m, rfl, rfl, hfacts, hsent⟩ := sent_forward hg howning ht hn hl hrun
  obtain ⟨passes, hpasses⟩ := conjunction_total hps
  have hasked : m.Asked (conjunction ps) passes := ⟨t.facts, hfacts, hpasses⟩
  have hapart : ∀ k, g.Below l k → g.ToFilter k → ∀ l', g.Aside n.children l l' → l'.node ≠ k.node :=
    fun k hb hk l' => hg.aside_ne hn hl hb hk
  have hlast := hg.not_aside hn hl h.stack.chain.reaches
  obtain ⟨hstack, hreceived⟩ := deliver_stack hg (hbefore.stack h.stack hapart) hbefore.owning hfound
    (hg.layerOf_lt ⟨n, hn, hl⟩) hps hpasses hrunl
  refine ⟨?_, ?_, ?_⟩
  · rw [hsent]
    intro x hx
    rcases List.mem_append.1 hx with hx | hx
    · exact h.asked x hx
    · exact ⟨passes, List.mem_singleton.1 hx ▸ hasked⟩
  · rw [hsent, FilterMemory.replay_append_singleton, FilterMemory.hear_eq hasked]
    exact hafter.stack hstack hapart
  · rw [hsent, FilterMemory.replay_append_singleton, FilterMemory.hear_eq hasked, ← h.received,
      hafter.received_eq hlast, hreceived, hbefore.received_eq hlast]

end AsOne

theorem Forwarding.asOne (hg : g.WellFormed) (h : Forwarding g w) (hn : g.nodes.get? q = some n)
    (ho : n.operator.ownsTuples = true) (hl : l ∈ n.children) (hchain : g.Chain l ps c)
    (hps : w.Answered l ps) : AsOne g w l ps c := by
  induction h with
  | start net => exact .start hchain net
  | meanwhile _ _ hsame ih => exact (ih hps).meanwhile hsame
  | @forward w w' n' u t signal hbefore ht hn' ho' hrun ih =>
    by_cases hq : t.node = q
    · subst hq
      cases hn.symm.trans hn'
      obtain ⟨m, -, -, hfacts, hsent⟩ := sent_forward hg hbefore.owning ht hn hl hrun
      have hanswer := hps m (by simp [hsent]) t.facts hfacts
      exact (ih fun x hx => hps x (by simp [hsent, hx])).forward hg hbefore.owning ht hn hl hanswer hrun
    · have halong := along_forward hn' ho' hbefore.owning hrun
      have hcarries : g.Carries q l := ⟨n, l, hn, ho, hl, .refl⟩
      have hsent : w'.sent l = w.sent l :=
        halong.sent_eq fun hcarries' => hq (hg.carries_unique hcarries' hcarries)
      exact (ih fun x hx => hps x (hsent ▸ hx)).along hg hcarries hq halong

/-- The child beyond filters in a row hears what one filter with the conjunction of their predicates would
tell, were it told what goes over the link to the first of them. About every tuple that is the beginning
of `(insert update* retract)*`. And the child knows of exactly those tuples that are there and had facts
satisfying all predicates when they were told last. -/
structure Fuses (w : Watched kind) (l : Link) (ps : List TuplePredicate) (c : Link) : Prop where
  received : w.received c = (FilterMemory.replay (conjunction ps) (w.sent l)).2
  lifecycles : ∀ u, Lifecycles (signalsAbout u (w.received c))
  holding_iff : ∀ u, Holding (signalsAbout u (w.received c)) ↔
    ∃ m, latest u (w.sent l) = some m ∧ m.signal ≠ .retract ∧
      ∃ facts, m.facts = .ok facts ∧ ∀ p ∈ ps, p.run facts = .ok true

/-- A chain of filters whose predicates do not fail, below a node with tuples of its own, acts as one
filter does, as long as the node forwards tuples that come, change and go. -/
theorem Forwarding.fuses (hg : g.Built) (h : Forwarding g w) (hn : g.nodes.get? q = some n)
    (ho : n.operator.ownsTuples = true) (hl : l ∈ n.children) (hchain : g.Chain l ps c)
    (hps : w.Answered l ps)
    (htold : ∀ u, Lifecycles (signalsAbout u (w.received l))) : w.Fuses l ps c := by
  have hone := h.asOne hg.wellFormed hn ho hl hchain hps
  have haccords : ∀ u, FilterMemory.Accords (conjunction ps) u (w.sent l)
      (FilterMemory.replay (conjunction ps) (w.sent l)) :=
    fun u => FilterMemory.replay_accords hone.asked (htold u)
  refine ⟨hone.received, fun u => ?_, fun u => ?_⟩
  · rw [hone.received]
    exact lifecycles_iff.2 ⟨_, (haccords u).hears⟩
  · rw [hone.received, (haccords u).hears.holding_iff, decide_eq_true_iff, (haccords u).passes_iff]
    simp only [Moment.Asked, conjunction_true]

/-! ## A run -/

/-- A predicate of numbers. -/
def numbers (index : Nat) (test : Int64 → Bool) : TuplePredicate where
  key := .given index
  run facts := .ok (facts.all fun
    | .scalar (.int64 k) => test k
    | _ => false)

/-- The numbers that are even and positive. -/
def evenPositive : List TuplePredicate := [numbers 0 fun k => k % 2 == 0, numbers 1 fun k => 0 < k]

/-- The declarations of a graph that charges every even positive number. -/
def chargingEvens : List (Declaration .simple) :=
  [.forEach (.scalar .int64) false, .filter (some ⟨1⟩) (numbers 0 fun k => k % 2 == 0),
    .filter (some ⟨2⟩) (numbers 1 fun k => 0 < k), .charge (some ⟨3⟩) "" (.simple 1) .penalty none]

/-- The graph of `chargingEvens`. -/
def chargingEvensGraph : Graph .simple := (Blueprint.declare chargingEvens {}).prune

/-- A tuple of the source node comes with the first number, changes to each of the others, and goes, with
a flush after every step. -/
def passingThrough (first : Int64) (others : List Int64) : WatchedAction .simple Unit := do
  let u ← onNetwork (Network.insertSource ⟨1⟩ (.scalar (.int64 first)))
  let _ ← flush chargingEvensGraph
  others.forM fun k => do
    onNetwork (Network.updateSource u (.scalar (.int64 k)))
    let _ ← flush chargingEvensGraph
  onNetwork (Network.retractSource u)
  let _ ← flush chargingEvensGraph

theorem going_passingThrough {w w' : Watched .simple} {first : Int64} {others : List Int64}
    (h : Going chargingEvensGraph ⟨1⟩ (fun _ => False) w)
    (hrun : passingThrough first others w = .ok () w') :
    Going chargingEvensGraph ⟨1⟩ (fun _ => False) w' := by
  suffices hends : Action.Ends (passingThrough first others) w
      (fun _ => Going chargingEvensGraph ⟨1⟩ fun _ => False) fun _ => True from hends.of_ok hrun
  unfold passingThrough
  rw [Action.ends_bind]
  refine (h.change fun hI => hI.create _ _ _).mono (fun u w₁ h₁ => ?_) fun _ => id
  rw [Action.ends_bind]
  refine h₁.flush.mono (fun _ w₂ h₂ => ?_) fun _ => id
  rw [Action.ends_bind]
  refine (Action.Ends.forM (fun _ => Going chargingEvensGraph ⟨1⟩ fun _ => False) ?_ h₂).mono
    (fun _ w₃ h₃ => ?_) fun _ => id
  · intro k _ w h
    rw [Action.ends_bind]
    refine (h.change fun hI => (hI.setFacts u _).bind fun _ => hI.update u).mono
      (fun _ w' h' => ?_) fun _ => id
    rw [Action.ends_bind]
    exact h'.flush
  · rw [Action.ends_bind]
    refine (h₃.change fun hI => hI.retract u).mono (fun _ w' h' => ?_) fun _ => id
    rw [Action.ends_bind]
    exact h'.flush

/-- A tuple is told to be even and positive as long as it is, and no longer. -/
theorem passingThrough_received :
    Action.attains (passingThrough 2 [4, 3, 0, 8]) { net := Network.new chargingEvensGraph {} }
      (fun _ w => w.received ⟨⟨2⟩, .only⟩ == (lifetime 4).map (·, ⟨0, 0⟩) &&
        w.received ⟨⟨4⟩, .only⟩ ==
          [.insert, .update, .retract, .insert, .retract].map (·, ⟨0, 0⟩)) = true := by
  decide +kernel

theorem Forwarding.fuses_evens : ∃ w n, chargingEvensGraph.Built ∧ Forwarding chargingEvensGraph w ∧
    chargingEvensGraph.nodes.get? ⟨1⟩ = some n ∧ n.operator.ownsTuples = true ∧
    ⟨⟨2⟩, .only⟩ ∈ n.children ∧ chargingEvensGraph.Chain ⟨⟨2⟩, .only⟩ evenPositive ⟨⟨4⟩, .only⟩ ∧
    w.Answered ⟨⟨2⟩, .only⟩ evenPositive ∧
    (∀ u, Lifecycles (signalsAbout u (w.received ⟨⟨2⟩, .only⟩))) ∧
    (w.received ⟨⟨4⟩, .only⟩).map Prod.fst = [.insert, .update, .retract, .insert, .retract] ∧
    w.Fuses ⟨⟨2⟩, .only⟩ evenPositive ⟨⟨4⟩, .only⟩ := by
  obtain ⟨_, w, hrun, hreceived⟩ := Action.attains_iff.1 passingThrough_received
  have hforwarding : Forwarding chargingEvensGraph w :=
    (going_passingThrough (.new chargingEvensGraph {} _ ⟨1⟩) hrun).forwarding
  obtain ⟨htop, hlast⟩ := Bool.and_eq_true_iff.1 hreceived
  replace htop := beq_iff_eq.1 htop
  replace hlast := beq_iff_eq.1 hlast
  have hbuilt : chargingEvensGraph.Built := ⟨chargingEvens, rfl⟩
  obtain ⟨n, hn, ho, hl⟩ : ∃ n, chargingEvensGraph.nodes.get? ⟨1⟩ = some n ∧
      n.operator.ownsTuples = true ∧ (⟨⟨2⟩, .only⟩ : Link) ∈ n.children :=
    ⟨_, rfl, rfl, List.mem_cons_self⟩
  have hchain : chargingEvensGraph.Chain ⟨⟨2⟩, .only⟩ evenPositive ⟨⟨4⟩, .only⟩ :=
    .step rfl rfl List.mem_cons_self (.last rfl rfl List.mem_cons_self)
  have hanswered : w.Answered ⟨⟨2⟩, .only⟩ evenPositive := by
    intro m _ facts _ p hp
    rcases List.mem_pair.1 hp with rfl | rfl
    · exact ⟨_, rfl⟩
    · exact ⟨_, rfl⟩
  have htold : ∀ u, Lifecycles (signalsAbout u (w.received ⟨⟨2⟩, .only⟩)) := by
    intro u
    rw [htop]
    by_cases hu : u = ⟨0, 0⟩
    · subst hu
      exact Lifecycle.lifecycles (.ended 4)
    · have hnone : signalsAbout u ((lifetime 4).map (·, ⟨0, 0⟩)) = [] := by
        simp [signalsAbout, Ne.symm hu]
      rw [hnone]
      exact Lifecycle.nil.lifecycles
  refine ⟨w, n, hbuilt, hforwarding, hn, ho, hl, hchain, hanswered, htold, ?_,
    hforwarding.fuses hbuilt hn ho hl hchain hanswered htold⟩
  rw [hlast]
  rfl

end Watched

end ConstraintStreams
