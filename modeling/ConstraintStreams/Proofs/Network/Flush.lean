import ConstraintStreams.Proofs.Network.Process

/-!
# A flush settles everything

Draining a node leaves nothing to do at it, and disturbs none of the nodes drained before, since every
link leads up. So after a flush all tuples are settled, all links are in step, and every node knows
all of its inputs as they are.
-/

namespace ConstraintStreams

/-- Nothing is left to do at a node: none of its tuples is queued, and it has none to settle. -/
structure Network.Calm {kind : ScoreKind} (net : Network kind) (p : NodeId) : Prop where
  queue : net.agenda.queues.get? p = some []
  refreshed : ∀ m, net.memories.get? p = some m → m.hasDirty = false

namespace Traced

variable {kind : ScoreKind} {g : Graph kind} {past : Network kind} {E : Error → Prop}
  {K : Knowledge} {s : Traced kind} {done : List NodeId} {p : NodeId} {n : Node kind}

/-- The nodes that were drained so far, none of which is above a node. -/
structure Drained (g : Graph kind) (done : List NodeId) (p : NodeId) : Prop where
  fresh : p ∉ done
  above : ∀ q ∈ done, g.layerOf q ≤ g.layerOf p

/-- A node that is at or above the last one that was drained. -/
theorem Drained.cons {q : NodeId} (h : Drained g done q) (hnext : g.layerOf p ≤ g.layerOf q ∧ p ≠ q) :
    Drained g (p :: done) q where
  fresh hm := (List.mem_cons.1 hm).elim hnext.2.symm h.fresh
  above r hr := (List.mem_cons.1 hr).elim (fun hp => hp ▸ hnext.1) (h.above r)

/-- Settling the outputs of a node changes no link. -/
theorem refresh_spec (hg : g.WellFormed) (hE : Error.Tolerates E) (hn : g.nodes.get? p = some n)
    (h : Coherent g past [] K s) (hp : Progress g past done (fun _ => False) K s) (hfresh : p ∉ done) :
    Action.Ensures E (onNetwork (Network.refresh g p)) s fun _ s' => Coherent g past [] K s' ∧
      Progress g past done (fun _ => False) K s' ∧
      (∀ m, s'.net.memories.get? p = some m → m.hasDirty = false) ∧
      (∀ q, q ≠ p → s'.net.memories.get? q = s.net.memories.get? q ∧
        s'.net.agenda.queues.get? q = s.net.agenda.queues.get? q) ∧
      (∀ q, (q ≠ p ∨ ∀ p l, g.Leads p l → l.node ≠ q) →
        s'.net.agenda.openAt q = s.net.agenda.openAt q) ∧
      ∀ q, s'.net.weightAt q = s.net.weightAt q := by
  obtain ⟨m, m₀, hm, hm₀, hvalid, hsince⟩ := h.memory hn
  refine Action.ensures_within.2 ((Network.refresh_spec hn hm h.sound (h.queue_of_owns hn)
    (h.feeds_view hg p) hvalid hsince hE).mono fun _ net' ⟨m', hacted, hpassed, hrefreshed, hidle⟩ => ?_)
  have hsame : ∀ q, net'.passedAt q = s.net.passedAt q := by
    intro q
    by_cases hpq : p = q
    · subst hpq
      rw [hacted.passedAt_self, hpassed]
      simp [Network.passedAt, hm]
    · exact hacted.passedAt_of_ne hpq
  refine ⟨?_, ?_, fun m'' hm'' => ?_, fun q hq => ⟨?_, hacted.evolves.queues q hq⟩, fun q hq => ?_,
    hacted.weightAt hm⟩
  · have hact : Coherent g past [] K { s with net := net' } := h.act hn hm₀ hacted
      ⟨rfl, fun hf => ⟨hf.1, hacted.evolves.settled hf.2⟩⟩ rfl (fun _ _ _ => ⟨rfl, id⟩)
      (fun _ _ _ => Iff.rfl) fun l u facts _ htold => h.feeds htold
    exact hact
  · refine hp.drift hacted.evolves (fun q hq => hq ▸ hfresh) (fun _ hl hin => ?_) .inl id
    refine ⟨hin.held.trans ?_, fun hk hs => hin.synced hk (hacted.evolves.settled hs)⟩
    exact (or_congr hacted.evolves.seen_iff (hsame _ ▸ Iff.rfl)).symm
  · rw [show _ = _ from hacted.memories p, if_pos rfl] at hm''
    cases hm''
    exact hrefreshed
  · rw [show _ = _ from hacted.memories q, if_neg (Ne.symm hq)]
  · by_cases hqp : q = p
    · -- A node that no link leads to has no parents, and nothing to settle.
      subst hqp
      replace hq := hq.resolve_left fun hne => hne rfl
      have hinputs : n.operator.inputs = 0 := by
        rw [← hg.linked.shaped hn, List.length_eq_zero_iff, List.eq_nil_iff_forall_not_mem]
        intro r hr
        obtain ⟨nr, hnr, -⟩ := hg.linked.below hn hr
        obtain ⟨side, hside⟩ := Blueprint.exists_side hr
        exact hq r ⟨q, side⟩ ⟨nr, hnr, (hg.linked.links hnr).2 ⟨n, hn, hside⟩⟩ rfl
      show net'.agenda.openAt q = _
      rw [hidle hinputs]
    · exact hacted.evolves.openAt_eq hqp

/-- Taking the queue of a node changes no tuple. -/
theorem takeQueue_spec (h : Coherent g past [] K s) (hp : Progress g past done (fun _ => False) K s)
    (hn : g.nodes.get? p = some n) (ho : n.operator.ownsTuples = true) :
    Action.Ensures E (onNetwork (Network.onAgenda (Agenda.takeQueue p))) s fun queue s' =>
      Coherent g past queue K s' ∧ Progress g past (p :: done) (fun _ => False) K s' ∧
      (∀ u ∈ queue, ∃ t, s'.net.agenda.find? u = some t ∧ t.node = p) ∧
      s'.net.memories = s.net.memories ∧
      (∀ q, s'.net.agenda.openAt q = s.net.agenda.openAt q) ∧
      ∀ q, s'.net.agenda.queues.get? q = if p = q then some [] else s.net.agenda.queues.get? q := by
  obtain ⟨queue, hq⟩ := h.queue_of_owns hn ho
  refine Action.ensures_within.2 (Action.ensures_within.2 (Agenda.takeQueue_spec h.sound hq
    fun agenda hsound hfind _ hgeneration hqueues => ?_))
  have hsettled : ∀ {x}, agenda.Settled x → s.net.agenda.Settled x := by
    rintro x ⟨t, ht, hs⟩
    exact ⟨t, (hfind x) ▸ ht, hs⟩
  have hopen : ∀ q, agenda.openAt q = s.net.agenda.openAt q := by
    intro q
    funext x
    unfold Agenda.openAt
    rw [hfind]
  refine ⟨?_, ?_, ?_, rfl, hopen, hqueues⟩
  · refine h.move hsound (fun q => ?_) hopen rfl (fun l x hk hs => ⟨hk, hsettled hs⟩)
      fun l x t _ ht => ⟨t, (hfind x).trans ht, rfl, fun _ _ => rfl⟩
    rw [hqueues]
    split
    · next he => subst he; rw [hq]; rfl
    · rfl
  · constructor
    · intro q l x hx hl
      have hin := hp.inStep (x := x) hx hl
      refine ⟨hin.held.trans (or_congr_left ?_), fun hk hs => hin.synced hk (hsettled hs)⟩
      show _ ↔ ∃ t, agenda.find? x = some t ∧ _
      rw [hfind]
    · intro l x hd hx
      show (∃ t, agenda.find? x = some t ∧ _) ∨ agenda.find? x = none ∧
        x.generation < agenda.tuples.generation
      rw [hfind, hgeneration]
      exact (hp.traced hd hx).imp_left fun ⟨t, ht, hs, hnode⟩ =>
        ⟨t, ht, hs, List.mem_cons_of_mem p hnode⟩
    · intro o t ht hnode
      obtain ⟨t', ht', hn'⟩ := hp.lasting ht fun hd => hnode (List.mem_cons_of_mem p hd)
      exact ⟨t', (hfind o).trans ht', hn'⟩
    · exact hp.untouched
  · intro u hu
    obtain ⟨t, ht, hnode⟩ := h.sound.queued ⟨queue, hq, hu⟩
    exact ⟨t, (hfind u).trans ht, hnode⟩

/-- Draining a node leaves nothing to do at it, and disturbs no node drained before. -/
theorem drain_spec (hg : g.WellFormed) (hsafe : g.Safe E) (hE : Error.Tolerates E)
    (hn : g.nodes.get? p = some n) (ho : n.operator.ownsTuples = true) (hd : Drained g done p)
    (h : Coherent g past [] K s) (hp : Progress g past done (fun _ => False) K s) :
    Action.Ensures E (drain g p) s fun _ s' => ∃ K', Coherent g past [] K' s' ∧
      Progress g past (p :: done) (fun _ => False) K' s' ∧ s'.net.Calm p ∧
      (∀ q ∈ done, s.net.Calm q → s'.net.Calm q) ∧
      (∀ q, (∀ p l, g.Leads p l → l.node ≠ q) →
        s'.net.agenda.openAt q = s.net.agenda.openAt q) ∧
      ∀ q, s'.net.weightAt q = s.net.weightAt q := by
  unfold drain
  rw [Action.ensures_bind]
  refine (refresh_spec hg hE hn h hp hd.fresh).mono
    fun _ s₁ ⟨h₁, hp₁, hrefreshed, hother, hopens₁, hweights₁⟩ => ?_
  rw [Action.ensures_bind]
  refine (takeQueue_spec h₁ hp₁ hn ho).mono fun queue s₂
    ⟨h₂, hp₂, hqueue, hmemories, hopens₂, hqueues⟩ => ?_
  have hweights₂ : ∀ q, s₂.net.weightAt q = s₁.net.weightAt q := fun q => by
    unfold Network.weightAt
    rw [hmemories]
  rw [Action.ensures_bind]
  have hloop := Action.Ensures.forM (E := E) (f := process g p)
    (fun rest (s' : Traced kind) => ∃ K', Coherent g past rest K' s' ∧
      Progress g past (p :: done) (fun _ => False) K' s' ∧
      (∀ u ∈ rest, ∃ t, s'.net.agenda.find? u = some t ∧ t.node = p) ∧
      (∀ q, g.layerOf q ≤ g.layerOf p → s'.net.memories.get? q = s₂.net.memories.get? q ∧
        s'.net.agenda.queues.get? q = s₂.net.agenda.queues.get? q) ∧
      (∀ q, (∀ p l, g.Leads p l → l.node ≠ q) →
        s'.net.agenda.openAt q = s₂.net.agenda.openAt q) ∧
      ∀ q, s'.net.weightAt q = s₂.net.weightAt q) ?_
    ⟨K, h₂, hp₂, hqueue, fun _ _ => ⟨rfl, rfl⟩, fun _ _ => rfl, fun _ => rfl⟩
  · refine hloop.mono fun _ s₃ ⟨K₃, h₃, hp₃, _, hkept, hopens₃, hweights₃⟩ => ?_
    refine ⟨K₃, h₃, hp₃, ?_, fun q hq hcalm => ?_, fun q hq => ?_, fun q => ?_⟩
    · obtain ⟨hm, hq⟩ := hkept p (Nat.le_refl _)
      refine ⟨by rw [hq, hqueues, if_pos rfl], fun m hm' => ?_⟩
      rw [hm, hmemories] at hm'
      exact hrefreshed m hm'
    · obtain ⟨hm₃, hq₃⟩ := hkept q (hd.above q hq)
      have hne : q ≠ p := fun he => hd.fresh (he ▸ hq)
      obtain ⟨hm₁, hq₁⟩ := hother q hne
      refine ⟨by rw [hq₃, hqueues, if_neg (Ne.symm hne), hq₁, hcalm.queue], fun m hm' => ?_⟩
      rw [hm₃, hmemories, hm₁] at hm'
      exact hcalm.refreshed m hm'
    · rw [hopens₃ q hq, hopens₂, hopens₁ q (.inr hq)]
    · rw [hweights₃, hweights₂, hweights₁]
  · rintro u rest s' ⟨K', h', hp', hrest, hkept, hopens, hweights⟩
    obtain ⟨t, ht, hnode⟩ := hrest u List.mem_cons_self
    have hturn : Turn g past (p :: done) rest u t n K' s' := by
      refine ⟨h', hp', ht, hnode ▸ hn, ho, hnode ▸ List.mem_cons_self, fun q hq => ?_⟩
      rcases List.mem_cons.1 hq with rfl | hq
      · rw [hnode]
      · rw [hnode]; exact hd.above q hq
    have hprocess := process_spec hg hsafe hE hturn
    rw [hnode] at hprocess
    refine hprocess.mono fun _ s'' ⟨K'', h'', hp'', hspares⟩ => ?_
    refine ⟨K'', h'', hp'', fun x hx => ?_, fun q hq => ?_, fun q hq => ?_, fun q => ?_⟩
    · obtain ⟨tx, htx, hnx⟩ := hrest x (List.mem_cons_of_mem u hx)
      have hne : x ≠ u := fun he => (List.nodup_cons.1 h'.sound.away_nodup).1 (he ▸ hx)
      exact ⟨tx, hspares.tuples hne htx (by rw [hnx]), hnx⟩
    · obtain ⟨hm, hq'⟩ := hkept q hq
      exact ⟨(hspares.memories q hq).trans hm, (hspares.queues q hq).trans hq'⟩
    · exact (hspares.opens q hq).trans (hopens q hq)
    · exact (hspares.weights q).trans (hweights q)

/-- Draining nodes layer by layer leaves nothing to do at any of them. -/
theorem drainAll_spec (hg : g.WellFormed) (hsafe : g.Safe E) (hE : Error.Tolerates E)
    {nodes : List NodeId}
    (hnodes : ∀ p ∈ nodes, ∃ n, g.nodes.get? p = some n ∧ n.operator.ownsTuples = true)
    (hsorted : nodes.Pairwise fun p q => g.layerOf p ≤ g.layerOf q ∧ p ≠ q)
    (hd : ∀ p ∈ nodes, Drained g done p) (h : Coherent g past [] K s)
    (hp : Progress g past done (fun _ => False) K s) :
    Action.Ensures E (drainAll g nodes) s fun _ s' => ∃ K' done', Coherent g past [] K' s' ∧
      Progress g past done' (fun _ => False) K' s' ∧ (∀ p ∈ nodes, s'.net.Calm p) ∧
      (∀ q ∈ done, s.net.Calm q → s'.net.Calm q) ∧
      (∀ q, (∀ p l, g.Leads p l → l.node ≠ q) →
        s'.net.agenda.openAt q = s.net.agenda.openAt q) ∧
      ∀ q, s'.net.weightAt q = s.net.weightAt q := by
  induction nodes generalizing K s done with
  | nil => exact ⟨K, done, h, hp, fun p hp => (nomatch hp), fun _ _ hc => hc, fun _ _ => rfl,
      fun _ => rfl⟩
  | cons p rest ih =>
    obtain ⟨n, hn, ho⟩ := hnodes p List.mem_cons_self
    obtain ⟨hfirst, hsorted'⟩ := List.pairwise_cons.1 hsorted
    unfold drainAll
    rw [Action.ensures_bind]
    refine (drain_spec hg hsafe hE hn ho (hd p List.mem_cons_self) h hp).mono
      fun _ s₁ ⟨K₁, h₁, hp₁, hcalm, hkept, hopens₁, hweights₁⟩ => ?_
    have hd₁ : ∀ q ∈ rest, Drained g (p :: done) q := fun q hq =>
      (hd q (List.mem_cons_of_mem p hq)).cons (hfirst q hq)
    rw [Action.ensures_bind]
    refine (ih (fun q hq => hnodes q (List.mem_cons_of_mem p hq)) hsorted' hd₁ h₁ hp₁).mono
      fun _ s₂ ⟨K₂, done₂, h₂, hp₂, hcalm₂, hkept₂, hopens₂, hweights₂⟩ => ?_
    refine ⟨K₂, done₂, h₂, hp₂, fun q hq => ?_, fun q hq hc => ?_, fun q hq => ?_, fun q => ?_⟩
    · rcases List.mem_cons.1 hq with rfl | hq
      · exact hkept₂ q List.mem_cons_self hcalm
      · exact hcalm₂ q hq
    · exact hkept₂ q (List.mem_cons_of_mem p hq) (hkept q hq hc)
    · exact (hopens₂ q hq).trans (hopens₁ q hq)
    · exact (hweights₂ q).trans (hweights₁ q)

end Traced

/-! ## Between flushes -/

namespace Coherent

variable {kind : ScoreKind} {g : Graph kind} {past : Network kind} {away : List TupleId}
  {K : Knowledge} {s s' : Traced kind} {net : Network kind}

/-- Coherence speaks of the agenda, the memories and the record. -/
theorem congr (h : Coherent g past away K s) (hagenda : s'.net.agenda = s.net.agenda)
    (hmemories : s'.net.memories = s.net.memories) (htrace : s'.trace = s.trace) :
    Coherent g past away K s' where
  sound := hagenda ▸ h.sound
  registered p := by rw [hagenda]; exact h.registered p
  memory := by
    intro p n hn
    have hview : K.view s' p = K.view s p := by simp only [Knowledge.view, hagenda, htrace]
    rw [hview, hagenda, hmemories]
    exact h.memory hn
  feeds htold := by
    rw [hagenda]
    exact h.feeds htold

/-- Where a flush ends, another one may begin. -/
theorem restart (h : Coherent g past away K s) : Coherent g s.net away K { net := s.net } where
  sound := h.sound
  registered := h.registered
  memory := by
    intro p n hn
    obtain ⟨m, -, hm, -, hvalid, -⟩ := h.memory hn
    have hvalid' : m.Valid n.operator (K.view { net := s.net } p) (s.net.agenda.openAt p) :=
      hvalid.fades ⟨rfl, id⟩
    exact ⟨m, m, hm, hm, hvalid', .start hvalid' fun _ _ hd => (nomatch hd)⟩
  feeds := h.feeds

end Coherent

namespace Network

variable {kind : ScoreKind} {g : Graph kind} {E : Error → Prop} {K : Knowledge} {net : Network kind}

/-- What holds of a network between flushes: every node holds what follows from what it was told, and
was told what its parents show. -/
structure Consistent (g : Graph kind) (K : Knowledge) (net : Network kind) : Prop where
  coherent : Coherent g net [] K { net }
  inStep : ∀ {p l u}, g.Leads p l → InStep K net p l u

/-- What holds of a network right after a flush: nothing is left to do. -/
structure AtRest (g : Graph kind) (net : Network kind) : Prop where
  settled : ∀ {u t}, net.agenda.find? u = some t → t.stage = .settled
  calm : ∀ {p n}, g.nodes.get? p = some n → n.operator.ownsTuples = true → net.Calm p

/-- What a flush makes of a network: a consistent one in which nothing is left to do. What nothing
can be told to is as before, and so are the weights, and the tuples that nothing was delivered about
over a link that tells of them. -/
structure Flushed (g : Graph kind) (past : Network kind) (K : Knowledge) (s : Traced kind) :
    Prop where
  coherent : Coherent g past [] K s
  inStep : ∀ {p l u}, g.Leads p l → InStep K s.net p l u
  atRest : AtRest g s.net
  opens : ∀ q, (∀ p l, g.Leads p l → l.node ≠ q) → s.net.agenda.openAt q = past.agenda.openAt q
  weights : ∀ q, s.net.weightAt q = past.weightAt q
  untouched : ∀ {l u facts}, K.told l u = some facts → ⟨l, u⟩ ∉ s.trace →
    ∃ t, past.agenda.find? u = some t ∧ t.stage = .settled ∧ t.facts = facts

theorem Flushed.consistent {s : Traced kind} (h : Flushed g net K s) : Consistent g K s.net :=
  ⟨h.coherent.restart, h.inStep⟩

/-- Only of settled tuples is all current. -/
theorem Consistent.refine (h : Consistent g K net) :
    Consistent g ⟨K.told, fun l u => K.synced l u ∧ net.agenda.Settled u⟩ net where
  coherent := h.coherent.move h.coherent.sound (fun _ => rfl) (fun _ => rfl) rfl
    (fun _ _ hsynced hs => ⟨hsynced.1, hs⟩) fun _ _ t _ ht => ⟨t, ht, rfl, fun _ _ => rfl⟩
  inStep hl := ⟨(h.inStep hl).held, fun hk hs => ⟨(h.inStep hl).synced hk hs, hs⟩⟩

/-- When a flush begins, all links are in step, and nothing was delivered. -/
theorem Consistent.progress (h : Consistent g K net) : ∃ K₀,
    Coherent g net [] K₀ ({ net := { net with operations := 0 } } : Traced kind) ∧
      Traced.Progress g net [] (fun _ => False) K₀
        ({ net := { net with operations := 0 } } : Traced kind) := by
  have hrefined := h.refine
  refine ⟨_, hrefined.coherent.congr rfl rfl rfl, ?_⟩
  exact
    { inStep := fun _ hl => ⟨(hrefined.inStep hl).held, (hrefined.inStep hl).synced⟩
      traced := fun hd => (nomatch hd)
      lasting := fun ht _ => ⟨_, ht, rfl⟩
      untouched := by
        rintro l u facts ⟨htold, ⟨hsynced, hsettled⟩, -⟩
        obtain ⟨t, ht, -, hfacts⟩ := h.coherent.feeds htold
        obtain ⟨t', ht', hstage⟩ := hsettled
        cases ht.symm.trans ht'
        exact ⟨t, ht, hstage, hfacts hsynced hstage⟩ }

/-- A flush of a consistent network fails only with errors of the functions of the user or at a limit;
otherwise all is settled afterwards. -/
theorem flush_spec (hg : g.WellFormed) (hsafe : g.Safe E) (hE : Error.Tolerates E)
    (h : Consistent g K net) :
    Action.Ensures E (Traced.flush g) { net } fun _ s' => ∃ K', Flushed g net K' s' := by
  obtain ⟨K₀, hcoherent, hstart⟩ := h.progress
  unfold Traced.flush
  rw [Action.ensures_bind]
  refine Action.ensures_within.2 ?_
  rw [Action.ensures_modify]
  refine (Traced.drainAll_spec hg hsafe hE (fun p hp => Graph.mem_layers.1 hp) g.layers_sorted
    (fun p _ => ⟨List.not_mem_nil, fun q hq => (nomatch hq)⟩) hcoherent hstart).mono
    fun _ s' ⟨K', done, h', hp', hcalm, _, hopens, hweights⟩ => ?_
  have hall : ∀ {p n}, g.nodes.get? p = some n → n.operator.ownsTuples = true → s'.net.Calm p :=
    fun hn ho => hcalm _ (Graph.mem_layers.2 ⟨_, hn, ho⟩)
  have hsettled : ∀ {u t}, s'.net.agenda.find? u = some t → t.stage = .settled := by
    intro u t ht
    obtain ⟨n, hn, ho⟩ := h'.owner ht
    have hclean : t.stage.isDirty = false := by
      rw [← Bool.not_eq_true, h'.sound.dirty_iff ht]
      rintro (hm | ⟨queue, hq, hm⟩)
      · cases hm
      · rw [(hall hn ho).queue] at hq
        cases hq
        cases hm
    have halive := h'.sound.alive ht
    cases hs : t.stage <;> simp_all [Stage.isDirty]
  refine ⟨K', h', fun hl => hp'.inStep (fun hf => hf) hl, ⟨hsettled, hall⟩, hopens, hweights,
    fun {l u facts} htold hd => hp'.untouched ⟨htold, ?_, hd⟩⟩
  -- Everything is settled, so all that was told is current.
  obtain ⟨t, ht, hcarries, -⟩ := h'.feeds htold
  obtain ⟨p, hl⟩ := hg.carries_leads hcarries
  exact (hp'.inStep (fun hf => hf) hl).synced (by rw [htold]; rfl) ⟨t, ht, hsettled ht⟩

end Network

end ConstraintStreams
