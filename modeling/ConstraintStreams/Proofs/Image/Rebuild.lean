import ConstraintStreams.Proofs.Image.Session

/-!
# Rebuilding a session

`Session.rebuild` shows the facts of a session in a network of its own. That network is comparable
with the session's, so where it has a score, it is the score of the session.
-/

namespace ConstraintStreams

namespace Session

variable {kind : ScoreKind} {g : Graph kind} {E : Error → Prop} {s : Session kind} {p : NodeId}
  {fact : Fact} {net : Network kind} {score score' : Score kind}

/-- A fact is shown under its key. -/
theorem Holds.key_of_shown (h : Holds g s) {k : Fact.Key} {id : TupleId}
    (hshown : s.shown k p = some (id, fact)) : fact.key = k := by
  obtain ⟨entry, hget, hshown⟩ := Option.bind_eq_some_iff.1 hshown
  obtain ⟨id', -, heq⟩ := Option.map_eq_some_iff.1 hshown
  obtain ⟨rfl, rfl⟩ := Prod.mk.inj heq
  exact h.keyed hget

theorem mem_visibleFacts (h : Holds g s) :
    (p, fact) ∈ s.visibleFacts ↔ ∃ id, s.shown fact.key p = some (id, fact) := by
  unfold visibleFacts
  rw [List.mem_flatMap]
  constructor
  · rintro ⟨⟨k, entry⟩, hentry, hmem⟩
    obtain ⟨⟨q, tuple⟩, htuple, heq⟩ := List.mem_filterMap.1 hmem
    obtain ⟨id, rfl, hpair⟩ := Option.map_eq_some_iff.1 heq
    obtain ⟨rfl, rfl⟩ := Prod.mk.inj hpair
    have hget := Table.mem_inOrder.1 hentry
    rw [h.keyed hget]
    exact ⟨id, h.shown_eq hget _ htuple⟩
  · rintro ⟨id, hshown⟩
    obtain ⟨entry, hget, hshown⟩ := Option.bind_eq_some_iff.1 hshown
    obtain ⟨id', hjoin, heq⟩ := Option.map_eq_some_iff.1 hshown
    obtain ⟨rfl, rfl⟩ := Prod.mk.inj heq
    have hnodup : (entry.tuples.map Prod.fst).Nodup := by
      rw [h.listed hget]
      exact g.sourcesOf_nodup _
    exact ⟨(_, entry), Table.mem_inOrder.2 hget, List.mem_filterMap.2
      ⟨_, (Table.find_eq_some_iff hnodup).1 (Option.join_eq_some_iff.1 hjoin), rfl⟩⟩

/-- No fact is listed twice for a source. -/
theorem visibleFacts_nodup (h : Holds g s) : s.visibleFacts.Nodup := by
  have hkeys : (s.facts.inOrder s.hashOrder.facts).Pairwise fun e e' => e.1 ≠ e'.1 :=
    List.pairwise_map.1 (s.facts.nodup_keys_inOrder s.hashOrder.facts)
  unfold visibleFacts
  refine List.nodup_flatMap.2 ⟨fun (k, entry) hentry => ?_, ?_⟩
  · have hnodup : (entry.tuples.map Prod.fst).Nodup := by
      rw [h.listed (Table.mem_inOrder.1 hentry)]
      exact g.sourcesOf_nodup _
    refine List.Nodup.of_map Prod.fst (hnodup.sublist ?_)
    show List.Sublist _ (entry.tuples.map Prod.fst)
    induction entry.tuples with
    | nil => exact .slnil
    | cons e rest ih =>
      obtain ⟨q, _ | id⟩ := e
      · exact ih.cons _
      · exact ih.cons_cons _
  · refine hkeys.imp_of_mem fun {e e'} he he' hne => ?_
    -- Facts of different entries have different keys.
    have hfact : ∀ (entry : SourceFact) x, x ∈ entry.tuples.filterMap (fun t =>
        t.2.map fun _ => (t.1, entry.fact)) → x.2 = entry.fact := by
      intro entry x hx
      obtain ⟨t, -, ht⟩ := List.mem_filterMap.1 hx
      obtain ⟨id, -, rfl⟩ := Option.map_eq_some_iff.1 ht
      rfl
    intro x hx hx'
    have hsame := (hfact e.2 x hx).symm.trans (hfact e'.2 x hx')
    refine hne ?_
    rw [← h.keyed (Table.mem_inOrder.1 he), ← h.keyed (Table.mem_inOrder.1 he'), hsame]

/-- Showing the facts of a session in a network that shows nothing. -/
theorem insertVisible_spec (hE : Error.Tolerates E) (h : Holds g s)
    (hnet : Network.Sourced g (fun _ _ => none) net) :
    Action.Ensures E (s.visibleFacts.forM fun e => discard (Network.insertSource e.1 e.2)) net
      fun _ net' => net'.memories = net.memories ∧ ∃ shown, Network.Sourced g shown net' ∧
        ∀ k p, (shown k p).map Prod.snd = (s.shown k p).map Prod.snd := by
  -- Of the facts that are left, none is shown yet.
  let I (rest : List (NodeId × Fact)) (net' : Network kind) : Prop :=
    net'.memories = net.memories ∧ rest.Nodup ∧ (∀ e ∈ rest, e ∈ s.visibleFacts) ∧
      ∃ shown, Network.Sourced g shown net' ∧ ∀ k p fact, (∃ id, shown k p = some (id, fact)) ↔
        (∃ id, s.shown k p = some (id, fact)) ∧ (p, fact) ∉ rest
  have hstart : I s.visibleFacts net := by
    refine ⟨rfl, visibleFacts_nodup h, fun _ he => he, _, hnet, fun k p fact => ?_⟩
    constructor
    · rintro ⟨id, hid⟩
      cases hid
    · rintro ⟨⟨id, hshown⟩, hnot⟩
      refine absurd ((mem_visibleFacts h).2 ⟨id, ?_⟩) hnot
      rwa [h.key_of_shown hshown]
  have hround : ∀ e rest net', I (e :: rest) net' →
      Action.Ensures E (discard (Network.insertSource e.1 e.2)) net' fun _ net'' => I rest net'' := by
    rintro ⟨p, fact⟩ rest net' ⟨hm, hnodup, hvisible, shown, hsourced, hiff⟩
    obtain ⟨hnew, hrest⟩ := List.nodup_cons.1 hnodup
    obtain ⟨id, hid⟩ := (mem_visibleFacts h).1 (hvisible _ List.mem_cons_self)
    obtain ⟨n, hn, hsource⟩ := h.sourced.source hid
    have hnone : shown fact.key p = none := by
      rw [Option.eq_none_iff_forall_ne_some]
      rintro ⟨id', fact'⟩ hshown
      obtain ⟨⟨id'', hid'⟩, hnot⟩ := (hiff _ _ _).1 ⟨id', hshown⟩
      rw [hid] at hid'
      obtain ⟨rfl, rfl⟩ := Prod.mk.inj (Option.some.inj hid')
      exact hnot List.mem_cons_self
    rw [Action.ensures_discard]
    refine (Network.insertSource_spec hE hsourced hn hsource hnone).mono
      fun id' net'' ⟨hsourced', hamends⟩ => ⟨hamends.memories.trans hm, hrest,
        fun e he => hvisible e (List.mem_cons_of_mem _ he), _, hsourced', fun k' p' fact' => ?_⟩
    by_cases hk : fact.key = k' ∧ p = p'
    · obtain ⟨rfl, rfl⟩ := hk
      rw [Shown.put_self, hid]
      constructor
      · rintro ⟨_, heq⟩
        obtain ⟨-, rfl⟩ := Prod.mk.inj (Option.some.inj heq)
        exact ⟨⟨id, rfl⟩, hnew⟩
      · rintro ⟨⟨_, heq⟩, -⟩
        obtain ⟨-, rfl⟩ := Prod.mk.inj (Option.some.inj heq)
        exact ⟨id', rfl⟩
    · rw [Shown.put_of_ne hk, hiff, List.mem_cons, not_or]
      refine and_congr_right fun ⟨id'', hshown⟩ => and_iff_right ?_
      rintro heq
      obtain ⟨rfl, rfl⟩ := Prod.mk.inj heq
      exact hk ⟨h.key_of_shown hshown, rfl⟩
  refine (Action.Ensures.forM I hround hstart).mono
    fun _ net' ⟨hm, _, _, shown, hshown, hiff⟩ => ⟨hm, shown, hshown, fun k p => ?_⟩
  refine Option.ext fun fact => ?_
  simpa using hiff k p fact

/-- A rebuilt network is comparable with that of the session, and has the same weights in force. -/
theorem rebuild_spec (hg : g.WellFormed) (h : Holds g s) (hrebuild : s.rebuild = .ok score') :
    ∃ net, Network.AtRest g net ∧ net.score g = .ok score' ∧
      (∀ p ∈ g.constraints, net.weightAt p = s.network.weightAt p) ∧
      ∃ shown, Network.Sourced g shown net ∧
        ∀ k p, (shown k p).map Prod.snd = (s.shown k p).map Prod.snd := by
  have hgraph := h.graph
  subst hgraph
  obtain ⟨hblank, hdefault⟩ := Network.new_spec s.graph s.config.limits s.network.agenda.order
  have hwork : Action.Ensures (fun _ => True) (do
      applyWeights s.graph s.weightsInOrder
      s.visibleFacts.forM fun e => discard (Network.insertSource e.1 e.2)
      discard (Network.flush s.graph)
      (← get).score s.graph) (Network.new s.graph s.config.limits s.network.agenda.order) fun score net =>
        Network.AtRest s.graph net ∧ net.score s.graph = .ok score ∧
          (∀ p ∈ s.graph.constraints, net.weightAt p = s.network.weightAt p) ∧
          ∃ shown, Network.Sourced s.graph shown net ∧
            ∀ k p, (shown k p).map Prod.snd = (s.shown k p).map Prod.snd := by
    rw [Action.ensures_bind]
    refine (applyWeights_spec hg .any hblank h.named hdefault _).mono fun _ net₁ ⟨h₁, hweighed⟩ => ?_
    rw [Action.ensures_bind]
    refine (insertVisible_spec Error.Admits.any.toTolerates h h₁).mono
      fun _ net₂ ⟨hm, shown, h₂, hshown⟩ => ?_
    rw [Action.ensures_bind, Action.ensures_discard]
    obtain ⟨K, hK⟩ := h₂.consistent
    refine Traced.ensures_flush (s := { net := net₂ })
      ((Network.flush_spec hg (.any s.graph) Error.Admits.any.toTolerates hK).mono
        fun _ s₃ ⟨K', hflushed⟩ => ?_)
    have hweights : ∀ p ∈ s.graph.constraints, s₃.net.weightAt p = s.network.weightAt p := by
      intro p hp
      obtain ⟨name, hname⟩ := hg.named p hp
      obtain ⟨-, n, c, hn, hc, -⟩ := hg.names hname
      rw [hflushed.weights, h.weighed hname hn hc, ← hweighed hname hn hc]
      show net₂.weightAt p = _
      unfold Network.weightAt
      rw [hm]
    rw [Action.ensures_bind, Action.ensures_get, Action.ensures_lift]
    exact ⟨fun score hscore => ⟨hflushed.atRest, hscore, hweights, shown, h₂.flushed hg hflushed,
      hshown⟩, fun _ _ => trivial⟩
  unfold rebuild at hrebuild
  dsimp only at hrebuild
  split at hrebuild
  · next score net hrun =>
    cases hrebuild
    exact ⟨net, hwork.of_ok hrun⟩
  · cases hrebuild

/-- A flushed session and its rebuilt network have the same score. -/
theorem Holds.rebuild_eq (h : Holds g s) (hg : g.WellFormed) (hlaw : g.Lawful)
    (hrest : Network.AtRest g s.network) (hvalues : Network.DistinctValues g s.network)
    (hscore : s.network.score g = .ok score) (hrebuild : s.rebuild = .ok score') : score' = score := by
  obtain ⟨net, hrest', hscore', hweights, shown, hsourced, hshown⟩ := rebuild_spec hg h hrebuild
  have hcomparable : Network.Comparable g g Eq s.network net :=
    { wellFormed := hg
      wellFormed' := hg
      mirrors := g.mirrors_refl
      lawful := hlaw
      consistent := h.sourced.consistent
      consistent' := hsourced.consistent
      atRest := hrest
      atRest' := hrest'
      values := hvalues
      sources := by
        rintro p _ n rfl hn hsource
        exact h.sourced.rows_eq hsourced hrest hrest' hn hn hsource hsource
          (fun _ => mem_keys_of_shown) fun k => by
            simpa only [Option.map_map, Function.comp_def]
              using congrArg (Option.map Fact.data) (hshown k p).symm }
  have heq := hcomparable.score_eq (List.forall₂_same.2 fun p hp => ⟨rfl, (hweights p hp).symm⟩)
  rw [hscore, hscore'] at heq
  exact (Except.ok.inj heq).symm

end Session

end ConstraintStreams
