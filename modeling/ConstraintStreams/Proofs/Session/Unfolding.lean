import ConstraintStreams.Proofs.Graph.Sharing
import ConstraintStreams.Proofs.Session.Effects

/-!
# Sharing keeps the meaning

A graph that is built shares nodes and leaves out what no constraint depends on. Sessions on it and on
the graph with a node for every declaration, taken through the same calls, go in parallel: they have
the same facts and the same weights, and their constraints have matches that come to the same. So they
have the same totals at any time, and compute the same score.
-/

namespace ConstraintStreams

variable {kind : ScoreKind}

namespace Ledger

/-- Another weight leaves what the matches come to without it. -/
theorem setWeight_matchWeights (c : Constraint kind) (weight : Score kind)
    (order : Arrangement TupleId) (l : Ledger kind) :
    Action.Ensures (fun _ => True) (setWeight c weight order) l fun _ l' =>
      l'.matchWeights = l.matchWeights := by
  refine (setWeight_ends c weight order l).ensures.mono fun _ l' hl' => ?_
  have hvalues := congrArg Table.values hl'.matchWeights_eq
  rw [Table.values_mapValues, Table.values_mapValues] at hvalues
  exact congrArg Multiset.ofList hvalues

end Ledger

namespace Network

variable {g : Graph kind} {net net' : Network kind} {p : NodeId} {n : Node kind} {c : Constraint kind}

/-- What the matches of a constraint come to. -/
def matchedAt (net : Network kind) (p : NodeId) : Option (Multiset Int64) :=
  (net.ledger? p).map (·.matchWeights)

theorem matchedAt_congr (h : net'.memories = net.memories) : net'.matchedAt = net.matchedAt := by
  funext p
  unfold matchedAt ledger?
  rw [h]

theorem setWeight_matchedAt (g : Graph kind) (p : NodeId) (weight : Score kind) (net : Network kind) :
    Action.Ensures (fun _ => True) (setWeight g p weight) net fun _ net' =>
      net'.matchedAt = net.matchedAt := by
  unfold setWeight
  rw [Action.ensures_bind, Action.ensures_lift]
  refine ⟨fun c _ => ?_, fun _ _ => trivial⟩
  rw [Action.ensures_bind, Action.ensures_get]
  split
  · next l hl =>
    refine Action.ensures_within.2 ((Ledger.setWeight_matchWeights c weight _ l).mono fun _ l' hl' => ?_)
    funext q
    unfold matchedAt
    by_cases hpq : p = q
    · subst hpq
      rw [hl, ledger?, Table.get?_insert, if_pos rfl]
      exact congrArg some hl'
    · rw [ledger?, Table.get?_insert, if_neg hpq]
      rfl
  · rfl

/-- Putting weights in force leaves what the matches come to without them. -/
theorem applyWeights_matchedAt (g : Graph kind) (weights : List (ConstraintId × Score kind))
    (net : Network kind) : Action.Ensures (fun _ => True) (Session.applyWeights g weights) net
      fun _ net' => net'.matchedAt = net.matchedAt := by
  refine Action.Ensures.forM (fun _ (net' : Network kind) => net'.matchedAt = net.matchedAt) ?_ rfl
  intro e rest net₁ h₁
  rw [Action.ensures_bind, Action.ensures_lift]
  exact ⟨fun p _ => (setWeight_matchedAt g p e.2 net₁).mono fun _ _ h₂ => h₂.trans h₁, fun _ _ => trivial⟩

/-- Nothing matches in a network that starts over. -/
theorem matchedAt_reset (hn : g.nodes.get? p = some n) (hc : n.operator = .constraint c) :
    (reset g net).matchedAt p = some 0 := by
  have hm : (reset g net).memories.get? p = some (.constraint (.new c.weight)) := by
    show (g.nodes.mapValues _).get? p = _
    rw [Table.get?_mapValues, hn, Option.map_some, hc]
    rfl
  unfold matchedAt ledger?
  rw [hm]
  rfl

end Network

/-- Related nodes of two graphs do the same, and so do their constraints, one by one and by name. -/
structure Graph.Copies (g g' : Graph kind) (R : NodeId → NodeId → Prop) : Prop where
  wellFormed : g.WellFormed
  wellFormed' : g'.WellFormed
  lawful : g.Lawful
  mirrors : g.Mirrors g' R
  constraints : List.Forall₂ R g.constraints g'.constraints
  names : ∀ name, Option.Rel R (g.names.get? name) (g'.names.get? name)

/-- Every node that a script is built into does the same as a node that is there for some declaration
alone. -/
theorem Script.copies_plain {fs : Functions} {script : Script kind} {g : Graph kind}
    (hscript : ∀ d ∈ script, d.Uses fs) (hbuild : script.build = .ok g) (hlaw : g.Lawful) :
    ∃ R, g.Copies script.plain R := by
  obtain ⟨R, hR, -⟩ := enact_unfolds hscript
  have hg := wellFormed_of_build hbuild
  obtain rfl := build_eq_ok hbuild
  refine ⟨R, hg, wellFormed_plain script, hlaw, fun p p' n hrel hn => ?_, hR.constraints, hR.names⟩
  obtain ⟨m, hm, hop, hparents, -⟩ := Blueprint.alike_prune hn
  obtain ⟨m', n', hm', hn', hop', hparents', -⟩ := hR.copies hrel
  cases hm.symm.trans hm'
  refine ⟨n', hn', hop'.trans hop.symm, ?_⟩
  rw [hparents]
  exact hparents'

namespace Session

/-- The total of a constraint, by its name. -/
def totalOf (s : Session kind) (name : ConstraintId) : Option (Score kind) :=
  (s.graph.names.get? name).bind fun p => (s.network.ledger? p).map (·.total)

variable {g g' : Graph kind} {R : NodeId → NodeId → Prop} {s s' t t' : Session kind} {p p' : NodeId}
  {n : Node kind} {c : Constraint kind}

/-- Two sessions have the same facts, weights and settings, and constraints that do the same have
matches that come to the same. -/
structure Parallel (g g' : Graph kind) (R : NodeId → NodeId → Prop) (s s' : Session kind) : Prop where
  holds : Holds g s
  holds' : Holds g' s'
  facts : s.fact? = s'.fact?
  weights : s.weights = s'.weights
  config : s.config = s'.config
  matched : ∀ {p p' n c}, R p p' → g.nodes.get? p = some n → n.operator = .constraint c →
    s.network.matchedAt p = s'.network.matchedAt p'

theorem Parallel.new (hg : g.Copies g' R) (config : Config) (order order' : TupleStore → HashOrder) :
    Parallel g g' R (new g config order) (new g' config order') where
  holds := new_holds g config order
  holds' := new_holds g' config order'
  facts := rfl
  weights := rfl
  config := rfl
  matched hrel hn hc := by
    obtain ⟨n', hn', hop, -⟩ := hg.mirrors _ _ _ hrel hn
    exact (Network.matchedAt_reset hn hc).trans (Network.matchedAt_reset hn' (hop.trans hc)).symm

/-- When both networks are at rest, their constraints match the same rows. -/
theorem matchedAt_of_rest (hg : g.Copies g' R) (h : Holds g s) (h' : Holds g' s')
    (hfacts : s.fact? = s'.fact?) (hrest : Network.AtRest g s.network)
    (hrest' : Network.AtRest g' s'.network) (hvalues : Network.DistinctValues g s.network)
    (hrel : R p p') (hn : g.nodes.get? p = some n) (hc : n.operator = .constraint c) :
    s.network.matchedAt p = s'.network.matchedAt p' :=
  (h.comparable h' hg.wellFormed hg.wellFormed' hg.mirrors hg.lawful hrest hrest'
    (fun k => hfacts ▸ g.rel_confuses_self (s.fact? k)) hvalues).matchWeights_eq hrel hn hc

theorem clear_matchedAt (h : Holds g s) (hrun : clear s = .ok () t) (hn : g.nodes.get? p = some n)
    (hc : n.operator = .constraint c) : t.network.matchedAt p = some 0 := by
  have hends : Action.Ensures (fun _ => True) clear s fun _ t =>
      t.network.matchedAt = (s.network.reset g).matchedAt := by
    unfold clear
    rw [Action.ensures_bind]
    refine (checkUsable_spec .any).mono fun _ s' hs' => ?_
    subst hs'
    rw [Action.ensures_bind, Action.ensures_modify, Action.ensures_bind, Action.ensures_get, h.graph]
    exact ensures_guarded (Action.ensures_within.2 (Network.applyWeights_matchedAt g _ _))
  rw [hends.of_ok hrun]
  exact Network.matchedAt_reset hn hc

theorem setWeight_matchedAt {name : ConstraintId} {weight : Score kind}
    (hrun : setWeight name weight s = .ok () t) : t.network.matchedAt = s.network.matchedAt := by
  have hends : Action.Ensures (fun _ => True) (setWeight name weight) s fun _ t =>
      t.network.matchedAt = s.network.matchedAt := by
    unfold setWeight
    rw [Action.ensures_bind]
    refine (checkUsable_spec .any).mono fun _ s' hs' => ?_
    subst hs'
    rw [Action.ensures_bind, Action.ensures_get, Action.ensures_bind, Action.ensures_lift]
    refine ⟨fun p _ => ?_, fun _ _ => trivial⟩
    split
    · trivial
    · rw [Action.ensures_bind]
      exact Action.ensures_within.2 (Network.setWeight_matchedAt _ p weight _)
  exact hends.of_ok hrun

/-- A call that succeeds on both sessions leaves them in parallel. -/
theorem Parallel.run (hg : g.Copies g' R) (h : Parallel g g' R s s') {c : Call kind}
    (hrun : c.run s = .ok () t) (hrun' : c.run s' = .ok () t')
    (hvalues : Network.AtRest g t.network → Network.DistinctValues g t.network) :
    Parallel g g' R t t' := by
  have ht : Holds g t := (run_spec hg.wellFormed .any (.any g) h.holds c fun _ _ _ _ _ _ => trivial).of_ok hrun
  have ht' : Holds g' t' :=
    (run_spec hg.wellFormed' .any (.any g') h.holds' c fun _ _ _ _ _ _ => trivial).of_ok hrun'
  have hfacts : t.fact? = t'.fact? := by rw [run_fact? hrun, run_fact? hrun', h.facts]
  obtain ⟨hweights, hconfig⟩ := run_settings hrun
  obtain ⟨hweights', hconfig'⟩ := run_settings hrun'
  refine ⟨ht, ht', hfacts, by rw [hweights, hweights', h.weights], by rw [hconfig, hconfig', h.config], ?_⟩
  intro p p' n k hrel hn hk
  have hrested : Network.AtRest g t.network → Network.AtRest g' t'.network →
      t.network.matchedAt p = t'.network.matchedAt p' := fun hrest hrest' =>
    matchedAt_of_rest hg ht ht' hfacts hrest hrest' (hvalues hrest) hrel hn hk
  have hchanging : c.changes = true → t.network.matchedAt p = t'.network.matchedAt p' := by
    intro hc
    have hnetwork := changing_network hg.wellFormed h.holds hc hrun
    have hnetwork' := changing_network hg.wellFormed' h.holds' hc hrun'
    rw [← h.config] at hnetwork'
    by_cases himmediate : s.config.propagation = .immediate
    · rw [if_pos himmediate] at hnetwork hnetwork'
      exact hrested hnetwork hnetwork'
    · rw [if_neg himmediate] at hnetwork hnetwork'
      rw [Network.matchedAt_congr hnetwork, Network.matchedAt_congr hnetwork']
      exact h.matched hrel hn hk
  cases c with
  | insert facts | update facts | retract keys => exact hchanging rfl
  | clear =>
    obtain ⟨n', hn', hop, -⟩ := hg.mirrors p p' n hrel hn
    exact (clear_matchedAt h.holds hrun hn hk).trans
      (clear_matchedAt h.holds' hrun' hn' (hop.trans hk)).symm
  | setWeight name weight =>
    rw [setWeight_matchedAt hrun, setWeight_matchedAt hrun']
    exact h.matched hrel hn hk
  | _ =>
    exact hrested ((computing_rests hg.wellFormed h.holds rfl).of_ok hrun)
      ((computing_rests hg.wellFormed' h.holds' rfl).of_ok hrun')

/-- Calls that all succeed on both sessions leave them in parallel. -/
theorem Parallel.replay (hg : g.Copies g' R) (h : Parallel g g' R s s') {calls : List (Call kind)}
    (hok : ∀ r ∈ (Call.replay calls s).1, r = .ok ()) (hok' : ∀ r ∈ (Call.replay calls s').1, r = .ok ())
    (hvalues : ∀ begun, begun <+: calls → Network.AtRest g (Call.replay begun s).2.network →
      Network.DistinctValues g (Call.replay begun s).2.network) :
    Parallel g g' R (Call.replay calls s).2 (Call.replay calls s').2 := by
  induction calls generalizing s s' with
  | nil => exact h
  | cons c rest ih =>
    unfold Call.replay at hok hok' ⊢
    cases hrun : c.run s with
    | error e t =>
      rw [hrun] at hok
      cases hok _ List.mem_cons_self
    | ok _ t =>
      cases hrun' : c.run s' with
      | error e t' =>
        rw [hrun'] at hok'
        cases hok' _ List.mem_cons_self
      | ok _ t' =>
        rw [hrun] at hok
        rw [hrun'] at hok'
        have hreplay : ∀ begun, (Call.replay (c :: begun) s).2 = (Call.replay begun t).2 := by
          intro begun
          rw [Call.replay, hrun]
        have hone := hvalues [c] (List.cons_prefix_cons.2 ⟨rfl, List.nil_prefix⟩)
        rw [hreplay] at hone
        refine ih (h.run hg hrun hrun' hone) (fun r hr => hok r (List.mem_cons_of_mem _ hr))
          (fun r hr => hok' r (List.mem_cons_of_mem _ hr)) fun begun hbegun => ?_
        rw [← hreplay]
        exact hvalues (c :: begun) (List.cons_prefix_cons.2 ⟨rfl, hbegun⟩)

/-- Constraints of one name have the same total in parallel sessions. -/
theorem Parallel.total_eq (hg : g.Copies g' R) (h : Parallel g g' R s s') (hrel : R p p')
    (hp : p ∈ g.constraints) (hp' : p' ∈ g'.constraints) :
    (s.network.ledger? p).map (·.total) = (s'.network.ledger? p').map (·.total) := by
  obtain ⟨n, c, hn, hc⟩ := hg.wellFormed.constraints p hp
  obtain ⟨n', hn', hop, -⟩ := hg.mirrors p p' n hrel hn
  obtain ⟨K, hK⟩ := h.holds.sourced.consistent
  obtain ⟨K', hK'⟩ := h.holds'.sourced.consistent
  have hweight := h.holds.weightAt_eq h.holds' hg.wellFormed hg.wellFormed' hg.mirrors
    (fun name => by rw [h.weights]) hrel hp hp'
  exact Network.total_eq_of_matchWeights hK hK' hn hn' hc (hop.trans hc) hweight (h.matched hrel hn hc)

theorem Parallel.totalOf_eq (hg : g.Copies g' R) (h : Parallel g g' R s s') (name : ConstraintId) :
    s.totalOf name = s'.totalOf name := by
  unfold totalOf
  rw [h.holds.graph, h.holds'.graph]
  rcases Blueprint.optionRel_cases (hg.names name) with ⟨hnone, hnone'⟩ | ⟨p, p', hp, hp', hrel⟩
  · rw [hnone, hnone']
    rfl
  · rw [hp, hp']
    exact h.total_eq hg hrel (hg.wellFormed.names hp).1 (hg.wellFormed'.names hp').1

theorem Parallel.score_eq (hg : g.Copies g' R) (h : Parallel g g' R s s') :
    s.network.score g = s'.network.score g' := by
  have hthere : ∀ p ∈ g.constraints, p ∈ g.constraints := fun _ hp => hp
  have hthere' : ∀ p ∈ g'.constraints, p ∈ g'.constraints := fun _ hp => hp
  have hright := (List.forall₂_and_left _ _).2 ⟨hthere', hg.constraints.flip⟩
  refine Network.score_congr (((List.forall₂_and_left _ _).2 ⟨hthere, hright.flip⟩).imp ?_)
  intro p p' hrel
  exact h.total_eq hg hrel.2.2 hrel.1 hrel.2.1

/-- A script that declares the different facts of a type twice, charges their pairs, and declares a
stream that nothing depends on. -/
def twiceDistinct : Script .simple :=
  [.forEach (.scalar .bool) false, .distinct (some ⟨0⟩), .forEach (.scalar .bool) false,
    .distinct (some ⟨2⟩), .join (some ⟨1⟩) (some ⟨3⟩) [], .concat (some ⟨1⟩) (some ⟨3⟩),
    .charge (some ⟨4⟩) "pairs" (.simple 1) .penalty none]

/-- The graph that `twiceDistinct` is built into. -/
def twiceDistinctGraph : Graph .simple := (Script.enact id twiceDistinct).blueprint.prune

/-- Calls of which the last are not propagated. -/
def twiceDistinctCalls : List (Call .simple) :=
  [.insert [.scalar (.bool true), .scalar (.bool false)], .flush,
    .setWeight ⟨defaultPackage, "pairs"⟩ (.simple 2), .retract [(Fact.scalar (.bool true)).key]]

theorem lawful_twiceDistinctGraph : twiceDistinctGraph.Lawful := by
  apply Graph.lawful_of_entries
  refine List.forall_mem_cons.2 ⟨trivial, List.forall_mem_cons.2 ⟨trivial, List.forall_mem_cons.2
    ⟨?_, List.forall_mem_cons.2 ⟨?_, fun _ h => by cases h⟩⟩⟩⟩
  · exact fun j hj => by cases hj
  · exact fun f h => by cases h

theorem twiceDistinctCalls_succeed :
    (∀ r ∈ (Call.replay twiceDistinctCalls (new twiceDistinctGraph {})).1, r.isOk = true) ∧
    (∀ r ∈ (Call.replay twiceDistinctCalls (new twiceDistinct.plain {})).1, r.isOk = true) ∧
    ∀ begun ∈ twiceDistinctCalls.inits, ∀ e ∈ twiceDistinctGraph.nodes.entries,
      e.2.operator.isDistinct = true →
      ∀ r ∈ (Call.replay begun (new twiceDistinctGraph {})).2.network.inputs e.2.parents .only,
      ∀ a ∈ r, a.isScalar = true := by
  decide +kernel

/-- Functions that are not used. -/
def idleFunctions : Functions where
  predicate _ _ := .ok false
  property _ _ := .error .sessionPoisoned
  pairTest _ _ _ := .ok false
  groupKey _ _ := .error .sessionPoisoned
  mapper _ _ := .ok []
  items _ _ := .ok []
  collector _ := .count 0

/-- Both sessions charge the pair that is left. -/
theorem twiceDistinctCalls_score :
    Action.attains calculateScore (Call.replay twiceDistinctCalls (new twiceDistinctGraph {})).2
        (fun score t => score == .simple (-2) && decide (∀ e ∈ twiceDistinctGraph.nodes.entries,
          e.2.operator.isDistinct = true → ∀ r ∈ t.network.inputs e.2.parents .only, ∀ a ∈ r,
            a.isScalar = true)) = true ∧
      Action.answers calculateScore (Call.replay twiceDistinctCalls (new twiceDistinct.plain {})).2
        (· == .simple (-2)) = true := by
  decide +kernel

end Session

end ConstraintStreams
