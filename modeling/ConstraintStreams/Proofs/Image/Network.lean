import ConstraintStreams.Proofs.Image.Groups
import ConstraintStreams.Proofs.Image.Pairs
import ConstraintStreams.Proofs.Network.Rest

/-!
# Images along a network

In a network at rest, every node has the rows that its operator makes of the rows of its parents.
Layer by layer this determines the rows of all nodes from those of the sources, and so the totals of
the constraints. `Graph.Embeds` compares networks on different graphs, where nodes of one graph do the
same as nodes of the other.
-/

namespace ConstraintStreams

variable {kind : ScoreKind}

theorem Operator.of_constraint? {op : Operator kind} {c : Constraint kind}
    (h : op.constraint? = some c) : op = .constraint c := by
  cases op <;> cases h
  rfl

/-- The operator shows every different thing once. -/
def Operator.isDistinct : Operator kind → Bool
  | .distinct => true
  | _ => false

/-- The functions of a graph see the data of facts only. -/
def Graph.Lawful (g : Graph kind) : Prop :=
  ∀ p n, g.nodes.get? p = some n → n.operator.Lawful

theorem Graph.lawful_of_entries {g : Graph kind} (h : ∀ e ∈ g.nodes.entries, e.2.operator.Lawful) :
    g.Lawful := by
  intro p n hn
  exact h _ (Table.get?_eq_some_iff.1 hn)

namespace Network

variable {g : Graph kind} {K : Knowledge} {net : Network kind} {p q : NodeId} {n : Node kind}
  {u : TupleId} {facts : Facts}

/-! ## Rows of nodes -/

/-- The rows that a node shows to its children. -/
def rows (net : Network kind) (p : NodeId) : Multiset Facts :=
  Multiset.ofList (net.agenda.tuples.live.entries.filterMap fun e =>
    if (e.2.node = p ∧ e.2.stage.isSeen = true) ∨ e.1 ∈ net.passedAt p then some (Facts.data e.2.facts)
    else none)

/-- The rows that a node gets from each side: those of its parent there. -/
def inputs (net : Network kind) (parents : List NodeId) (side : Side) : Multiset Facts :=
  match side, parents with
  | .only, [q] | .left, [q, _] | .right, [_, q] => net.rows q
  | _, _ => 0

/-- The facts of the tuples that a node shows. -/
def shownAt (net : Network kind) (p : NodeId) (u : TupleId) : Option Facts :=
  (net.agenda.find? u).bind fun t =>
    if (t.node = p ∧ t.stage.isSeen = true) ∨ u ∈ net.passedAt p then some t.facts else none

theorem shownAt_eq_some_iff : net.shownAt p u = some facts ↔
    ∃ t, net.agenda.find? u = some t ∧ t.facts = facts ∧ net.Shows p u := by
  unfold shownAt Shows
  cases ht : net.agenda.find? u with
  | none => simp
  | some t => simp [and_comm]

theorem rows_shownAt (net : Network kind) (p : NodeId) : Rows (net.shownAt p) (net.rows p) := by
  have htable := Rows.of_table net.agenda.tuples.live fun u t =>
    if (t.node = p ∧ t.stage.isSeen = true) ∨ u ∈ net.passedAt p then some t.facts else none
  simp only [apply_ite (Option.map Facts.data), Option.map_some, Option.map_none] at htable
  exact htable

theorem inputs_of_side {parents : List NodeId} (hlen : parents.length ≤ 2) {side : Side}
    (h : (q, side) ∈ Blueprint.sides parents) : net.inputs parents side = net.rows q := by
  rcases parents with _ | ⟨a, _ | ⟨b, _ | ⟨c, rest⟩⟩⟩
  · cases h
  · obtain ⟨rfl, rfl⟩ := Prod.mk.inj (List.mem_singleton.1 h)
    rfl
  · rcases List.mem_pair.1 h with h | h <;> obtain ⟨rfl, rfl⟩ := Prod.mk.inj h <;> rfl
  · simp at hlen

theorem inputs_of_none {parents : List NodeId} {side : Side}
    (h : ∀ q, (q, side) ∉ Blueprint.sides parents) : net.inputs parents side = 0 := by
  rcases parents with _ | ⟨a, _ | ⟨b, _ | ⟨c, rest⟩⟩⟩ <;> cases side <;> try rfl
  · exact absurd List.mem_cons_self (h a)
  · exact absurd List.mem_cons_self (h a)
  · exact absurd (List.mem_cons_of_mem _ List.mem_cons_self) (h b)

/-! ## What a node is told -/

/-- At rest, what was told of a tuple are its facts, and that is still current. -/
theorem Consistent.told_spec (hg : g.WellFormed) (h : Consistent g K net) (hrest : AtRest g net)
    {l : Link} (htold : K.told l u = some facts) :
    K.synced l u ∧ ∃ t, net.agenda.find? u = some t ∧ t.facts = facts ∧ t.stage = .settled := by
  obtain ⟨t, ht, hcarries, hfacts⟩ := h.coherent.feeds htold
  obtain ⟨q, hq⟩ := hg.carries_leads hcarries
  have hsettled := hrest.settled ht
  have hsynced := (h.inStep hq).synced (by simp [htold]) ⟨t, ht, hsettled⟩
  exact ⟨hsynced, t, ht, hfacts hsynced hsettled, hsettled⟩

/-- At rest, what a node was told is current. -/
theorem Consistent.current (hg : g.WellFormed) (h : Consistent g K net) (hrest : AtRest g net)
    (p : NodeId) : (K.view { net } p).Current := by
  intro side u hheld
  obtain ⟨facts, htold⟩ := Option.isSome_iff_exists.1 hheld
  obtain ⟨hsynced, t, ht, -, hsettled⟩ := h.told_spec hg hrest htold
  exact ⟨hsynced, t, ht, hsettled⟩

/-- At rest, what was told over a link is what the node before it shows. -/
theorem Consistent.told_eq (hg : g.WellFormed) (h : Consistent g K net) (hrest : AtRest g net)
    {l : Link} (hl : g.Leads q l) : K.told l = net.shownAt q := by
  funext u
  have hheld := (h.inStep (u := u) hl).held
  cases htold : K.told l u with
  | some facts =>
    obtain ⟨-, t, ht, hfacts, -⟩ := h.told_spec hg hrest htold
    exact (shownAt_eq_some_iff.2 ⟨t, ht, hfacts, hheld.1 (by simp [htold])⟩).symm
  | none =>
    rw [eq_comm, Option.eq_none_iff_forall_ne_some]
    intro facts hshown
    obtain ⟨-, -, -, hshows⟩ := shownAt_eq_some_iff.1 hshown
    have hsome := hheld.2 hshows
    rw [htold] at hsome
    cases hsome

/-- A node was told nothing from a side on which it has no parent. -/
theorem Consistent.told_side (hg : g.WellFormed) (h : Consistent g K net)
    (hn : g.nodes.get? p = some n) {side : Side}
    (hside : ∀ q, (q, side) ∉ Blueprint.sides n.parents) : K.told ⟨p, side⟩ = fun _ => none := by
  funext u
  rw [Option.eq_none_iff_forall_ne_some]
  intro facts htold
  obtain ⟨t, -, hcarries, -⟩ := h.coherent.feeds htold
  obtain ⟨q, hq⟩ := hg.carries_leads hcarries
  obtain ⟨c, hc, hmem, -⟩ := hg.target hq
  cases hn.symm.trans hc
  exact hside q hmem

/-- At rest, a node was told the rows of its parents. -/
theorem Consistent.told_rows (hg : g.WellFormed) (h : Consistent g K net) (hrest : AtRest g net)
    (hn : g.nodes.get? p = some n) (side : Side) :
    Rows (K.told ⟨p, side⟩) (net.inputs n.parents side) := by
  by_cases hside : ∃ q, (q, side) ∈ Blueprint.sides n.parents
  · obtain ⟨q, hq⟩ := hside
    obtain ⟨nq, hnq, -⟩ := hg.linked.below hn (Blueprint.mem_parents_of_sides hq)
    have hleads : g.Leads q ⟨p, side⟩ := ⟨nq, hnq, (hg.linked.links hnq).2 ⟨n, hn, hq⟩⟩
    rw [h.told_eq hg hrest hleads, inputs_of_side (hg.parents_le hn) hq]
    exact net.rows_shownAt q
  · have hnone := not_exists.1 hside
    rw [h.told_side hg hn hnone, inputs_of_none hnone]
    exact .none

/-! ## What a node shows -/

/-- At rest, a node that owns tuples shows those that are open. -/
theorem Consistent.shownAt_owner (h : Consistent g K net) (hrest : AtRest g net)
    (hn : g.nodes.get? p = some n) (ho : n.operator.ownsTuples = true) :
    net.shownAt p = shownFacts (net.agenda.openAt p) := by
  funext u
  refine Option.ext fun facts => ?_
  rw [shownAt_eq_some_iff, show net.Shows p u ↔ _ from h.coherent.shows_owner hn ho, shownFacts,
    Option.map_eq_some_iff]
  constructor
  · rintro ⟨t, ht, rfl, t', ht', hnode, -⟩
    cases ht.symm.trans ht'
    exact ⟨(t.facts, t.sources), Agenda.openAt_eq_some_iff.2
      ⟨t, ht, hnode, by rw [hrest.settled ht]; rfl, rfl, rfl⟩, rfl⟩
  · rintro ⟨⟨facts, sources⟩, hopen, rfl⟩
    obtain ⟨t, ht, hnode, -, hfacts, -⟩ := Agenda.openAt_eq_some_iff.1 hopen
    exact ⟨t, ht, hfacts, t, ht, hnode, by rw [hrest.settled ht]; rfl⟩

/-- At rest, a filter shows what it was told about and lets pass. -/
theorem Consistent.shownAt_filter (hg : g.WellFormed) (h : Consistent g K net) (hrest : AtRest g net)
    {f : Handle (Facts → Except Error Bool)} (hn : g.nodes.get? p = some n)
    (hop : n.operator = .filter f) :
    net.shownAt p = fun u => if u ∈ net.passedAt p then K.told ⟨p, .only⟩ u else none := by
  funext u
  refine Option.ext fun facts => ?_
  rw [shownAt_eq_some_iff, show net.Shows p u ↔ _ from h.coherent.shows_filter hn ⟨f, hop⟩]
  by_cases hpassed : u ∈ net.passedAt p
  · rw [if_pos hpassed]
    obtain ⟨told, htold⟩ := Option.isSome_iff_exists.1 (h.coherent.of_passed hn hpassed).2
    obtain ⟨-, t, ht, rfl, -⟩ := h.told_spec hg hrest htold
    rw [htold]
    simp [ht, hpassed]
  · simp [hpassed]

/-- A constraint shows nothing. -/
theorem Consistent.shownAt_constraint (h : Consistent g K net) {c : Constraint kind}
    (hn : g.nodes.get? p = some n) (hop : n.operator = .constraint c) :
    net.shownAt p = fun _ => none := by
  funext u
  rw [Option.eq_none_iff_forall_ne_some]
  intro facts hshown
  obtain ⟨-, -, -, ⟨t, ht, hnode, -⟩ | hpassed⟩ := shownAt_eq_some_iff.1 hshown
  · obtain ⟨n', hn', ho⟩ := h.coherent.owner ht
    cases hn.symm.trans (hnode ▸ hn')
    rw [hop] at ho
    cases ho
  · obtain ⟨⟨f, hf⟩, -⟩ := h.coherent.of_passed hn hpassed
    rw [hop] at hf
    cases hf

/-- In a network at rest, the rows of a node are the image of those of its parents. -/
theorem Consistent.image (hg : g.WellFormed) (h : Consistent g K net) (hrest : AtRest g net)
    (hn : g.nodes.get? p = some n) (hlaw : n.operator.Lawful) (howns : n.operator.constraint? = none)
    (hsource : ¬ n.operator.IsSource)
    (hvalues : n.operator = .distinct → ∀ r ∈ net.inputs n.parents .only, Facts.AreValues r) :
    n.operator.Image (net.inputs n.parents) (net.rows p) := by
  classical
  have hrows : ∀ rows, Rows (net.shownAt p) rows → net.rows p = rows :=
    fun _ => (net.rows_shownAt p).unique
  obtain ⟨m, -, hm, -, hvalid, -⟩ := h.coherent.memory hn
  have hv := h.current hg hrest p
  have htold := h.told_rows hg hrest hn
  have hclean : n.operator.ownsTuples = true → m.hasDirty = false :=
    fun ho => (hrest.calm hn ho).refreshed m hm
  have hout := h.shownAt_owner hrest hn
  have hfilter := fun f hop => h.shownAt_filter (f := f) hg hrest hn hop
  have hshaped := hg.linked.shaped hn
  obtain ⟨op, parents, children, arity, layer⟩ := n
  dsimp only at hvalid hlaw howns hsource hvalues hclean hout hfilter hshaped ⊢
  cases op with
  | source type includeUnassigned visibility => exact (hsource ⟨_, _, _, rfl⟩).elim
  | constraint => cases howns
  | filter predicate =>
    cases m <;> try exact hvalid.elim
    next m =>
    rw [hfilter predicate rfl, passedAt, hm] at hrows
    exact hrows _ (FilterMemory.Valid.rows hvalid hv hlaw (htold .only))
  | join joiners =>
    cases m <;> try exact hvalid.elim
    exact hrows _ (hout rfl ▸ JoinMemory.Valid.rows hvalid hv hlaw (htold .left) (htold .right))
  | semijoin expected joiners =>
    cases m <;> try exact hvalid.elim
    next m =>
    have hdirty : m.dirty = [] := by
      simpa [NodeMemory.hasDirty, SemijoinMemory.hasDirty] using hclean rfl
    rw [NodeMemory.Valid, hdirty] at hvalid
    exact hrows _ (hout rfl ▸ SemijoinMemory.Valid.rows hvalid hv hlaw (htold .left) (htold .right))
  | group key collector =>
    cases m <;> try exact hvalid.elim
    next m =>
    have hdirty : m.dirty = [] := by
      simpa [NodeMemory.hasDirty, GroupMemory.hasDirty] using hclean rfl
    rw [NodeMemory.Valid, hdirty] at hvalid
    have hkey : ∀ f, key.map (·.run) = some f → ReadsData Fact.data f ∧
        ∀ facts k, f facts = .ok k → k.IsValue := by
      rintro f hf
      obtain ⟨handle, hhandle, rfl⟩ := Option.map_eq_some_iff.1 hf
      exact hlaw.1 handle hhandle
    obtain ⟨rows, hshown, himage⟩ := GroupMemory.Valid.rows hvalid hkey hlaw.2 (htold .only)
    rw [hrows _ (hout rfl ▸ hshown)]
    exact himage
  | map mapper =>
    cases m <;> try exact hvalid.elim
    exact hrows _ (hout rfl ▸ MapMemory.Valid.rows hvalid hv hlaw (htold .only))
  | flatten items =>
    cases m <;> try exact hvalid.elim
    exact hrows _ (hout rfl ▸ FlattenMemory.Valid.rows hvalid hv hlaw (htold .only))
  | distinct =>
    cases m <;> try exact hvalid.elim
    exact hrows _ (hout rfl ▸ DistinctMemory.Valid.rows hvalid hv (htold .only) (hvalues rfl))
  | concat =>
    cases m <;> try exact hvalid.elim
    have hsides : ∀ u, ¬ (K.told ⟨p, .only⟩ u).isSome = true := by
      obtain ⟨left, right, rfl⟩ := List.length_eq_two.1 hshaped
      rw [h.told_side hg hn (by simp [Blueprint.sides])]
      simp
    exact hrows _ (hout rfl ▸ ConcatMemory.Valid.rows hvalid hv hsides (htold .left) (htold .right))

end Network

/-! ## Totals -/

/-- What the matches of a constraint come to before a weight is in force. -/
def Ledger.matchWeights (l : Ledger kind) : Multiset Int64 :=
  Multiset.ofList (l.entries.values.map (·.matchWeight))

/-- What a match counts at a level, with a weight in force. -/
def Constraint.counts (c : Constraint kind) (weight : Score kind) (i : Fin kind.depth)
    (matchWeight : Int64) : Int :=
  match c.charge weight matchWeight with
  | .ok s => s.level i
  | .error _ => 0

theorem Constraint.matchWeight_data {c : Constraint kind} (hlaw : (Operator.constraint c).Lawful)
    (facts : Facts) : c.matchWeight (Facts.data facts) = c.matchWeight facts := by
  unfold matchWeight
  split
  · next weigher hweigher => exact (hlaw weigher hweigher).eq facts
  · rfl

/-- A total follows from the weight in force and from what the matches come to without it. -/
theorem Ledger.Valid.total_level {c : Constraint kind} {l : Ledger kind} {v : View} (h : l.Valid c v)
    (i : Fin kind.depth) : l.total.level i = (l.matchWeights.map (c.counts l.weight i)).sum := by
  rw [h.total_eq i, Ledger.exactSum, Ledger.matchWeights, Multiset.map_coe, Multiset.sum_coe,
    List.map_map]
  congr 1
  refine List.map_congr_left fun entry hentry => ?_
  obtain ⟨⟨input, _⟩, hmem, rfl⟩ := List.mem_map.1 hentry
  simp [Constraint.counts, h.charged (Table.get?_eq_some_iff.2 hmem)]

/-- At rest, the matches come to what the rows that the constraint gets come to. -/
theorem Ledger.Valid.matchWeights_rows {c : Constraint kind} {l : Ledger kind} {v : View}
    {ins : Multiset Facts} (h : l.Valid c v) (hv : v.Current) (hlaw : (Operator.constraint c).Lawful)
    (hins : Rows (v.told .only) ins) : l.matchWeights.map .ok = ins.map c.matchWeight := by
  have hweighed : ∀ e ∈ l.entries.entries, ∃ facts, v.told .only e.1 = some facts ∧
      c.matchWeight (Facts.data facts) = .ok e.2.matchWeight := by
    intro e he
    have hget := Table.get?_eq_some_iff.2 he
    obtain ⟨facts, htold⟩ := Option.isSome_iff_exists.1 ((h.held e.1).1 (by simp [hget]))
    exact ⟨facts, htold, (Constraint.matchWeight_data hlaw facts).trans
      (h.weighed hget (hv.known.2 htold))⟩
  rw [hins.unique (.of_lists h.held), Ledger.matchWeights, Multiset.map_coe, Multiset.map_coe,
    Table.values, List.map_map, List.map_map, List.map_filterMap]
  clear hins
  generalize l.entries.entries = entries at hweighed
  congr 1
  induction entries with
  | nil => rfl
  | cons e rest ih =>
    obtain ⟨facts, htold, hweight⟩ := hweighed e List.mem_cons_self
    rw [List.map_cons, ih fun e he => hweighed e (List.mem_cons_of_mem _ he), List.filterMap_cons, htold]
    simp only [Option.map_some, hweight, Function.comp_apply]

/-! ## Networks that do the same -/

/-- The nodes of a graph that are related to nodes of another do the same, on related parents. -/
def Graph.Mirrors (g g' : Graph kind) (R : NodeId → NodeId → Prop) : Prop :=
  ∀ p p' n, R p p' → g.nodes.get? p = some n → ∃ n', g'.nodes.get? p' = some n' ∧
    n'.operator = n.operator ∧ List.Forall₂ R n.parents n'.parents

/-- Every graph mirrors itself. -/
theorem Graph.mirrors_refl (g : Graph kind) : g.Mirrors g Eq := by
  rintro p _ n rfl hn
  exact ⟨n, hn, rfl, List.forall₂_eq_eq_eq ▸ rfl⟩

namespace Network

variable {g g' : Graph kind} {R : NodeId → NodeId → Prop} {K K' : Knowledge} {net net' : Network kind}
  {p p' : NodeId} {n n' : Node kind}

/-- Only values come to the distinct nodes. -/
def DistinctValues (g : Graph kind) (net : Network kind) : Prop :=
  ∀ p n, g.nodes.get? p = some n → n.operator = .distinct →
    ∀ r ∈ net.inputs n.parents .only, Facts.AreValues r

theorem inputs_congr {parents parents' : List NodeId}
    (h : List.Forall₂ (fun q q' => net.rows q = net'.rows q') parents parents') :
    net.inputs parents = net'.inputs parents' := by
  funext side
  cases h with
  | nil => cases side <;> rfl
  | cons hfirst h =>
    cases h with
    | nil => cases side <;> first | rfl | exact hfirst
    | cons hsecond h =>
      cases h with
      | nil => cases side <;> first | rfl | exact hfirst | exact hsecond
      | cons => cases side <;> rfl

/-- The score is computed from the totals of the constraints. -/
theorem score_congr (h : List.Forall₂ (fun p p' =>
      (net.ledger? p).map (·.total) = (net'.ledger? p').map (·.total)) g.constraints g'.constraints) :
    net.score g = net'.score g' := by
  have htotals : (net.ledgers g).map (·.total) = (net'.ledgers g').map (·.total) := by
    unfold ledgers
    rw [List.map_filterMap, List.map_filterMap]
    generalize g.constraints = constraints, g'.constraints = constraints' at h
    induction h with
    | nil => rfl
    | cons heq _ ih => simp only [List.filterMap_cons, heq, ih]
  have hscore : ∀ (net : Network kind) (g : Graph kind), net.score g =
      ((net.ledgers g).map (·.total)).foldlM
        (fun sum total => (sum.checkedAdd total).elim (.error (.overflow .sumOfTotals)) .ok) .zero := by
    intro net g
    rw [List.foldlM_map, score]
    congr 1
    funext sum ledger
    cases sum.checkedAdd ledger.total <;> rfl
  rw [hscore, hscore, htotals]

/-- A total is known once the weight in force and what the matches come to are. -/
theorem total_eq_of_matchWeights {c : Constraint kind} (h : Consistent g K net)
    (h' : Consistent g' K' net') (hn : g.nodes.get? p = some n) (hn' : g'.nodes.get? p' = some n')
    (hc : n.operator = .constraint c) (hc' : n'.operator = .constraint c)
    (hweight : net.weightAt p = net'.weightAt p')
    (hmatched : (net.ledger? p).map (·.matchWeights) = (net'.ledger? p').map (·.matchWeights)) :
    (net.ledger? p).map (·.total) = (net'.ledger? p').map (·.total) := by
  obtain ⟨l, hm, hl, hvalid⟩ := h.ledger hn hc
  obtain ⟨l', hm', hl', hvalid'⟩ := h'.ledger hn' hc'
  have hsame : l.weight = l'.weight := by
    rw [weightAt, weightAt, hm, hm'] at hweight
    exact Option.some.inj hweight
  rw [hl, hl', Option.map_some, Option.map_some, Option.some.injEq] at hmatched ⊢
  refine Score.ext fun i => ?_
  rw [hvalid.total_level, hvalid'.total_level, hmatched, hsame]

/-- Two networks at rest, on graphs whose related nodes do the same, whose related sources show the
same rows. -/
structure Comparable (g g' : Graph kind) (R : NodeId → NodeId → Prop) (net net' : Network kind) :
    Prop where
  wellFormed : g.WellFormed
  wellFormed' : g'.WellFormed
  mirrors : g.Mirrors g' R
  lawful : g.Lawful
  consistent : ∃ K, Consistent g K net
  consistent' : ∃ K, Consistent g' K net'
  atRest : AtRest g net
  atRest' : AtRest g' net'
  values : DistinctValues g net
  sources : ∀ {p p' n}, R p p' → g.nodes.get? p = some n → n.operator.IsSource →
    net.rows p = net'.rows p'

namespace Comparable

variable (h : Comparable g g' R net net')

include h

/-- Where the parents show the same rows, nodes get the same rows. -/
theorem inputs_eq_of_rows (hrel : List.Forall₂ R n.parents n'.parents)
    (hn : g.nodes.get? p = some n) (hrows : ∀ {q q' nq}, R q q' → g.nodes.get? q = some nq →
      g.layerOf q < g.layerOf p → net.rows q = net'.rows q') :
    net.inputs n.parents = net'.inputs n'.parents := by
  have hlower : ∀ q ∈ n.parents, ∃ nq, g.nodes.get? q = some nq ∧ g.layerOf q < g.layerOf p := by
    intro q hq
    obtain ⟨nq, hnq, hlt⟩ := h.wellFormed.linked.below hn hq
    exact ⟨nq, hnq, by rwa [Graph.layerOf_eq hnq, Graph.layerOf_eq hn]⟩
  refine inputs_congr (((List.forall₂_and_left _ _).2 ⟨hlower, hrel⟩).imp ?_)
  rintro q q' ⟨⟨nq, hnq, hlt⟩, hrel⟩
  exact hrows hrel hnq hlt

/-- Nodes that do the same show the same rows. -/
theorem rows_eq (hrel : R p p') (hn : g.nodes.get? p = some n) : net.rows p = net'.rows p' := by
  induction hl : g.layerOf p using Nat.strong_induction_on generalizing p p' n with
  | _ layer ih =>
    subst hl
    obtain ⟨K, hK⟩ := h.consistent
    obtain ⟨K', hK'⟩ := h.consistent'
    obtain ⟨n', hn', hop, hparents⟩ := h.mirrors p p' n hrel hn
    have hlaw := h.lawful p n hn
    have hvalues := h.values p n hn
    by_cases hsource : n.operator.IsSource
    · exact h.sources hrel hn hsource
    have hinputs : net.inputs n.parents = net'.inputs n'.parents :=
      h.inputs_eq_of_rows hparents hn fun hrel hnq hlt => ih _ hlt hrel hnq rfl
    cases hc : n.operator.constraint? with
    | some c =>
      have hconstraint := Operator.of_constraint? hc
      have hnone := net.rows_shownAt p
      have hnone' := net'.rows_shownAt p'
      rw [hK.shownAt_constraint hn hconstraint] at hnone
      rw [hK'.shownAt_constraint hn' (hop.trans hconstraint)] at hnone'
      exact hnone.unique hnone'
    | none =>
      have himage := hK.image h.wellFormed h.atRest hn hlaw hc hsource hvalues
      have himage' := hK'.image h.wellFormed' h.atRest' hn' (hop ▸ hlaw) (hop ▸ hc) (hop ▸ hsource)
        fun hd => hinputs ▸ hvalues (hop ▸ hd)
      rw [← hinputs, hop] at himage'
      refine Operator.Image.unique hlaw hc ?_ himage himage'
      exact fun type includeUnassigned visibility he => hsource ⟨type, includeUnassigned, visibility, he⟩

/-- Constraints that do the same have matches that come to the same. -/
theorem matchWeights_eq {c : Constraint kind} (hrel : R p p') (hn : g.nodes.get? p = some n)
    (hc : n.operator = .constraint c) :
    (net.ledger? p).map (·.matchWeights) = (net'.ledger? p').map (·.matchWeights) := by
  obtain ⟨K, hK⟩ := h.consistent
  obtain ⟨K', hK'⟩ := h.consistent'
  obtain ⟨n', hn', hop, hparents⟩ := h.mirrors p p' n hrel hn
  have hinputs : net.inputs n.parents = net'.inputs n'.parents :=
    h.inputs_eq_of_rows hparents hn fun hrel hnq _ => h.rows_eq hrel hnq
  obtain ⟨l, -, hl, hvalid⟩ := hK.ledger hn hc
  obtain ⟨l', -, hl', hvalid'⟩ := hK'.ledger hn' (hop.trans hc)
  have hlaw : (Operator.constraint c).Lawful := hc ▸ h.lawful p n hn
  have hrows := hvalid.matchWeights_rows (hK.current h.wellFormed h.atRest p) hlaw
    (hK.told_rows h.wellFormed h.atRest hn .only)
  have hrows' := hvalid'.matchWeights_rows (hK'.current h.wellFormed' h.atRest' p') hlaw
    (hK'.told_rows h.wellFormed' h.atRest' hn' .only)
  rw [← hinputs, ← hrows] at hrows'
  rw [hl, hl', Option.map_some, Option.map_some]
  exact congrArg some (Multiset.map_injective (fun _ _ => Except.ok.inj) hrows').symm

/-- Constraints that do the same, with the same weight in force, have the same total. -/
theorem total_eq {c : Constraint kind} (hrel : R p p') (hn : g.nodes.get? p = some n)
    (hc : n.operator = .constraint c) (hweight : net.weightAt p = net'.weightAt p') :
    (net.ledger? p).map (·.total) = (net'.ledger? p').map (·.total) := by
  obtain ⟨K, hK⟩ := h.consistent
  obtain ⟨K', hK'⟩ := h.consistent'
  obtain ⟨n', hn', hop, -⟩ := h.mirrors p p' n hrel hn
  exact total_eq_of_matchWeights hK hK' hn hn' hc (hop.trans hc) hweight (h.matchWeights_eq hrel hn hc)

/-- The score of networks whose constraints do the same, one by one, with the same weights in force. -/
theorem score_eq (hconstraints : List.Forall₂ (fun p p' => R p p' ∧ net.weightAt p = net'.weightAt p')
    g.constraints g'.constraints) : net.score g = net'.score g' := by
  have hthere : ∀ p ∈ g.constraints, p ∈ g.constraints := fun _ hp => hp
  refine score_congr (((List.forall₂_and_left _ _).2 ⟨hthere, hconstraints⟩).imp ?_)
  rintro p p' ⟨hp, hrel, hweight⟩
  obtain ⟨n, c, hn, hc⟩ := h.wellFormed.constraints p hp
  exact h.total_eq hrel hn hc hweight

end Comparable

end Network

end ConstraintStreams
