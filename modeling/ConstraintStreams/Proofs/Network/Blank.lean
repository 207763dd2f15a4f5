import ConstraintStreams.Proofs.Network.Rest

/-!
# Networks that were emptied

When the sources of a network at rest have no tuples, no node has any, and every memory is as that of
a node that has seen nothing. The proof goes up the layers: a node is told of what its parents show,
and a node that was told nothing shows nothing.
-/

namespace ConstraintStreams

namespace NodeMemory

variable {kind : ScoreKind}

/-- Nothing is remembered, apart from the weight in force at a constraint. -/
def Blank : NodeMemory kind → Prop
  | source => True
  | filter m => m = {}
  | join m => m = {}
  | semijoin m => m = {}
  | group m => m = {}
  | map m => m = {}
  | flatten m => m = {}
  | distinct m => m = {}
  | concat m => m = {}
  | constraint l => l.entries = ∅ ∧ l.total = .zero

variable {m : NodeMemory kind} {op : Operator kind} {v : View}
  {out : TupleId → Option (Facts × Sources)}

theorem Blank.passed (h : m.Blank) : m.passed = [] := by
  cases m with
  | filter m => exact congrArg FilterMemory.passed h
  | _ => rfl

/-- A node that was told nothing, and has nothing to settle, remembers nothing and has no outputs. -/
theorem Valid.blank (h : m.Valid op v out) (hv : ∀ side input, v.told side input = none)
    (hclean : m.hasDirty = false) :
    m.Blank ∧ (op.ownsTuples = true → ¬ op.IsSource → ∀ o, out o = none) := by
  cases op with
  | source => cases m <;> first | exact h.elim | exact ⟨trivial, fun _ hs => (hs ⟨_, _, _, rfl⟩).elim⟩
  | filter predicate =>
    cases m <;> try exact h.elim
    next m =>
    obtain ⟨passed⟩ := m
    obtain rfl : passed = [] := FilterMemory.Valid.blank h hv
    exact ⟨rfl, fun ho => by cases ho⟩
  | join joiners =>
    cases m <;> try exact h.elim
    next m =>
    obtain ⟨left, right⟩ := m
    obtain ⟨hleft, hright, hout⟩ := JoinMemory.Valid.blank h hv
    cases hleft
    cases hright
    exact ⟨rfl, fun _ _ => hout⟩
  | semijoin expected joiners =>
    cases m <;> try exact h.elim
    next m =>
    have hdirty : m.dirty = [] := by simpa [hasDirty, SemijoinMemory.hasDirty] using hclean
    exact (SemijoinMemory.Valid.blank h hv hdirty).imp_right fun hout _ _ => hout
  | group key collector =>
    cases m <;> try exact h.elim
    next m =>
    have hdirty : m.dirty = [] := by simpa [hasDirty, GroupMemory.hasDirty] using hclean
    exact (GroupMemory.Valid.blank h hv hdirty).imp_right fun hout _ _ => hout
  | map mapper =>
    cases m <;> try exact h.elim
    next m =>
    obtain ⟨outputs⟩ := m
    obtain ⟨hlabel, hout⟩ := Mirror.blank h hv
    obtain rfl : outputs = ∅ := Table.eq_empty hlabel
    exact ⟨rfl, fun _ _ => hout⟩
  | flatten items =>
    cases m <;> try exact h.elim
    exact (FlattenMemory.Valid.blank h hv).imp_right fun hout _ _ => hout
  | distinct =>
    cases m <;> try exact h.elim
    exact (DistinctMemory.Valid.blank h hv).imp_right fun hout _ _ => hout
  | concat =>
    cases m <;> try exact h.elim
    next m =>
    obtain ⟨outputs⟩ := m
    obtain ⟨hlabel, hout⟩ := Mirror.blank h hv
    obtain rfl : outputs = ∅ := Table.eq_empty hlabel
    exact ⟨rfl, fun _ _ => hout⟩
  | constraint c =>
    cases m <;> try exact h.elim
    exact ⟨Ledger.Valid.blank h hv, fun ho => by cases ho⟩

end NodeMemory

namespace Network

variable {kind : ScoreKind} {g : Graph kind} {K : Knowledge} {net : Network kind} {p : NodeId}
  {n : Node kind}

/-- No tuple is left, nothing waits, and nothing is remembered. -/
structure Blank (net : Network kind) : Prop where
  tuples : net.tupleCount = 0
  pending : net.agenda.pending = 0
  memories : ∀ {p m}, net.memories.get? p = some m → m.Blank

/-- A node whose parents show nothing was told nothing. -/
theorem Consistent.told_none (hg : g.WellFormed) (h : Consistent g K net)
    (hparents : ∀ q nq, g.nodes.get? q = some nq → g.layerOf q < g.layerOf p → ∀ u, ¬ net.Shows q u)
    (side : Side) (u : TupleId) : K.told ⟨p, side⟩ u = none := by
  cases htold : K.told ⟨p, side⟩ u with
  | none => rfl
  | some facts =>
    obtain ⟨t, -, hcarries, -⟩ := h.coherent.feeds htold
    obtain ⟨q, hq⟩ := hg.carries_leads hcarries
    obtain ⟨nq, hnq, -⟩ := id hq
    have hshows : net.Shows q u := (h.inStep hq).held.1 (by simp [htold])
    exact absurd hshows (hparents q nq hnq (hg.layerOf_lt hq) u)

/-- A tuple is at a node of the graph that owns tuples. -/
theorem Consistent.node_of_tuple (h : Consistent g K net) {u : TupleId} {t : Tuple}
    (ht : net.agenda.find? u = some t) :
    ∃ n, g.nodes.get? t.node = some n ∧ n.operator.ownsTuples = true := by
  obtain ⟨queue, hq⟩ := h.coherent.sound.registered ht
  exact (h.coherent.registered t.node).1 (by rw [hq]; rfl)

/-- In a network at rest whose sources have no tuples, no node shows any, and none remembers
anything. -/
theorem Consistent.blank_at (hg : g.WellFormed) (h : Consistent g K net) (hrest : AtRest g net)
    (hsources : ∀ {p n}, g.nodes.get? p = some n → n.operator.IsSource →
      ∀ u, net.agenda.openAt p u = none) (hn : g.nodes.get? p = some n) :
    (∀ u, ¬ net.Shows p u) ∧ ∃ m, net.memories.get? p = some m ∧ m.Blank := by
  induction hl : g.layerOf p using Nat.strong_induction_on generalizing p n with
  | _ layer ih =>
    subst hl
    have hparents : ∀ q nq, g.nodes.get? q = some nq → g.layerOf q < g.layerOf p →
        ∀ u, ¬ net.Shows q u := fun q nq hnq hq => (ih _ hq hnq rfl).1
    obtain ⟨m, -, hm, -, hvalid, -⟩ := h.coherent.memory hn
    have hclean : m.hasDirty = false := by
      cases ho : n.operator.ownsTuples with
      | true => exact (hrest.calm hn ho).refreshed m hm
      | false => exact hasDirty_of_leaf hvalid ho
    obtain ⟨hblank, hout⟩ := hvalid.blank (h.told_none hg hparents) hclean
    refine ⟨?_, m, hm, hblank⟩
    rintro u (⟨t, ht, rfl, -⟩ | hpassed)
    · obtain ⟨n', hn', ho⟩ := h.node_of_tuple ht
      cases hn.symm.trans hn'
      have hopen : net.agenda.openAt t.node u = some (t.facts, t.sources) :=
        Agenda.openAt_eq_some_iff.2 ⟨t, ht, rfl, by rw [hrest.settled ht]; rfl, rfl, rfl⟩
      have hnone : net.agenda.openAt t.node u = none := by
        by_cases hs : n.operator.IsSource
        · exact hsources hn hs u
        · exact hout ho hs u
      rw [hnone] at hopen
      cases hopen
    · simp [passedAt, hm, hblank.passed] at hpassed

/-- A network at rest whose sources have no tuples is blank. -/
theorem Consistent.blank (hg : g.WellFormed) (h : Consistent g K net) (hrest : AtRest g net)
    (hhoused : Housed g net) (hsources : ∀ {p n}, g.nodes.get? p = some n → n.operator.IsSource →
      ∀ u, net.agenda.openAt p u = none) : Blank net where
  tuples := by
    have hnone : ∀ u, net.agenda.tuples.live.get? u = none := by
      intro u
      cases ht : net.agenda.find? u with
      | none => exact ht
      | some t =>
        obtain ⟨n, hn, -⟩ := h.node_of_tuple ht
        refine absurd (.inl ⟨t, ht, rfl, ?_⟩) ((h.blank_at hg hrest hsources hn).1 u)
        rw [hrest.settled ht]
        rfl
    show net.agenda.tuples.live.size = 0
    rw [Table.eq_empty hnone]
    rfl
  pending := (h.settled hrest hhoused).pending
  memories := by
    intro p m hm
    obtain ⟨n, hn⟩ := hhoused p m hm
    obtain ⟨-, m', hm', hblank⟩ := h.blank_at hg hrest hsources hn
    cases hm.symm.trans hm'
    exact hblank

end Network

end ConstraintStreams
