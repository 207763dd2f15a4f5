import ConstraintStreams.Proofs.Graph.WellFormed

/-!
# Routes of tuples

The tuples of a node travel over the links to its children, and through filters beyond them. Every
link is on one route only, which leads to ever higher layers; the nodes that own tuples are drained in
the order of their layers.
-/

namespace ConstraintStreams

namespace Graph

variable {kind : ScoreKind} {g : Graph kind}

/-- The layer of a node. -/
def layerOf (g : Graph kind) (id : NodeId) : Nat := ((g.nodes.get? id).map (·.layer)).getD 0

/-- A link leads away from a node. -/
def Leads (g : Graph kind) (p : NodeId) (l : Link) : Prop :=
  ∃ n, g.nodes.get? p = some n ∧ l ∈ n.children

/-- The node of a link is a filter and has another link for a child. -/
def Passes (g : Graph kind) (l c : Link) : Prop :=
  ∃ n f, g.nodes.get? l.node = some n ∧ n.operator = .filter f ∧ c ∈ n.children

/-- A tuple that travels over a link may come to travel over another, through filters alone. -/
inductive Below (g : Graph kind) (l : Link) : Link → Prop
  | refl : Below g l l
  | step {m c : Link} : Below g l m → Passes g m c → Below g l c

/-- The tuples of a node travel over a link. -/
def Carries (g : Graph kind) (p : NodeId) (l : Link) : Prop :=
  ∃ n c, g.nodes.get? p = some n ∧ n.operator.ownsTuples = true ∧ c ∈ n.children ∧ Below g c l

variable {p q : NodeId} {n : Node kind} {l m c d r : Link}

theorem layerOf_eq (hn : g.nodes.get? p = some n) : g.layerOf p = n.layer := by
  simp [layerOf, hn]

theorem Passes.leads (h : Passes g l c) : g.Leads l.node c := by
  obtain ⟨n, -, hn, -, hc⟩ := h
  exact ⟨n, hn, hc⟩

theorem Below.trans (h : Below g l m) (h' : Below g m c) : Below g l c := by
  induction h' with
  | refl => exact h
  | step _ hp ih => exact ih.step hp

/-- Something is below a link if it is that link or below what the link passes on to. -/
theorem below_iff : Below g l m ↔ l = m ∨ ∃ c, Passes g l c ∧ Below g c m := by
  constructor
  · intro h
    induction h with
    | refl => exact .inl rfl
    | step h hp ih =>
      rcases ih with rfl | ⟨c, hc, hb⟩
      · exact .inr ⟨_, hp, .refl⟩
      · exact .inr ⟨c, hc, hb.step hp⟩
  · rintro (rfl | ⟨c, hc, hb⟩)
    · exact .refl
    · exact (Below.refl.step hc).trans hb

theorem node_eq_ok : g.node p = .ok n ↔ g.nodes.get? p = some n := by
  unfold node
  cases g.nodes.get? p <;> simp

theorem constraintAt_eq_ok {c : Constraint kind} : g.constraintAt p = .ok c ↔
    ∃ n, g.nodes.get? p = some n ∧ n.operator = .constraint c := by
  have hconstraint (op : Operator kind) : op.constraint? = some c ↔ op = .constraint c := by
    cases op <;> simp [Operator.constraint?]
  unfold constraintAt
  simp only [except_bind_eq_ok, node_eq_ok]
  refine exists_congr fun n => and_congr_right fun _ => ?_
  rw [← hconstraint]
  cases n.operator.constraint? <;> simp [pure, Except.pure, throw, throwThe, MonadExceptOf.throw]

namespace WellFormed

theorem inputs_le (op : Operator kind) : op.inputs ≤ 2 := by
  unfold Operator.inputs
  split <;> omega

theorem parents_le (hg : g.WellFormed) (hn : g.nodes.get? p = some n) : n.parents.length ≤ 2 :=
  Nat.le_trans (Nat.le_of_eq (hg.linked.shaped hn)) (inputs_le _)

/-- A link leads up, to a node that has the other for a parent. -/
theorem target (hg : g.WellFormed) (h : g.Leads p l) : ∃ c, g.nodes.get? l.node = some c ∧
    (p, l.side) ∈ Blueprint.sides c.parents ∧ g.layerOf p < c.layer := by
  obtain ⟨n, hn, hl⟩ := h
  obtain ⟨c, hc, hside⟩ := (hg.linked.links hn).1 hl
  obtain ⟨m, hm, hlt⟩ := hg.linked.below hc (Blueprint.mem_parents_of_sides hside)
  rw [hn] at hm
  cases hm
  exact ⟨c, hc, hside, by rw [layerOf_eq hn]; exact hlt⟩

theorem layerOf_lt (hg : g.WellFormed) (h : g.Leads p l) : g.layerOf p < g.layerOf l.node := by
  obtain ⟨c, hc, -, hlt⟩ := hg.target h
  rwa [layerOf_eq hc]

/-- Every link comes from one node. -/
theorem leads_unique (hg : g.WellFormed) (hp : g.Leads p l) (hq : g.Leads q l) : p = q := by
  obtain ⟨c, hc, hside, -⟩ := hg.target hp
  obtain ⟨d, hd, hside', -⟩ := hg.target hq
  rw [hc] at hd
  cases hd
  exact Blueprint.parent_unique (hg.parents_le hc) hside hside'

/-- A filter is reached over one link. -/
theorem filter_link_unique (hg : g.WellFormed) (hp : g.Leads p l) (hq : g.Leads q m)
    (hnode : l.node = m.node) (hn : g.nodes.get? l.node = some n) (hlen : n.operator.inputs = 1) :
    l = m := by
  obtain ⟨c, hc, hside, -⟩ := hg.target hp
  obtain ⟨d, hd, hside', -⟩ := hg.target hq
  rw [hn] at hc
  cases hc
  rw [← hnode, hn] at hd
  cases hd
  have hl := Blueprint.side_eq_only hside ((hg.linked.shaped hn).trans hlen)
  have hm := Blueprint.side_eq_only hside' ((hg.linked.shaped hn).trans hlen)
  cases l
  cases m
  simp_all

theorem below_leads (hg : g.WellFormed) (hl : ∃ p, g.Leads p l) (h : Below g l m) :
    (∃ p, g.Leads p m) ∧ g.layerOf l.node ≤ g.layerOf m.node := by
  induction h with
  | refl => exact ⟨hl, Nat.le_refl _⟩
  | step _ hp ih => exact ⟨⟨_, hp.leads⟩, Nat.le_trans ih.2 (Nat.le_of_lt (hg.layerOf_lt hp.leads))⟩

/-- What a link passes on to is above it. -/
theorem beyond_lt (hg : g.WellFormed) (hc : Passes g l c) (h : Below g c m) :
    g.layerOf l.node < g.layerOf m.node :=
  Nat.lt_of_lt_of_le (hg.layerOf_lt hc.leads) (hg.below_leads ⟨_, hc.leads⟩ h).2

/-- Two routes that meet are one. -/
theorem below_comparable (hg : g.WellFormed) (hl : ∃ p, g.Leads p l) (hm : ∃ p, g.Leads p m)
    (h : Below g l c) (h' : Below g m c) : Below g l m ∨ Below g m l := by
  induction h with
  | refl => exact .inr h'
  | @step d c hb hp ih =>
    cases h' with
    | refl => exact .inl (hb.step hp)
    | @step e _ hb' hp' =>
      have hnode : d.node = e.node := hg.leads_unique hp.leads hp'.leads
      obtain ⟨n, f, hn, hf, -⟩ := hp
      obtain ⟨⟨q, hq⟩, -⟩ := hg.below_leads hl hb
      obtain ⟨⟨q', hq'⟩, -⟩ := hg.below_leads hm hb'
      have hde : d = e := hg.filter_link_unique hq hq' hnode hn (by rw [hf]; rfl)
      exact ih (hde ▸ hb')

/-- Different children of a node are on different routes. -/
theorem siblings_disjoint (hg : g.WellFormed) (hl : g.Leads p l) (hm : g.Leads p m)
    (h : Below g l c) (h' : Below g m c) : l = m := by
  have hno : ∀ {l m}, g.Leads p l → g.Leads p m → Below g l m → l = m := by
    intro l m hl hm hb
    rcases below_iff.1 hb with he | ⟨d, hd, hb'⟩
    · exact he
    · -- A link beyond comes from above the node.
      cases hb' with
      | refl =>
        have hnode := hg.leads_unique hm hd.leads
        have := hg.layerOf_lt hl
        rw [hnode] at this
        exact absurd this (Nat.lt_irrefl _)
      | @step e _ hb'' hp =>
        have hnode := hg.leads_unique hm hp.leads
        have h₁ := hg.layerOf_lt hl
        have h₂ := hg.beyond_lt hd hb''
        rw [hnode] at h₁
        omega
  rcases hg.below_comparable ⟨p, hl⟩ ⟨p, hm⟩ h h' with hb | hb
  · exact hno hl hm hb
  · exact (hno hm hl hb).symm

/-- A link that tuples travel over leads away from some node. -/
theorem carries_leads (hg : g.WellFormed) (h : g.Carries p l) : ∃ q, g.Leads q l := by
  obtain ⟨n, c, hn, -, hc, hb⟩ := h
  exact (hg.below_leads ⟨p, n, hn, hc⟩ hb).1

/-- No link leads to a node without parents. -/
theorem unlinked (hg : g.WellFormed) (hn : g.nodes.get? q = some n) (hinputs : n.operator.inputs = 0)
    (h : g.Leads p l) : l.node ≠ q := by
  rintro rfl
  obtain ⟨c, hc, hside, -⟩ := hg.target h
  rw [hn] at hc
  cases hc
  have hpos := List.length_pos_of_mem (Blueprint.mem_parents_of_sides hside)
  rw [hg.linked.shaped hn, hinputs] at hpos
  exact absurd hpos (Nat.lt_irrefl 0)

theorem carries_lt (hg : g.WellFormed) (h : g.Carries p l) : g.layerOf p < g.layerOf l.node := by
  obtain ⟨n, c, hn, -, hc, hb⟩ := h
  exact Nat.lt_of_lt_of_le (hg.layerOf_lt ⟨n, hn, hc⟩) (hg.below_leads ⟨p, n, hn, hc⟩ hb).2

theorem carries_ne (hg : g.WellFormed) (h : g.Carries p l) : p ≠ l.node := by
  intro he
  have := hg.carries_lt h
  rw [he] at this
  exact Nat.lt_irrefl _ this

end WellFormed

/-! ## The order of draining -/

theorem lt_heightOf {nodes : List (Node kind)} (h : n ∈ nodes) : n.layer < heightOf nodes := by
  have hmono : ∀ (nodes : List (Node kind)) (b : Nat),
      b ≤ nodes.foldl (fun h n => max h (n.layer + 1)) b := by
    intro nodes
    induction nodes with
    | nil => exact fun b => Nat.le_refl b
    | cons n rest ih => exact fun b => Nat.le_trans (Nat.le_max_left _ _) (ih _)
  have hmem : ∀ (nodes : List (Node kind)) (b : Nat), n ∈ nodes →
      n.layer < nodes.foldl (fun h n => max h (n.layer + 1)) b := by
    intro nodes
    induction nodes with
    | nil => exact fun b h => by cases h
    | cons m rest ih =>
      intro b h
      rcases List.mem_cons.1 h with rfl | h
      · exact Nat.lt_of_lt_of_le (Nat.lt_succ_self _)
          (Nat.le_trans (Nat.le_max_right _ _) (hmono rest _))
      · exact ih _ h
  exact hmem nodes 0 h

theorem mem_values (hn : g.nodes.get? p = some n) : n ∈ g.nodes.values :=
  List.mem_map.2 ⟨(p, n), Table.get?_eq_some_iff.1 hn, rfl⟩

theorem layer_lt_height (hn : g.nodes.get? p = some n) : n.layer < g.height :=
  lt_heightOf (mem_values hn)

theorem mem_layer {i : Nat} : p ∈ g.layer i ↔
    ∃ n, g.nodes.get? p = some n ∧ n.operator.ownsTuples = true ∧ n.layer = i := by
  unfold layer
  rw [List.mem_filterMap]
  constructor
  · rintro ⟨⟨id, n⟩, hm, he⟩
    dsimp only at he
    split at he
    · next hn =>
      cases he
      exact ⟨n, Table.get?_eq_some_iff.2 hm, hn.1, hn.2⟩
    · cases he
  · rintro ⟨n, hn, ho, hl⟩
    exact ⟨(p, n), Table.get?_eq_some_iff.1 hn, if_pos ⟨ho, hl⟩⟩

/-- Exactly the nodes that own tuples are drained. -/
theorem mem_layers : p ∈ g.layers.flatten ↔
    ∃ n, g.nodes.get? p = some n ∧ n.operator.ownsTuples = true := by
  unfold layers
  simp only [List.mem_flatten, List.mem_map, List.mem_range, exists_exists_and_eq_and, mem_layer]
  constructor
  · rintro ⟨i, -, n, hn, ho, -⟩
    exact ⟨n, hn, ho⟩
  · rintro ⟨n, hn, ho⟩
    exact ⟨n.layer, lt_heightOf (List.mem_filter.2 ⟨mem_values hn, ho⟩), n, hn, ho, rfl⟩

/-- No node is twice in a layer. -/
theorem layer_nodup (g : Graph kind) (i : Nat) : (g.layer i).Nodup := by
  refine g.nodes.keys_nodup.sublist (Table.filterMap_sublist_keys fun e id he => ?_)
  dsimp only at he
  split at he
  · exact (Option.some.inj he).symm
  · cases he

/-- Nodes are drained layer by layer, each once. -/
theorem layers_sorted (g : Graph kind) :
    g.layers.flatten.Pairwise fun p q => g.layerOf p ≤ g.layerOf q ∧ p ≠ q := by
  unfold layers
  rw [List.pairwise_flatten]
  have hlayer : ∀ {i p}, p ∈ g.layer i → g.layerOf p = i := by
    intro i p hp
    obtain ⟨n, hn, -, hl⟩ := mem_layer.1 hp
    rw [layerOf_eq hn, hl]
  constructor
  · intro ps hps
    obtain ⟨i, -, rfl⟩ := List.mem_map.1 hps
    refine (g.layer_nodup i).imp_of_mem fun {p q} hp hq hne => ⟨?_, hne⟩
    exact Nat.le_of_eq ((hlayer hp).trans (hlayer hq).symm)
  · rw [List.pairwise_map]
    refine List.pairwise_lt_range.imp fun {i j} hij p hp q hq => ?_
    rw [hlayer hp, hlayer hq]
    refine ⟨Nat.le_of_lt hij, ?_⟩
    rintro rfl
    exact absurd ((hlayer hp).symm.trans (hlayer hq)) (Nat.ne_of_lt hij)

/-! ## Sources -/

theorem mem_sourcesOf {type : FactType} : p ∈ g.sourcesOf type ↔ ∃ n includeUnassigned visibility,
    g.nodes.get? p = some n ∧ n.operator = .source type includeUnassigned visibility := by
  unfold sourcesOf
  simp only [List.mem_filterMap, Table.get?_eq_some_iff]
  constructor
  · rintro ⟨⟨id, n⟩, hm, he⟩
    split at he
    · next t includeUnassigned visibility hop =>
      split at he
      · next ht =>
        cases he
        exact ⟨n, includeUnassigned, visibility, hm, ht ▸ hop⟩
      · cases he
    · cases he
  · rintro ⟨n, includeUnassigned, visibility, hm, hop⟩
    exact ⟨(p, n), hm, by simp [hop]⟩

theorem sourcesOf_nodup (g : Graph kind) (type : FactType) : (g.sourcesOf type).Nodup := by
  refine g.nodes.keys_nodup.sublist (Table.filterMap_sublist_keys fun e id he => ?_)
  dsimp only at he
  split at he
  · split at he
    · exact (Option.some.inj he).symm
    · cases he
  · cases he

end Graph

end ConstraintStreams
