import ConstraintStreams.Proofs.Graph.Step

/-!
# Graphs that can be built are well formed

In a graph that can be built, every node is linked to its parents and to nothing else, on the sides
that its operator expects, and lies above them. Blueprints keep this from declaration to declaration,
and pruning keeps it because what is kept is closed under parents.
-/

namespace ConstraintStreams

/-- The graph is linked, and its constraints are where they are said to be. -/
structure Graph.WellFormed {kind : ScoreKind} (g : Graph kind) : Prop where
  linked : Linked g.nodes
  constraints : ∀ id ∈ g.constraints, ∃ n c, g.nodes.get? id = some n ∧ n.operator = .constraint c
  names : ∀ {name id}, g.names.get? name = some id → id ∈ g.constraints ∧
    ∃ n c, g.nodes.get? id = some n ∧ n.operator = .constraint c ∧ c.id = name
  named : ∀ id ∈ g.constraints, ∃ name, g.names.get? name = some id
  constraints_nodup : g.constraints.Nodup

namespace Blueprint

variable {kind : ScoreKind} {b b' : Blueprint kind} {nodes : Table NodeId (Node kind)}

/-! ## Declarations -/

/-- What holds of a blueprint from declaration to declaration. -/
structure Sound (b : Blueprint kind) : Prop where
  ordered : Ordered b.catalog.nodes
  constraints : ∀ id ∈ b.constraints,
    ∃ n c, b.catalog.nodes.get? id = some n ∧ n.operator = .constraint c
  names : ∀ {name id}, b.names.get? name = some id → id ∈ b.constraints ∧
    ∃ n c, b.catalog.nodes.get? id = some n ∧ n.operator = .constraint c ∧ c.id = name
  named : ∀ id ∈ b.constraints, ∃ name, b.names.get? name = some id
  constraints_nodup : b.constraints.Nodup

theorem Sound.blank : Sound ({} : Blueprint kind) where
  ordered :=
    { links := fun h => by simp [EmptyCollection.emptyCollection] at h
      children_nodup := fun h => by simp [EmptyCollection.emptyCollection] at h
      below := fun h => by simp [EmptyCollection.emptyCollection] at h
      shaped := fun h => by simp [EmptyCollection.emptyCollection] at h
      keys_eq := rfl
      earlier := fun h => by simp [EmptyCollection.emptyCollection] at h }
  constraints id hid := by cases hid
  names h := by simp [EmptyCollection.emptyCollection] at h
  named id hid := by cases hid
  constraints_nodup := List.nodup_nil

/-- A blueprint stays sound where its nodes do and every constraint keeps its place and its name. -/
theorem Sound.grow (h : b.Sound) (hordered : Ordered b'.catalog.nodes)
    (hgrow : ∀ {id n c}, b.catalog.nodes.get? id = some n → n.operator = .constraint c →
      ∃ n' c', b'.catalog.nodes.get? id = some n' ∧ n'.operator = .constraint c' ∧ c'.id = c.id)
    (hconstraints : b'.constraints = b.constraints) (hnames : b'.names = b.names) : b'.Sound where
  ordered := hordered
  constraints id hid := by
    obtain ⟨n, c, hn, ho⟩ := h.constraints id (hconstraints ▸ hid)
    obtain ⟨n', c', hn', ho', -⟩ := hgrow hn ho
    exact ⟨n', c', hn', ho'⟩
  names {name id} hid := by
    rw [hnames] at hid
    obtain ⟨hm, n, c, hn, ho, hc⟩ := h.names hid
    obtain ⟨n', c', hn', ho', hc'⟩ := hgrow hn ho
    exact ⟨hconstraints ▸ hm, n', c', hn', ho', hc'.trans hc⟩
  named := by rw [hconstraints, hnames]; exact h.named
  constraints_nodup := hconstraints ▸ h.constraints_nodup

/-- What is said of a blueprint does not depend on the rest of it. -/
theorem Sound.of_eq (h : b.Sound) (hcatalog : b'.catalog = b.catalog)
    (hconstraints : b'.constraints = b.constraints) (hnames : b'.names = b.names) : b'.Sound := by
  refine h.grow (hcatalog ▸ h.ordered) (fun {id n c} hn ho => ?_) hconstraints hnames
  rw [hcatalog]
  exact ⟨n, c, hn, ho, rfl⟩

theorem Fits.ordered {n : Node kind} (hn : b.Fits n) (h : b.Sound) (key : Option NodeKey) :
    Ordered (attached b.catalog key n).nodes :=
  h.ordered.attached key hn.children hn.shaped (layerAbove_spec hn.layer).2

theorem Fits.parents {n : Node kind} (hn : b.Fits n) :
    ∀ p ∈ n.parents, ∃ m, b.catalog.nodes.get? p = some m := fun p hp =>
  ((layerAbove_spec hn.layer).2 p hp).imp fun _ hm => hm.1

/-- The nodes after one was added above its parents. -/
theorem Fits.get?_new {n : Node kind} (hn : b.Fits n) (h : b.Sound) (key : Option NodeKey) :
    (attached b.catalog key n).nodes.get? b.catalog.nextId = some n :=
  get?_attached_new h.ordered hn.parents key

theorem Fits.get?_old {n m : Node kind} {p : NodeId} (hn : b.Fits n) (h : b.Sound)
    (key : Option NodeKey) (hm : b.catalog.nodes.get? p = some m) :
    (attached b.catalog key n).nodes.get? p =
      some { m with children := m.children ++ linksFrom b.catalog.nextId n.parents p } :=
  get?_attached_old h.ordered hn.parents key hm

theorem Fits.of_get? {n m : Node kind} {p : NodeId} (hn : b.Fits n) (h : b.Sound)
    {key : Option NodeKey} (hm : (attached b.catalog key n).nodes.get? p = some m) :
    (b.catalog.nextId = p ∧ m = n) ∨ ∃ m₀, b.catalog.nodes.get? p = some m₀ ∧
      m = { m₀ with children := m₀.children ++ linksFrom b.catalog.nextId n.parents p } :=
  of_get?_attached h.ordered hn.parents key hm

/-- A node may be added that fits. -/
theorem Sound.attach {n : Node kind} (h : b.Sound) (hfits : b.Fits n) (key : Option NodeKey) :
    Sound { b with catalog := attached b.catalog key n } :=
  h.grow (hfits.ordered h key) (fun {_ _ c} hm ho => ⟨_, c, hfits.get?_old h key hm, ho, rfl⟩) rfl rfl

/-- A new constraint is entered under its name. -/
theorem Sound.enter {n : Node kind} {c : Constraint kind} (h : b.Sound) (hfits : b.Fits n)
    (hop : n.operator = .constraint c) (hfree : b.names.get? c.id = none) (key : Option NodeKey) :
    Sound { b with
      catalog := attached b.catalog key n
      constraints := b.constraints ++ [b.catalog.nextId]
      names := b.names.insert c.id b.catalog.nextId } := by
  have hattached := h.attach hfits key
  have hnew := hfits.get?_new h key
  constructor
  case ordered => exact hattached.ordered
  case constraints =>
    intro id hid
    rcases List.mem_append.1 hid with hid | hid
    · exact hattached.constraints id hid
    · rw [List.mem_singleton.1 hid]
      exact ⟨n, c, hnew, hop⟩
  case names =>
    intro name id hid
    rw [Table.get?_insert] at hid
    split at hid
    · next he =>
      cases hid
      exact ⟨List.mem_append_right _ (List.mem_singleton_self _), n, c, hnew, hop, he⟩
    · obtain ⟨hm, hrest⟩ := hattached.names hid
      exact ⟨List.mem_append_left _ hm, hrest⟩
  case named =>
    intro id hid
    rcases List.mem_append.1 hid with hid | hid
    · obtain ⟨name, hname⟩ := h.named id hid
      have hne : c.id ≠ name := by
        intro he
        rw [← he, hfree] at hname
        cases hname
      exact ⟨name, by rw [Table.get?_insert, if_neg hne, hname]⟩
    · rw [List.mem_singleton.1 hid]
      exact ⟨c.id, by rw [Table.get?_insert, if_pos rfl]⟩
  case constraints_nodup =>
    refine List.nodup_append.2 ⟨h.constraints_nodup, List.nodup_singleton _, ?_⟩
    intro a ha b' hb' he
    rw [he, List.mem_singleton.1 hb'] at ha
    obtain ⟨m, -, hm, -⟩ := h.constraints _ ha
    rw [h.ordered.get?_nextId] at hm
    cases hm

/-- A constraint may be told whom to blame. -/
theorem Sound.reblame (h : b.Sound) (id : NodeId) (indicter : Facts → Except Error (List Fact))
    (hnodes : b'.catalog.nodes = b.catalog.nodes.modify id (reblame indicter))
    (hconstraints : b'.constraints = b.constraints) (hnames : b'.names = b.names) : b'.Sound := by
  refine h.grow ?_ (fun {x n c} hn ho => ?_) hconstraints hnames
  · rw [hnodes]
    refine h.ordered.modify id _ fun n => ?_
    rcases reblame_spec indicter n with ⟨he, -⟩ | ⟨c, ho, he⟩
    · rw [he]
      exact ⟨rfl, rfl, rfl, rfl⟩
    · rw [he, ho]
      exact ⟨rfl, rfl, rfl, rfl⟩
  · rw [hnodes, get?_modify_of_some hn]
    split
    · rcases reblame_spec indicter n with ⟨-, he⟩ | ⟨c', ho', he⟩
      · rw [ho] at he
        cases he
      · rw [ho] at ho'
        cases ho'
        exact ⟨_, _, rfl, congrArg Node.operator he, rfl⟩
    · exact ⟨n, c, rfl, ho, rfl⟩

/-- Every declaration keeps the blueprint sound. -/
theorem Sound.run (h : b.Sound) (d : Declaration kind) : (d.run b).Sound := by
  cases d.step b with
  | stays hcatalog hconstraints hnames _ => exact h.of_eq hcatalog hconstraints hnames
  | gates type predicate _ hcatalog hconstraints hnames _ =>
    exact h.of_eq hcatalog hconstraints hnames
  | adds key n hfits _ hcatalog hconstraints hnames _ =>
    exact (h.attach hfits key).of_eq hcatalog hconstraints hnames
  | enters key n c hfits hop hfree hcatalog hconstraints hnames _ =>
    exact (h.enter hfits hop hfree key).of_eq hcatalog hconstraints hnames
  | blames id indicter hnodes hconstraints hnames _ =>
    exact h.reblame id indicter hnodes hconstraints hnames

theorem Sound.declare (h : b.Sound) (ds : List (Declaration kind)) : (declare ds b).Sound := by
  unfold Blueprint.declare
  induction ds generalizing b with
  | nil => exact h
  | cons d rest ih => exact ih (h.run d)

/-! ## Pruning -/

theorem subset_ancestors (entries : List (NodeId × Node kind)) (leaves : List NodeId) {x : NodeId}
    (hx : x ∈ leaves) : x ∈ ancestors entries leaves := by
  induction entries with
  | nil => exact hx
  | cons e rest ih =>
    show x ∈ if e.1 ∈ ancestors rest leaves then _ else _
    split
    · exact List.mem_append_right _ ih
    · exact ih

/-- What is kept is closed under parents: nodes stand behind their parents, and the last node is
looked at first. -/
theorem ancestors_closed {entries : List (NodeId × Node kind)} {leaves : List NodeId}
    (hsorted : entries.Pairwise fun a b => a.1.ordinal < b.1.ordinal)
    (hearlier : ∀ e ∈ entries, ∀ p ∈ e.2.parents, p.ordinal < e.1.ordinal) {e : NodeId × Node kind}
    (he : e ∈ entries) (hkept : e.1 ∈ ancestors entries leaves) {p : NodeId} (hp : p ∈ e.2.parents) :
    p ∈ ancestors entries leaves := by
  induction entries with
  | nil => cases he
  | cons d rest ih =>
    obtain ⟨hd, hsorted'⟩ := List.pairwise_cons.1 hsorted
    have hstep : ancestors (d :: rest) leaves = if d.1 ∈ ancestors rest leaves then
        d.2.parents ++ ancestors rest leaves else ancestors rest leaves := rfl
    have hup : p ∈ ancestors rest leaves → p ∈ ancestors (d :: rest) leaves := by
      intro h
      rw [hstep]
      split
      · exact List.mem_append_right _ h
      · exact h
    rcases List.mem_cons.1 he with rfl | he
    · -- A node is no parent of itself.
      have hrest : e.1 ∈ ancestors rest leaves := by
        rw [hstep] at hkept
        split at hkept
        · next h => exact h
        · exact hkept
      rw [hstep, if_pos hrest]
      exact List.mem_append_left _ hp
    · have hrest : e.1 ∈ ancestors rest leaves := by
        rw [hstep] at hkept
        split at hkept
        · rcases List.mem_append.1 hkept with h | h
          · have h₁ := hearlier d List.mem_cons_self _ h
            have h₂ := hd e he
            omega
          · exact h
        · exact hkept
      exact hup (ih hsorted' (fun e he => hearlier e (List.mem_cons_of_mem d he)) he hrest)

theorem Ordered.sorted (h : Ordered nodes) :
    nodes.entries.Pairwise fun a b => a.1.ordinal < b.1.ordinal := by
  have hkeys : nodes.keys.Pairwise fun a b => a.ordinal < b.ordinal := by
    rw [h.keys_eq, List.pairwise_map]
    exact List.pairwise_lt_range.imp fun hlt => Nat.succ_lt_succ hlt
  exact (List.pairwise_map (f := Prod.fst)).1 hkeys

/-- The nodes that a blueprint's constraints depend on, themselves included. -/
def kept (b : Blueprint kind) : List NodeId := ancestors b.catalog.nodes.entries b.constraints

/-- A node that is kept loses the links to those that are not. -/
theorem get?_prune (b : Blueprint kind) (x : NodeId) :
    b.prune.nodes.get? x = if x ∈ b.kept then (b.catalog.nodes.get? x).map fun n =>
      { n with children := n.children.filter fun link => link.node ∈ b.kept } else none := by
  show ((b.catalog.nodes.filter fun id _ => id ∈ b.kept).mapValues _).get? x = _
  rw [Table.get?_mapValues, Table.get?_filter]
  split
  · next hx =>
    cases b.catalog.nodes.get? x with
    | none => rfl
    | some n =>
      rw [Option.filter_some, decide_eq_true hx]
      rfl
  · next hx =>
    cases b.catalog.nodes.get? x with
    | none => rfl
    | some n =>
      rw [Option.filter_some, decide_eq_false hx]
      rfl

theorem of_get?_prune {x : NodeId} {n : Node kind} (h : b.prune.nodes.get? x = some n) :
    x ∈ b.kept ∧ ∃ n₀, b.catalog.nodes.get? x = some n₀ ∧
      n = { n₀ with children := n₀.children.filter fun link => link.node ∈ b.kept } := by
  rw [get?_prune] at h
  split at h
  · next hx =>
    obtain ⟨n₀, hn₀, rfl⟩ := Option.map_eq_some_iff.1 h
    exact ⟨hx, n₀, hn₀, rfl⟩
  · cases h

theorem get?_prune_of_kept {x : NodeId} {n : Node kind} (hx : x ∈ b.kept)
    (hn : b.catalog.nodes.get? x = some n) : b.prune.nodes.get? x =
      some { n with children := n.children.filter fun link => link.node ∈ b.kept } := by
  rw [get?_prune, if_pos hx, hn]
  rfl

theorem Sound.kept_closed (h : b.Sound) {x p : NodeId} {n : Node kind} (hx : x ∈ b.kept)
    (hn : b.catalog.nodes.get? x = some n) (hp : p ∈ n.parents) : p ∈ b.kept := by
  refine ancestors_closed h.ordered.sorted (fun e he p hp => ?_) (Table.get?_eq_some_iff.1 hn) hx hp
  exact h.ordered.earlier (Table.get?_eq_some_iff.2 he) hp

theorem Sound.prune (h : b.Sound) : b.prune.WellFormed := by
  have hleaf : ∀ {x}, x ∈ b.constraints → x ∈ b.kept := fun hx => subset_ancestors _ _ hx
  refine ⟨⟨?_, ?_, ?_, ?_⟩, ?_, ?_, h.named, h.constraints_nodup⟩
  · intro p n l hn
    obtain ⟨hp, n₀, hn₀, rfl⟩ := of_get?_prune hn
    simp only [List.mem_filter, decide_eq_true_eq, h.ordered.links hn₀]
    constructor
    · rintro ⟨⟨c, hc, hside⟩, hl⟩
      exact ⟨_, get?_prune_of_kept hl hc, hside⟩
    · rintro ⟨c, hc, hside⟩
      obtain ⟨hl, c₀, hc₀, rfl⟩ := of_get?_prune hc
      exact ⟨⟨c₀, hc₀, hside⟩, hl⟩
  · intro p n hn
    obtain ⟨hp, n₀, hn₀, rfl⟩ := of_get?_prune hn
    exact (h.ordered.children_nodup hn₀).filter _
  · intro id n p hn hp
    obtain ⟨hid, n₀, hn₀, rfl⟩ := of_get?_prune hn
    obtain ⟨m, hm, hlt⟩ := h.ordered.below hn₀ hp
    exact ⟨_, get?_prune_of_kept (h.kept_closed hid hn₀ hp) hm, hlt⟩
  · intro id n hn
    obtain ⟨hid, n₀, hn₀, rfl⟩ := of_get?_prune hn
    have hold := h.ordered.shaped hn₀
    exact hold
  · intro id hid
    obtain ⟨n, c, hn, ho⟩ := h.constraints id hid
    exact ⟨_, c, get?_prune_of_kept (hleaf hid) hn, ho⟩
  · intro name id hid
    obtain ⟨hm, n, c, hn, ho, hc⟩ := h.names hid
    exact ⟨hm, _, c, get?_prune_of_kept (hleaf hm) hn, ho, hc⟩

/-- Where building succeeds, its outcome is what pruning leaves. -/
theorem eq_prune_of_build {g : Graph kind} (h : b.build.1 = .ok g) : g = b.prune := by
  unfold build at h
  split at h
  · cases h
  · split at h
    · cases h
    · cases h
      rfl

end Blueprint

/-- A constraint has one name. -/
theorem Graph.WellFormed.name_unique {kind : ScoreKind} {g : Graph kind} (hg : g.WellFormed)
    {name other : ConstraintId} {p : NodeId} (h : g.names.get? name = some p)
    (h' : g.names.get? other = some p) : name = other := by
  obtain ⟨-, n, c, hn, hc, hid⟩ := hg.names h
  obtain ⟨-, n', c', hn', hc', hid'⟩ := hg.names h'
  rw [hn] at hn'
  cases hn'
  rw [hc] at hc'
  cases hc'
  exact hid.symm.trans hid'

/-- Every graph that can be built is well formed. -/
theorem Graph.Built.wellFormed {kind : ScoreKind} {g : Graph kind} (h : g.Built) : g.WellFormed := by
  obtain ⟨ds, hds⟩ := h
  rw [Blueprint.eq_prune_of_build hds]
  exact (Blueprint.Sound.blank.declare ds).prune

end ConstraintStreams