import ConstraintStreams.Proofs.Graph.Routes

/-!
# The layout of built graphs

`Graph.LaidOut` says what a graph looks like that some declarations were built into: which of the
declared nodes it has, in which layers these are, how they are linked and drained, and where the
constraints are. Declarations keep `Blueprint.Arranged`, which knows the layer of every node; pruning
keeps what is said of the nodes that it keeps.
-/

namespace ConstraintStreams

namespace Blueprint

variable {kind : ScoreKind} {b b' : Blueprint kind} {nodes nodes' : Table NodeId (Node kind)}
  {d : Declaration kind} {parents : List NodeId}

/-! ## Layers -/

/-- The layers of parents are all that counts for the layer above them. -/
theorem layerAbove_congr (h : ∀ p ∈ parents,
      (nodes'.get? p).map Node.layer = (nodes.get? p).map Node.layer) (bound : Nat) :
    layerAbove nodes' parents bound = layerAbove nodes parents bound := by
  induction parents generalizing bound with
  | nil => rfl
  | cons p rest ih =>
    have hp := h p List.mem_cons_self
    have hrest := ih fun q hq => h q (List.mem_cons_of_mem _ hq)
    unfold layerAbove
    cases hn : nodes.get? p with
    | none =>
      rw [hn] at hp
      rw [Option.map_eq_none_iff.1 hp]
    | some n =>
      rw [hn] at hp
      obtain ⟨n', hn', hlayer⟩ := Option.map_eq_some_iff.1 hp
      rw [hn']
      dsimp only
      rw [hlayer, hrest]

/-- Where every node is in the layer above its parents, and every constraint is listed. -/
structure Arranged (b : Blueprint kind) : Prop where
  sound : b.Sound
  layered : ∀ {id n}, b.catalog.nodes.get? id = some n →
    layerAbove b.catalog.nodes n.parents 0 = .ok n.layer
  listed : ∀ {id n c}, b.catalog.nodes.get? id = some n → n.operator = .constraint c →
    id ∈ b.constraints

theorem Arranged.blank : Arranged ({} : Blueprint kind) where
  sound := .blank
  layered h := by simp [EmptyCollection.emptyCollection] at h
  listed h := by simp [EmptyCollection.emptyCollection] at h

/-- The layer of a node is not changed by nodes that are added. -/
theorem Arranged.layer_attached (h : b.Arranged) {n : Node kind} (hn : b.Fits n)
    (key : Option NodeKey) {p : NodeId} {m : Node kind} (hm : b.catalog.nodes.get? p = some m) :
    ((attached b.catalog key n).nodes.get? p).map Node.layer = some m.layer := by
  rw [hn.get?_old h.sound key hm]
  rfl

/-- Every node of the longer catalog is in the layer above its parents. -/
theorem Arranged.layered_attached (h : b.Arranged) {n : Node kind} (hn : b.Fits n)
    (key : Option NodeKey) {id : NodeId} {m : Node kind}
    (hm : (attached b.catalog key n).nodes.get? id = some m) :
    layerAbove (attached b.catalog key n).nodes m.parents 0 = .ok m.layer := by
  have hbelow := (layerAbove_spec hn.layer).2
  rcases hn.of_get? h.sound hm with ⟨rfl, rfl⟩ | ⟨m₀, hm₀, rfl⟩
  · rw [← hn.layer]
    refine layerAbove_congr (fun p hp => ?_) 0
    obtain ⟨k, hk, -⟩ := hbelow p hp
    rw [h.layer_attached hn key hk, hk]
    rfl
  · have hold : layerAbove b.catalog.nodes m₀.parents 0 = .ok m₀.layer := h.layered hm₀
    refine Eq.trans (layerAbove_congr (fun p hp => ?_) 0) hold
    obtain ⟨k, hk, -⟩ := h.sound.ordered.below hm₀ hp
    rw [h.layer_attached hn key hk, hk]
    rfl

/-- What is listed after a node was added. -/
theorem Arranged.listed_attached (h : b.Arranged) {n : Node kind} (hn : b.Fits n)
    (key : Option NodeKey) {id : NodeId} {m : Node kind} {c : Constraint kind}
    (hm : (attached b.catalog key n).nodes.get? id = some m) (hc : m.operator = .constraint c) :
    b.catalog.nextId = id ∧ m = n ∨ id ∈ b.constraints := by
  rcases hn.of_get? h.sound hm with hnew | ⟨m₀, hm₀, rfl⟩
  · exact .inl hnew
  · exact .inr (h.listed hm₀ hc)

/-- Every step keeps the blueprint arranged. -/
theorem Arranged.step (h : b.Arranged) (hsound : b'.Sound) (hstep : Step d b b') : b'.Arranged := by
  refine ⟨hsound, fun {id n} hn => ?_, fun {id n c} hn hc => ?_⟩
  · cases hstep with
    | stays hcatalog => rw [hcatalog] at hn ⊢; exact h.layered hn
    | gates _ _ _ hcatalog => rw [hcatalog] at hn ⊢; exact h.layered hn
    | adds key m hfits _ hcatalog => rw [hcatalog] at hn ⊢; exact h.layered_attached hfits key hn
    | enters key m _ hfits _ _ hcatalog =>
      rw [hcatalog] at hn ⊢
      exact h.layered_attached hfits key hn
    | blames q indicter hnodes =>
      rw [hnodes] at hn ⊢
      have hlayer : ∀ n : Node kind, (reblame indicter n).layer = n.layer := by
        intro n
        rcases reblame_spec indicter n with ⟨he, -⟩ | ⟨c, -, he⟩ <;> rw [he]
      have hsame : ∀ p, ((b.catalog.nodes.modify q (reblame indicter)).get? p).map Node.layer
          = (b.catalog.nodes.get? p).map Node.layer := by
        intro p
        rw [Table.get?_modify]
        split
        · next he =>
          subst he
          rw [Option.map_map]
          exact congrArg (Option.map · _) (funext hlayer)
        · rfl
      obtain ⟨m, hm, rfl | rfl⟩ := of_get?_modify hn
      · rw [layerAbove_congr fun p _ => hsame p]
        exact h.layered hm
      · rw [layerAbove_congr fun p _ => hsame p, reblame_parents, hlayer]
        exact h.layered hm
  · cases hstep with
    | stays hcatalog hconstraints => rw [hcatalog] at hn; rw [hconstraints]; exact h.listed hn hc
    | gates _ _ _ hcatalog hconstraints => rw [hcatalog] at hn; rw [hconstraints]; exact h.listed hn hc
    | adds key m hfits hop hcatalog hconstraints =>
      rw [hcatalog] at hn
      rw [hconstraints]
      rcases h.listed_attached hfits key hn hc with ⟨-, rfl⟩ | hid
      · rw [hc] at hop
        cases hop
      · exact hid
    | enters key m _ hfits _ _ hcatalog hconstraints =>
      rw [hcatalog] at hn
      rw [hconstraints, List.mem_append, List.mem_singleton]
      rcases h.listed_attached hfits key hn hc with ⟨rfl, -⟩ | hid
      · exact .inr rfl
      · exact .inl hid
    | blames q indicter hnodes hconstraints =>
      rw [hnodes] at hn
      rw [hconstraints]
      obtain ⟨m, hm, rfl | rfl⟩ := of_get?_modify hn
      · exact h.listed hm hc
      · rcases reblame_spec indicter m with ⟨he, -⟩ | ⟨k, hk, -⟩
        · exact h.listed hm (he ▸ hc)
        · exact h.listed hm hk

theorem Arranged.run (h : b.Arranged) (d : Declaration kind) : (d.run b).Arranged :=
  h.step (h.sound.run d) (d.step b)

theorem Arranged.declare (h : b.Arranged) (ds : List (Declaration kind)) : (declare ds b).Arranged := by
  unfold Blueprint.declare
  induction ds generalizing b with
  | nil => exact h
  | cons d rest ih => exact ih (h.run d)

/-! ## Constraints stay where they are -/

/-- The constraint of a name, and all of it but whom it blames. -/
def Charges (b : Blueprint kind) (c : Constraint kind) (id : NodeId) : Prop :=
  b.names.get? c.id = some id ∧ ∃ n indicter, b.catalog.nodes.get? id = some n ∧
    n.operator = .constraint { c with indicter }

theorem Charges.attached {c : Constraint kind} {id : NodeId} (h : b.Charges c id) (hb : b.Sound)
    {n : Node kind} (hn : b.Fits n) (key : Option NodeKey) :
    ∃ m indicter, (Blueprint.attached b.catalog key n).nodes.get? id = some m ∧
      m.operator = .constraint { c with indicter } := by
  obtain ⟨-, m, indicter, hm, hop⟩ := h
  exact ⟨_, indicter, hn.get?_old hb key hm, hop⟩

/-- No step takes a constraint away from its node, or another in its place. -/
theorem Charges.step {c : Constraint kind} {id : NodeId} (h : b.Charges c id) (hb : b.Sound)
    (hstep : Step d b b') : b'.Charges c id := by
  have hname := h.1
  cases hstep with
  | stays hcatalog _ hnames => exact ⟨hnames ▸ hname, hcatalog ▸ h.2⟩
  | gates _ _ _ hcatalog _ hnames => exact ⟨hnames ▸ hname, hcatalog ▸ h.2⟩
  | adds key m hfits _ hcatalog _ hnames =>
    exact ⟨hnames ▸ hname, hcatalog ▸ h.attached hb hfits key⟩
  | enters key m k hfits _ hfree hcatalog _ hnames =>
    refine ⟨?_, hcatalog ▸ h.attached hb hfits key⟩
    have hne : k.id ≠ c.id := by
      intro he
      rw [he, hname] at hfree
      cases hfree
    rw [hnames, Table.get?_insert, if_neg hne]
    exact hname
  | blames q indicter hnodes _ hnames =>
    obtain ⟨-, m, old, hm, hop⟩ := h
    refine ⟨hnames ▸ hname, ?_⟩
    rw [hnodes, get?_modify_of_some hm]
    by_cases hq : q = id
    · rw [if_pos hq]
      refine ⟨_, some indicter, rfl, ?_⟩
      unfold reblame
      rw [hop]
    · rw [if_neg hq]
      exact ⟨m, old, rfl, hop⟩

theorem Charges.declare {c : Constraint kind} {id : NodeId} (h : b.Charges c id) (hb : b.Sound)
    (ds : List (Declaration kind)) : (Blueprint.declare ds b).Charges c id := by
  unfold Blueprint.declare
  induction ds generalizing b with
  | nil => exact h
  | cons d rest ih => exact ih (h.step hb (d.step b)) (hb.run d)

/-- A stream that was charged has got its constraint. -/
theorem charges_addConstraint (hb : b.Sound) {parent : Option NodeId} {name : String}
    {weight : Score kind} {impact : Impact} {weigher : Option (Facts → Except Error Int64)}
    {node : NodeId}
    (h : (addConstraint parent name weight impact weigher b).1 = some node) :
    (addConstraint parent name weight impact weigher b).2.Charges
      { id := ⟨b.package, name⟩, weight, impact, weigher } node := by
  obtain ⟨n, hfits, hop, -, he⟩ := addConstraint_eq_some h
  rw [he] at h ⊢
  cases h
  refine ⟨?_, n, none, hfits.get?_new hb none, hop⟩
  rw [Table.get?_insert, if_pos rfl]

/-! ## What is kept -/

/-- A node is the given one, or a parent of a node that is. -/
inductive Ancestor (nodes : Table NodeId (Node kind)) (leaf : NodeId) : NodeId → Prop
  | self : Ancestor nodes leaf leaf
  | parent {q p : NodeId} {n : Node kind} : Ancestor nodes leaf q → nodes.get? q = some n →
    p ∈ n.parents → Ancestor nodes leaf p

/-- Nothing is found that no leaf depends on. -/
theorem ancestor_of_mem {entries : List (NodeId × Node kind)} {leaves : List NodeId} {p : NodeId}
    (hentries : ∀ e ∈ entries, nodes.get? e.1 = some e.2) (h : p ∈ ancestors entries leaves) :
    ∃ leaf ∈ leaves, Ancestor nodes leaf p := by
  induction entries generalizing p with
  | nil => exact ⟨p, h, .self⟩
  | cons e rest ih =>
    have ih' := fun {p} => ih (p := p) fun e he => hentries e (List.mem_cons_of_mem _ he)
    have hstep : ancestors (e :: rest) leaves = if e.1 ∈ ancestors rest leaves then
        e.2.parents ++ ancestors rest leaves else ancestors rest leaves := rfl
    rw [hstep] at h
    split at h
    · next he =>
      rcases List.mem_append.1 h with hp | hp
      · obtain ⟨leaf, hleaf, hancestor⟩ := ih' he
        exact ⟨leaf, hleaf, .parent hancestor (hentries e List.mem_cons_self) hp⟩
      · exact ih' hp
    · exact ih' h

/-- What is kept are the constraints and their ancestors. -/
theorem Sound.mem_kept (h : b.Sound) {p : NodeId} :
    p ∈ b.kept ↔ ∃ leaf ∈ b.constraints, Ancestor b.catalog.nodes leaf p := by
  constructor
  · exact ancestor_of_mem fun e he => Table.get?_eq_some_iff.2 he
  · rintro ⟨leaf, hleaf, hancestor⟩
    induction hancestor with
    | self => exact subset_ancestors _ _ hleaf
    | parent _ hn hp ih => exact h.kept_closed ih hn hp

/-- Ancestors of constraints are nodes. -/
theorem Sound.ancestor_there (h : b.Sound) {leaf p : NodeId}
    (hleaf : ∃ n, b.catalog.nodes.get? leaf = some n) (hp : Ancestor b.catalog.nodes leaf p) :
    ∃ n, b.catalog.nodes.get? p = some n := by
  induction hp with
  | self => exact hleaf
  | parent _ hn hp _ => exact (h.ordered.below hn hp).imp fun _ hm => hm.1

end Blueprint

/-! ## Links -/

/-- The links that lead to a node, each with the parent that it comes from. -/
def Node.inlets {kind : ScoreKind} (n : Node kind) (id : NodeId) : List (NodeId × Link) :=
  match n.parents with
  | [p] => [(p, ⟨id, .only⟩)]
  | [l, r] => [(l, ⟨id, .left⟩), (r, ⟨id, .right⟩)]
  | _ => []

theorem Node.mem_inlets {kind : ScoreKind} {n : Node kind} (hlen : n.parents.length ≤ 2)
    {id p : NodeId} {l : Link} :
    (p, l) ∈ n.inlets id ↔ l.node = id ∧ (p, l.side) ∈ Blueprint.sides n.parents := by
  obtain ⟨node, side⟩ := l
  unfold inlets
  match n.parents, hlen with
  | [], _ => simp [Blueprint.sides]
  | [a], _ =>
    simp only [Blueprint.sides, List.map_cons, List.map_nil, List.mem_singleton, Prod.mk.injEq,
      Link.mk.injEq]
    tauto
  | [a, c], _ =>
    simp only [Blueprint.sides, List.mem_cons, List.not_mem_nil, or_false, Prod.mk.injEq,
      Link.mk.injEq]
    tauto

namespace Graph

variable {kind : ScoreKind} {g : Graph kind} {ds : List (Declaration kind)}

/-- The layer above the given nodes; zero above none. -/
def above (g : Graph kind) (parents : List NodeId) : Nat :=
  (parents.map fun p => g.layerOf p + 1).foldr max 0

theorem above_eq {parents : List NodeId} {bound layer : Nat}
    (h : Blueprint.layerAbove g.nodes parents bound = .ok layer) :
    layer = max bound (g.above parents) := by
  induction parents generalizing bound with
  | nil =>
    cases h
    exact (Nat.max_zero _).symm
  | cons p rest ih =>
    unfold Blueprint.layerAbove at h
    split at h
    · next n hn =>
      have hrest := ih h
      have hp := layerOf_eq hn
      have hcons : g.above (p :: rest) = max (g.layerOf p + 1) (g.above rest) := rfl
      omega
    · cases h

theorem constraintNode_eq_ok {name : ConstraintId} {p : NodeId} :
    g.constraintNode name = .ok p ↔ g.names.get? name = some p := by
  unfold constraintNode
  cases g.names.get? name <;> simp

/-- What the graph looks like that is made of the declarations. -/
structure LaidOut (ds : List (Declaration kind)) (g : Graph kind) : Prop where
  /-- The nodes are the constraints that were declared and all that they depend on. -/
  kept : ∀ p, (∃ n, g.nodes.get? p = some n) ↔
    ∃ leaf n c, (Blueprint.declare ds {}).catalog.nodes.get? leaf = some n ∧
      n.operator = .constraint c ∧ Blueprint.Ancestor (Blueprint.declare ds {}).catalog.nodes leaf p
  /-- Every node is as it was declared, but for the links to nodes that are not there. -/
  declared : ∀ {p n}, g.nodes.get? p = some n →
    ∃ m, (Blueprint.declare ds {}).catalog.nodes.get? p = some m ∧ n = { m with children := n.children }
  /-- Sources have no parents, operators on two streams have two, and all others have one. -/
  inputs : ∀ {p n}, g.nodes.get? p = some n → n.parents.length = n.operator.inputs
  /-- Sources are in layer zero, all other nodes one above the highest of their parents. -/
  layer : ∀ {p n}, g.nodes.get? p = some n → n.layer = g.above n.parents
  /-- There is one link for every parent of a node. -/
  linked : ∀ {id n p l}, g.nodes.get? id = some n → (p, l) ∈ n.inlets id →
    ∃ m, g.nodes.get? p = some m ∧ m.children.count l = 1
  /-- There are no other links. -/
  links : ∀ {p m l}, g.nodes.get? p = some m → l ∈ m.children →
    ∃ n, g.nodes.get? l.node = some n ∧ (p, l) ∈ n.inlets l.node
  /-- The nodes that own tuples are drained in their layers. -/
  drained : ∀ {i layer p}, g.layers[i]? = some layer →
    (p ∈ layer ↔ ∃ n, g.nodes.get? p = some n ∧ n.operator.ownsTuples = true ∧ n.layer = i)
  /-- All nodes that own tuples are drained, and none of them twice. -/
  drained_once : g.layers.flatten.Nodup ∧ ∀ {p n}, g.nodes.get? p = some n →
    n.operator.ownsTuples = true → p ∈ g.layers.flatten
  /-- The sources of a type are the nodes that show its facts, each listed once. -/
  sources : ∀ type, (g.sourcesOf type).Nodup ∧ ∀ p, p ∈ g.sourcesOf type ↔
    ∃ n includeUnassigned visibility, g.nodes.get? p = some n ∧
      n.operator = .source type includeUnassigned visibility
  /-- A constraint that was declared is found under its name. -/
  charged : ∀ {before after parent name weight impact weigher node},
    ds = before ++ .charge parent name weight impact weigher :: after →
    (Blueprint.addConstraint parent name weight impact weigher (Blueprint.declare before {})).1
      = some node →
    g.constraintNode ⟨(Blueprint.declare before {}).package, name⟩ = .ok node ∧
      ∃ indicter, g.constraintAt node = .ok
        { id := ⟨(Blueprint.declare before {}).package, name⟩, weight, impact, weigher, indicter }
  /-- Every constraint has a leaf of its own. -/
  own : ∀ {name other node}, g.constraintNode name = .ok node → g.constraintNode other = .ok node →
    name = other

end Graph

namespace Blueprint

variable {kind : ScoreKind} {b : Blueprint kind} {ds : List (Declaration kind)}

/-- Pruning leaves every node in the layer above its parents. -/
theorem Arranged.layer_prune (h : b.Arranged) {p : NodeId} {n : Node kind}
    (hn : b.prune.nodes.get? p = some n) : n.layer = b.prune.above n.parents := by
  obtain ⟨hkept, n₀, hn₀, rfl⟩ := of_get?_prune hn
  have hlayer : layerAbove b.prune.nodes n₀.parents 0 = .ok n₀.layer := by
    refine Eq.trans (layerAbove_congr (fun q hq => ?_) 0) (h.layered hn₀)
    obtain ⟨m, hm, -⟩ := h.sound.ordered.below hn₀ hq
    rw [get?_prune_of_kept (h.sound.kept_closed hkept hn₀ hq) hm, hm]
    rfl
  have habove := Graph.above_eq hlayer
  rw [Nat.zero_max] at habove
  exact habove

/-- The nodes of the graph are those that some constraint depends on. -/
theorem Arranged.get?_prune_iff (h : b.Arranged) (p : NodeId) :
    (∃ n, b.prune.nodes.get? p = some n) ↔ ∃ leaf n c, b.catalog.nodes.get? leaf = some n ∧
      n.operator = .constraint c ∧ Ancestor b.catalog.nodes leaf p := by
  constructor
  · rintro ⟨n, hn⟩
    obtain ⟨hkept, -⟩ := of_get?_prune hn
    obtain ⟨leaf, hleaf, hp⟩ := h.sound.mem_kept.1 hkept
    obtain ⟨m, c, hm, hc⟩ := h.sound.constraints leaf hleaf
    exact ⟨leaf, m, c, hm, hc, hp⟩
  · rintro ⟨leaf, m, c, hm, hc, hp⟩
    obtain ⟨n, hn⟩ := h.sound.ancestor_there ⟨m, hm⟩ hp
    exact ⟨_, get?_prune_of_kept (h.sound.mem_kept.2 ⟨leaf, h.listed hm hc, hp⟩) hn⟩

/-- A constraint of the blueprint is one of its graph. -/
theorem Charges.prune {c : Constraint kind} {id : NodeId} (h : b.Charges c id) (hb : b.Sound) :
    b.prune.constraintNode c.id = .ok id ∧
      ∃ indicter, b.prune.constraintAt id = .ok { c with indicter } := by
  obtain ⟨hname, n, indicter, hn, hop⟩ := h
  have hkept : id ∈ b.kept := subset_ancestors _ _ (hb.names hname).1
  refine ⟨Graph.constraintNode_eq_ok.2 hname, indicter, ?_⟩
  · unfold Graph.constraintAt Graph.node
    rw [get?_prune_of_kept hkept hn]
    simp only [bind, Except.bind, hop]
    rfl

end Blueprint

/-- Every constraint of a graph that can be built is found under its name. -/
theorem Graph.Built.name_of_constraint {kind : ScoreKind} {g : Graph kind} (h : g.Built) {p : NodeId}
    {n : Node kind} {c : Constraint kind} (hn : g.nodes.get? p = some n)
    (hop : n.operator = .constraint c) : g.names.get? c.id = some p := by
  have hg := h.wellFormed
  obtain ⟨ds, hds⟩ := h
  obtain rfl := Blueprint.eq_prune_of_build hds
  obtain ⟨-, n₀, hn₀, rfl⟩ := Blueprint.of_get?_prune hn
  obtain ⟨name, hname⟩ := hg.named p ((Blueprint.Arranged.blank.declare ds).listed hn₀ hop)
  obtain ⟨-, n', c', hn', hop', rfl⟩ := hg.names hname
  cases hn.symm.trans hn'
  cases hop.symm.trans hop'
  exact hname

/-- The name of a constraint is that of no other. -/
theorem Graph.Built.name_ne {kind : ScoreKind} {g : Graph kind} (h : g.Built) {name : ConstraintId}
    {p q : NodeId} {n : Node kind} {c : Constraint kind} (hname : g.names.get? name = some p)
    (hn : g.nodes.get? q = some n) (hop : n.operator = .constraint c) (hq : p ≠ q) : c.id ≠ name := by
  rintro rfl
  rw [h.name_of_constraint hn hop] at hname
  exact hq (Option.some.inj hname).symm

/-- A node of a graph that can be built is a constraint, or has children. -/
theorem Graph.Built.children_ne_nil {kind : ScoreKind} {g : Graph kind} (h : g.Built) {p : NodeId}
    {n : Node kind} (hn : g.nodes.get? p = some n) (hop : ∀ c, n.operator ≠ .constraint c) :
    n.children ≠ [] := by
  have hg := h.wellFormed
  obtain ⟨ds, hds⟩ := h
  obtain rfl := Blueprint.eq_prune_of_build hds
  have hkept := (Blueprint.Arranged.blank.declare ds).get?_prune_iff
  obtain ⟨leaf, m, c, hm, hc, hancestor⟩ := (hkept p).1 ⟨n, hn⟩
  obtain ⟨-, n₀, hn₀, rfl⟩ := Blueprint.of_get?_prune hn
  cases hancestor with
  | self =>
    cases hm.symm.trans hn₀
    exact absurd hc (hop c)
  | @parent q _ child hq hchild hp =>
    -- The child was kept too, and a link leads there.
    obtain ⟨child', hchild'⟩ := (hkept q).2 ⟨leaf, m, c, hm, hc, hq⟩
    obtain ⟨-, child₀, hchild₀, rfl⟩ := Blueprint.of_get?_prune hchild'
    cases hchild.symm.trans hchild₀
    obtain ⟨side, hside⟩ := Blueprint.exists_side hp
    exact List.ne_nil_of_mem ((hg.linked.links (l := ⟨q, side⟩) hn).2 ⟨_, hchild', hside⟩)

/-- Declarations are laid out as they ask for. -/
theorem Graph.laidOut_of_build {kind : ScoreKind} {ds : List (Declaration kind)} {g : Graph kind}
    (h : (Blueprint.build (Blueprint.declare ds {})).1 = .ok g) : g.LaidOut ds := by
  have hg : g.WellFormed := Built.wellFormed ⟨ds, h⟩
  obtain rfl := Blueprint.eq_prune_of_build h
  have hb := Blueprint.Arranged.blank.declare ds
  constructor
  case kept => exact hb.get?_prune_iff
  case declared =>
    intro p n hn
    obtain ⟨-, n₀, hn₀, rfl⟩ := Blueprint.of_get?_prune hn
    exact ⟨n₀, hn₀, rfl⟩
  case inputs => exact fun hn => hg.linked.shaped hn
  case layer => exact fun hn => hb.layer_prune hn
  case linked =>
    intro id n p l hn hl
    obtain ⟨rfl, hside⟩ := (Node.mem_inlets (hg.parents_le hn)).1 hl
    obtain ⟨m, hm, -⟩ := hg.linked.below hn (Blueprint.mem_parents_of_sides hside)
    have hchild : l ∈ m.children := (hg.linked.links hm).2 ⟨n, hn, hside⟩
    exact ⟨m, hm, List.count_eq_one_of_mem (hg.linked.children_nodup hm) hchild⟩
  case links =>
    intro p m l hm hl
    obtain ⟨n, hn, hside⟩ := (hg.linked.links hm).1 hl
    exact ⟨n, hn, (Node.mem_inlets (hg.parents_le hn)).2 ⟨rfl, hside⟩⟩
  case drained =>
    intro i layer p hlayer
    unfold layers at hlayer
    rw [List.getElem?_map] at hlayer
    obtain ⟨j, hj, rfl⟩ := Option.map_eq_some_iff.1 hlayer
    obtain ⟨hlt, hj⟩ := List.getElem?_eq_some_iff.1 hj
    rw [List.getElem_range] at hj
    subst hj
    exact mem_layer
  case drained_once =>
    exact ⟨(layers_sorted _).imp fun h => h.2, fun hn hop => mem_layers.2 ⟨_, hn, hop⟩⟩
  case sources => exact fun type => ⟨sourcesOf_nodup _ type, fun p => mem_sourcesOf⟩
  case charged =>
    rintro before after parent name weight impact weigher node rfl hnode
    have hblank : ({} : Blueprint kind).Sound := .blank
    have hbefore := hblank.declare before
    have hcharges := (Blueprint.charges_addConstraint hbefore hnode).declare
      (hbefore.run (.charge parent name weight impact weigher)) after
    have hdeclare : Blueprint.declare (before ++ .charge parent name weight impact weigher :: after) {}
        = Blueprint.declare after
          (Blueprint.addConstraint parent name weight impact weigher (Blueprint.declare before {})).2 := by
      unfold Blueprint.declare
      rw [List.foldl_append]
      rfl
    rw [hdeclare] at hb ⊢
    exact hcharges.prune hb.sound
  case own =>
    intro name other node hname hother
    exact hg.name_unique (constraintNode_eq_ok.1 hname) (constraintNode_eq_ok.1 hother)

/-- A stream that is declared twice and paired with itself; no constraint depends on its distinct
facts. -/
def pairedWithItself : List (Declaration .simple) :=
  [.forEach (.scalar .bool) false, .forEach (.scalar .bool) false, .distinct (some ⟨1⟩),
    .join (some ⟨1⟩) (some ⟨1⟩) [], .charge (some ⟨3⟩) "pairs" (.simple 1) .penalty none]

theorem Graph.laidOut_pairedWithItself : ∃ g : Graph .simple,
    (Blueprint.build (Blueprint.declare pairedWithItself {})).1 = .ok g ∧
      g.LaidOut pairedWithItself ∧ g.nodes.keys = [⟨1⟩, ⟨3⟩, ⟨4⟩] :=
  ⟨_, rfl, laidOut_of_build rfl, by decide⟩

end ConstraintStreams
