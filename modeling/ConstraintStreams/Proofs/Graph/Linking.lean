import Mathlib.Data.List.Nodup
import ConstraintStreams.Proofs.Action
import ConstraintStreams.Proofs.Graph.Declaration
import ConstraintStreams.Proofs.Table

/-!
# How the nodes of a graph are linked

Every node is linked to its parents and to nothing else, on the sides that its operator expects, and
lies above them. A node may be added behind the nodes that are there, and a node may be changed where
it stands.
-/

namespace ConstraintStreams

/-- The number of parents that an operator has. -/
def Operator.inputs {kind : ScoreKind} : Operator kind → Nat
  | source .. => 0
  | join _ | semijoin .. | concat => 2
  | _ => 1

/-- Parents and children agree, and every node has as many parents as it needs, all below it. -/
structure Linked {kind : ScoreKind} (nodes : Table NodeId (Node kind)) : Prop where
  links : ∀ {p n l}, nodes.get? p = some n →
    (l ∈ n.children ↔ ∃ c, nodes.get? l.node = some c ∧ (p, l.side) ∈ Blueprint.sides c.parents)
  children_nodup : ∀ {p n}, nodes.get? p = some n → n.children.Nodup
  below : ∀ {id n p}, nodes.get? id = some n → p ∈ n.parents →
    ∃ m, nodes.get? p = some m ∧ m.layer < n.layer
  shaped : ∀ {id n}, nodes.get? id = some n → n.parents.length = n.operator.inputs

namespace Blueprint

variable {kind : ScoreKind} {nodes : Table NodeId (Node kind)} {parents : List NodeId}

/-! ## Sides -/

theorem mem_parents_of_sides {p : NodeId} {side : Side} (h : (p, side) ∈ sides parents) :
    p ∈ parents := by
  unfold sides at h
  split at h
  · simp only [List.mem_cons, Prod.mk.injEq, List.not_mem_nil, or_false] at h
    rcases h with ⟨rfl, -⟩ | ⟨rfl, -⟩ <;> simp
  · obtain ⟨q, hq, he⟩ := List.mem_map.1 h
    cases he
    exact hq

/-- The side of a link says which parent it comes from. -/
theorem parent_unique {p q : NodeId} {side : Side} (hlen : parents.length ≤ 2)
    (hp : (p, side) ∈ sides parents) (hq : (q, side) ∈ sides parents) : p = q := by
  match parents, hlen with
  | [], _ => cases hp
  | [a], _ =>
    simp only [sides, List.map_cons, List.map_nil, List.mem_singleton, Prod.mk.injEq] at hp hq
    exact hp.1.trans hq.1.symm
  | [a, b], _ =>
    simp only [sides, List.mem_cons, Prod.mk.injEq, List.not_mem_nil, or_false] at hp hq
    rcases hp with ⟨rfl, rfl⟩ | ⟨rfl, rfl⟩ <;> rcases hq with ⟨rfl, hs⟩ | ⟨rfl, hs⟩ <;>
      first | rfl | cases hs

theorem sides_nodup : (sides parents).Nodup ∨ 2 < parents.length := by
  match parents with
  | [] => simp [sides]
  | [a] => simp [sides]
  | [a, b] => simp [sides]
  | a :: b :: c :: rest => simp

/-- A node of two inputs is reached on the left and on the right, any other in the middle. -/
theorem side_ne_only {p : NodeId} {side : Side} (h : (p, side) ∈ sides parents)
    (hlen : parents.length = 2) : side ≠ .only := by
  match parents, hlen with
  | [a, b], _ =>
    simp only [sides, List.mem_cons, Prod.mk.injEq, List.not_mem_nil, or_false] at h
    rcases h with ⟨-, rfl⟩ | ⟨-, rfl⟩ <;> simp

theorem side_eq_only {p : NodeId} {side : Side} (h : (p, side) ∈ sides parents)
    (hlen : parents.length = 1) : side = .only := by
  match parents, hlen with
  | [a], _ =>
    simp only [sides, List.map_cons, List.map_nil, List.mem_singleton, Prod.mk.injEq] at h
    exact h.2

theorem exists_side {p : NodeId} (h : p ∈ parents) : ∃ side, (p, side) ∈ sides parents := by
  unfold sides
  split
  · simp only [List.mem_cons, List.not_mem_nil, or_false] at h
    rcases h with rfl | rfl
    · exact ⟨.left, by simp⟩
    · exact ⟨.right, by simp⟩
  · exact ⟨.only, List.mem_map_of_mem h⟩

/-! ## Adding a node -/

theorem layerAbove_spec {layer bound : Nat} (h : layerAbove nodes parents bound = .ok layer) :
    bound ≤ layer ∧ ∀ p ∈ parents, ∃ m, nodes.get? p = some m ∧ m.layer < layer := by
  induction parents generalizing bound with
  | nil => cases h; exact ⟨Nat.le_refl _, fun p hp => by cases hp⟩
  | cons parent rest ih =>
    unfold layerAbove at h
    split at h
    · next m hm =>
      obtain ⟨hbound, hrest⟩ := ih h
      refine ⟨by omega, fun p hp => ?_⟩
      rcases List.mem_cons.1 hp with rfl | hp
      · exact ⟨m, hm, by omega⟩
      · exact hrest p hp
    · cases h

/-- Linking a child adds the link to each of its parents. -/
theorem get?_link_foldl (child : NodeId) (ps : List (NodeId × Side)) (c : Catalog kind) (x : NodeId) :
    (ps.foldl (fun c (parent, side) => c.link parent ⟨child, side⟩) c).nodes.get? x =
      (c.nodes.get? x).map fun n =>
        { n with children := n.children ++
            (ps.filter (·.1 = x)).map fun e => ⟨child, e.2⟩ } := by
  induction ps generalizing c with
  | nil => cases h : c.nodes.get? x <;> simp [h]
  | cons e rest ih =>
    rw [List.foldl_cons, ih]
    simp only [Catalog.link, Table.get?_modify]
    by_cases he : e.1 = x
    · subst he
      cases h : c.nodes.get? e.1 <;> simp
    · cases c.nodes.get? x <;> simp [he]

theorem keys_link_foldl (child : NodeId) (ps : List (NodeId × Side)) (c : Catalog kind) :
    (ps.foldl (fun c (parent, side) => c.link parent ⟨child, side⟩) c).nodes.keys =
      c.nodes.keys := by
  induction ps generalizing c with
  | nil => rfl
  | cons e rest ih =>
    rw [List.foldl_cons, ih]
    exact Table.keys_modify _ _ _

/-- The nodes of a blueprint are linked and numbered in the order of their declaration. -/
structure Ordered (nodes : Table NodeId (Node kind)) : Prop extends Linked nodes where
  keys_eq : nodes.keys = (List.range nodes.size).map fun i => ⟨i + 1⟩
  earlier : ∀ {id n p}, nodes.get? id = some n → p ∈ n.parents → p.ordinal < id.ordinal

theorem Ordered.ordinal_le (h : Ordered nodes) {id : NodeId} {n : Node kind}
    (hn : nodes.get? id = some n) : id.ordinal ≤ nodes.size := by
  have hm : id ∈ nodes.keys := List.mem_map.2 ⟨(id, n), Table.get?_eq_some_iff.1 hn, rfl⟩
  rw [h.keys_eq] at hm
  obtain ⟨i, hi, rfl⟩ := List.mem_map.1 hm
  rw [List.mem_range] at hi
  show i + 1 ≤ _
  omega

/-- The links from the parents of a new node. -/
def linksFrom (child : NodeId) (parents : List NodeId) (x : NodeId) : List Link :=
  ((sides parents).filter (·.1 = x)).map fun e => ⟨child, e.2⟩

theorem mem_linksFrom {child x : NodeId} {l : Link} :
    l ∈ linksFrom child parents x ↔ child = l.node ∧ (x, l.side) ∈ sides parents := by
  unfold linksFrom
  simp only [List.mem_map, List.mem_filter, decide_eq_true_eq]
  constructor
  · rintro ⟨⟨p, side⟩, ⟨hm, rfl⟩, rfl⟩
    exact ⟨rfl, hm⟩
  · rintro ⟨rfl, hm⟩
    exact ⟨(x, l.side), ⟨hm, rfl⟩, rfl⟩

variable {c : Catalog kind} {node : Node kind}

/-- The catalog after a node was added and linked to its parents. -/
def attached (c : Catalog kind) (key : Option NodeKey) (node : Node kind) : Catalog kind :=
  (sides node.parents).foldl (fun c' (parent, side) => c'.link parent ⟨c.nextId, side⟩)
    (c.add key node)

theorem Ordered.get?_nextId (h : Ordered c.nodes) : c.nodes.get? c.nextId = none := by
  rw [Option.eq_none_iff_forall_not_mem]
  intro n hn
  have := h.ordinal_le hn
  simp only [Catalog.nextId] at this
  omega

theorem Ordered.nextId_ne (h : Ordered c.nodes) {x : NodeId} {n : Node kind}
    (hn : c.nodes.get? x = some n) : c.nextId ≠ x := by
  rintro rfl
  rw [h.get?_nextId] at hn
  cases hn

theorem get?_attached (h : Ordered c.nodes)
    (hparents : ∀ p ∈ node.parents, ∃ m, c.nodes.get? p = some m) (key : Option NodeKey)
    (x : NodeId) :
    (attached c key node).nodes.get? x = if c.nextId = x then some node else
      (c.nodes.get? x).map fun n =>
        { n with children := n.children ++ linksFrom c.nextId node.parents x } := by
  unfold attached
  rw [get?_link_foldl]
  show ((c.nodes.insert c.nextId node).get? x).map _ = _
  rw [Table.get?_insert]
  split
  · next he =>
    subst he
    -- The new node is none of its own parents.
    have hnone : (sides node.parents).filter (·.1 = c.nextId) = [] := by
      rw [List.filter_eq_nil_iff]
      rintro ⟨p, side⟩ hp
      obtain ⟨m, hm⟩ := hparents p (mem_parents_of_sides hp)
      simp only [decide_eq_true_eq]
      rintro rfl
      rw [h.get?_nextId] at hm
      cases hm
    simp [hnone]
  · rfl

theorem keys_attached (h : Ordered c.nodes) (key : Option NodeKey) :
    (attached c key node).nodes.keys = c.nodes.keys ++ [c.nextId] := by
  unfold attached
  rw [keys_link_foldl]
  exact Table.keys_insert_of_none h.get?_nextId

/-! ### The nodes after one was added -/

section Attached

variable (h : Ordered c.nodes) (hparents : ∀ p ∈ node.parents, ∃ m, c.nodes.get? p = some m)
  (key : Option NodeKey) {x : NodeId} {n : Node kind}

include h hparents

theorem get?_attached_new : (attached c key node).nodes.get? c.nextId = some node := by
  rw [get?_attached h hparents, if_pos rfl]

theorem get?_attached_old (hn : c.nodes.get? x = some n) :
    (attached c key node).nodes.get? x =
      some { n with children := n.children ++ linksFrom c.nextId node.parents x } := by
  rw [get?_attached h hparents, if_neg (h.nextId_ne hn), hn]
  rfl

/-- A node is the new one as it is, or an old one with more children. -/
theorem of_get?_attached (hn : (attached c key node).nodes.get? x = some n) :
    (c.nextId = x ∧ n = node) ∨ ∃ n₀, c.nodes.get? x = some n₀ ∧
      n = { n₀ with children := n₀.children ++ linksFrom c.nextId node.parents x } := by
  rw [get?_attached h hparents] at hn
  split at hn
  · next he => exact .inl ⟨he, (Option.some.inj hn).symm⟩
  · obtain ⟨n₀, hn₀, rfl⟩ := Option.map_eq_some_iff.1 hn
    exact .inr ⟨n₀, hn₀, rfl⟩

/-- A link leads to the new node, or to one that it led to before. -/
theorem exists_child_attached {p : NodeId} {l : Link} :
    (∃ d, (attached c key node).nodes.get? l.node = some d ∧ (p, l.side) ∈ sides d.parents) ↔
      (c.nextId = l.node ∧ (p, l.side) ∈ sides node.parents) ∨
        ∃ d, c.nodes.get? l.node = some d ∧ (p, l.side) ∈ sides d.parents := by
  constructor
  · rintro ⟨d, hd, hside⟩
    rcases of_get?_attached h hparents key hd with ⟨he, rfl⟩ | ⟨d₀, hd₀, rfl⟩
    · exact .inl ⟨he, hside⟩
    · exact .inr ⟨d₀, hd₀, hside⟩
  · rintro (⟨he, hside⟩ | ⟨d, hd, hside⟩)
    · exact ⟨node, he ▸ get?_attached_new h hparents key, hside⟩
    · exact ⟨_, get?_attached_old h hparents key hd, hside⟩

theorem links_attached (hchildren : node.children = []) {l : Link}
    (hn : (attached c key node).nodes.get? x = some n) :
    l ∈ n.children ↔ ∃ d, (attached c key node).nodes.get? l.node = some d ∧
      (x, l.side) ∈ sides d.parents := by
  rw [exists_child_attached h hparents]
  rcases of_get?_attached h hparents key hn with ⟨rfl, rfl⟩ | ⟨n₀, hn₀, rfl⟩
  · -- Nothing is linked to the new node yet.
    rw [hchildren]
    simp only [List.not_mem_nil, false_iff, not_or, not_and, not_exists]
    constructor
    · intro _ hside
      obtain ⟨m, hm⟩ := hparents _ (mem_parents_of_sides hside)
      exact h.nextId_ne hm rfl
    · intro d hd hside
      obtain ⟨m, hm, -⟩ := h.below hd (mem_parents_of_sides hside)
      exact h.nextId_ne hm rfl
  · rw [List.mem_append, h.links hn₀, mem_linksFrom, or_comm]

theorem children_nodup_attached (hchildren : node.children = []) (hlen : node.parents.length ≤ 2)
    (hn : (attached c key node).nodes.get? x = some n) : n.children.Nodup := by
  rcases of_get?_attached h hparents key hn with ⟨rfl, rfl⟩ | ⟨n₀, hn₀, rfl⟩
  · rw [hchildren]
    exact List.nodup_nil
  · rw [List.nodup_append]
    refine ⟨h.children_nodup hn₀, ?_, ?_⟩
    · unfold linksFrom
      refine ((sides_nodup.resolve_right (by omega)).filter _).map_on ?_
      rintro ⟨a, s⟩ ha ⟨b, s'⟩ hb he
      simp only [List.mem_filter, decide_eq_true_eq] at ha hb
      cases he
      rw [ha.2, hb.2]
    · rintro l hl l' hl' rfl
      obtain ⟨d, hd, -⟩ := (h.links hn₀).1 hl
      exact h.nextId_ne hd (mem_linksFrom.1 hl').1

end Attached

theorem Ordered.attached (h : Ordered c.nodes) (key : Option NodeKey) (hchildren : node.children = [])
    (hshape : node.parents.length = node.operator.inputs)
    (hbelow : ∀ p ∈ node.parents, ∃ m, c.nodes.get? p = some m ∧ m.layer < node.layer) :
    Ordered (attached c key node).nodes := by
  have hparents : ∀ p ∈ node.parents, ∃ m, c.nodes.get? p = some m := fun p hp =>
    (hbelow p hp).imp fun _ hm => hm.1
  have hback {x : NodeId} {n : Node kind} (hn : (Blueprint.attached c key node).nodes.get? x = some n) :=
    of_get?_attached h hparents key hn
  have hkeys : (Blueprint.attached c key node).nodes.keys = _ := keys_attached h key
  refine {
    links := links_attached h hparents key hchildren
    children_nodup := children_nodup_attached h hparents key hchildren ?length
    below := fun {id n p} hn hp => ?below
    shaped := fun {id n} hn => ?shaped
    keys_eq := ?keys_eq
    earlier := fun {id n p} hn hp => ?earlier }
  case length =>
    rw [hshape]
    unfold Operator.inputs
    split <;> omega
  case below =>
    obtain ⟨m, hm, hlt⟩ : ∃ m, c.nodes.get? p = some m ∧ m.layer < n.layer := by
      rcases hback hn with ⟨rfl, rfl⟩ | ⟨n₀, hn₀, rfl⟩
      · exact hbelow p hp
      · have hold := h.below hn₀ hp
        exact hold
    exact ⟨_, get?_attached_old h hparents key hm, hlt⟩
  case shaped =>
    rcases hback hn with ⟨rfl, rfl⟩ | ⟨n₀, hn₀, rfl⟩
    · exact hshape
    · have hold := h.shaped hn₀
      exact hold
  case keys_eq =>
    have hsize : (Blueprint.attached c key node).nodes.size = c.nodes.size + 1 := by
      have hlength := congrArg List.length hkeys
      simpa [Table.keys, Table.size] using hlength
    rw [hkeys, h.keys_eq, hsize, List.range_succ, List.map_append]
    rfl
  case earlier =>
    rcases hback hn with ⟨rfl, rfl⟩ | ⟨n₀, hn₀, rfl⟩
    · obtain ⟨m, hm⟩ := hparents p hp
      have hle := h.ordinal_le hm
      simp only [Catalog.nextId]
      omega
    · exact h.earlier hn₀ hp

/-! ## Changing a node where it stands -/

/-- Who blames whom is no matter of how nodes are linked. -/
theorem Ordered.modify (h : Ordered nodes) (id : NodeId) (f : Node kind → Node kind)
    (hf : ∀ n, (f n).parents = n.parents ∧ (f n).children = n.children ∧ (f n).layer = n.layer ∧
      (f n).operator.inputs = n.operator.inputs) : Ordered (nodes.modify id f) := by
  have hback : ∀ {x n}, (nodes.modify id f).get? x = some n → ∃ n₀, nodes.get? x = some n₀ ∧
      n.parents = n₀.parents ∧ n.children = n₀.children ∧ n.layer = n₀.layer ∧
      n.operator.inputs = n₀.operator.inputs := by
    intro x n hn
    rw [Table.get?_modify] at hn
    split at hn
    · next he =>
      subst he
      obtain ⟨n₀, hn₀, rfl⟩ := Option.map_eq_some_iff.1 hn
      exact ⟨n₀, hn₀, hf n₀⟩
    · exact ⟨n, hn, rfl, rfl, rfl, rfl⟩
  have hthere : ∀ {x n₀}, nodes.get? x = some n₀ → ∃ n, (nodes.modify id f).get? x = some n ∧
      n.parents = n₀.parents ∧ n.layer = n₀.layer := by
    intro x n₀ hn₀
    rw [Table.get?_modify]
    split
    · next he =>
      subst he
      exact ⟨f n₀, by rw [hn₀]; rfl, (hf n₀).1, (hf n₀).2.2.1⟩
    · exact ⟨n₀, hn₀, rfl, rfl⟩
  have hkeys := nodes.keys_modify id f
  refine ⟨⟨?_, ?_, ?_, ?_⟩, ?_, ?_⟩
  · intro p n l hn
    obtain ⟨n₀, hn₀, -, hchildren, -⟩ := hback hn
    rw [hchildren, h.links hn₀]
    constructor
    · rintro ⟨c, hc, hside⟩
      obtain ⟨c', hc', hparents, -⟩ := hthere hc
      exact ⟨c', hc', hparents ▸ hside⟩
    · rintro ⟨c, hc, hside⟩
      obtain ⟨c', hc', hparents, -⟩ := hback hc
      exact ⟨c', hc', hparents ▸ hside⟩
  · intro p n hn
    obtain ⟨n₀, hn₀, -, hchildren, -⟩ := hback hn
    exact hchildren ▸ h.children_nodup hn₀
  · intro x n p hn hp
    obtain ⟨n₀, hn₀, hparents, -, hlayer, -⟩ := hback hn
    obtain ⟨m, hm, hlt⟩ := h.below hn₀ (hparents ▸ hp)
    obtain ⟨m', hm', -, hlayer'⟩ := hthere hm
    exact ⟨m', hm', by omega⟩
  · intro x n hn
    obtain ⟨n₀, hn₀, hparents, -, -, hinputs⟩ := hback hn
    rw [hparents, hinputs]
    exact h.shaped hn₀
  · have hsize : (nodes.modify id f).size = nodes.size := by
      simpa [Table.keys, Table.size] using congrArg List.length hkeys
    rw [hkeys, hsize]
    exact h.keys_eq
  · intro x n p hn hp
    obtain ⟨n₀, hn₀, hparents, -⟩ := hback hn
    exact h.earlier hn₀ (hparents ▸ hp)


end Blueprint

end ConstraintStreams
