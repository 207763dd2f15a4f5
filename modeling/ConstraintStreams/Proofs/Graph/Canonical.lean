import ConstraintStreams.Proofs.Graph.WellFormed

/-!
# Canonical blueprints

The key of a node has the keys of its functions for those functions, and leaves out what a source
shows, which is decided once for every type. So whatever is found under a key does what was declared.
`Blueprint.Canonical` says what that takes of the nodes of a blueprint, and every declaration keeps it.
-/

namespace ConstraintStreams

/-! ## Handles of known functions -/

/-- The functions that the keys of handles stand for. -/
structure Functions where
  predicate : HandleKey → Facts → Except Error Bool
  property : HandleKey → PropertyOf
  pairTest : HandleKey → PairTest
  groupKey : HandleKey → Facts → Except Error Fact
  mapper : HandleKey → Facts → Except Error Facts
  items : HandleKey → Fact → Except Error (List Fact)
  collector : CollectorKey → Accumulator

/-- The handles of a joiner are of known functions. -/
def Joiner.Uses (fs : Functions) : Joiner → Prop
  | indexed left right => left.run = fs.property left.key ∧ right.run = fs.property right.key
  | test _ accepts => accepts.run = fs.pairTest accepts.key

/-- The handles of an operator are of known functions. -/
def Operator.Uses {kind : ScoreKind} (fs : Functions) : Operator kind → Prop
  | filter predicate => predicate.run = fs.predicate predicate.key
  | join joiners | semijoin _ joiners => ∀ j ∈ joiners, j.Uses fs
  | group key collector => (∀ f, key = some f → f.run = fs.groupKey f.key) ∧
      ∀ c, collector = some c → c.start = fs.collector c.key
  | map mapper => mapper.run = fs.mapper mapper.key
  | flatten items => items.run = fs.items items.key
  | _ => True

/-- The handles of a declaration are of known functions. -/
def Declaration.Uses {kind : ScoreKind} (fs : Functions) : Declaration kind → Prop
  | filter _ predicate => (Operator.filter predicate : Operator kind).Uses fs
  | join _ _ joiners => (Operator.join joiners : Operator kind).Uses fs
  | semijoin _ _ expected joiners => (Operator.semijoin expected joiners : Operator kind).Uses fs
  | group _ key collector => (Operator.group key collector : Operator kind).Uses fs
  | map _ mapper _ => (Operator.map mapper : Operator kind).Uses fs
  | flatten _ items => (Operator.flatten items : Operator kind).Uses fs
  | _ => True

variable {kind : ScoreKind} {fs : Functions}

theorem Handle.eq_of_key {α : Type} {h h' : Handle α} {f : HandleKey → α} (hf : h.run = f h.key)
    (hf' : h'.run = f h'.key) (hkey : h.key = h'.key) : h = h' := by
  cases h
  cases h'
  cases hkey
  cases hf.trans hf'.symm
  rfl

theorem Collector.eq_of_key {c c' : Collector} {f : CollectorKey → Accumulator}
    (hf : c.start = f c.key) (hf' : c'.start = f c'.key) (hkey : c.key = c'.key) : c = c' := by
  cases c
  cases c'
  cases hkey
  cases hf.trans hf'.symm
  rfl

theorem Joiner.eq_of_key {j j' : Joiner} (h : j.Uses fs) (h' : j'.Uses fs) (hkey : j.key = j'.key) :
    j = j' := by
  cases j with
  | indexed left right =>
    cases j' with
    | indexed left' right' =>
      simp only [key, Key.mk.injEq, Option.some.injEq, true_and] at hkey
      rw [Handle.eq_of_key h.1 h'.1 hkey.1, Handle.eq_of_key h.2 h'.2 hkey.2]
    | test => simp [key] at hkey
  | test kind accepts =>
    cases j' with
    | indexed => simp [key] at hkey
    | test kind' accepts' =>
      simp only [key, Key.mk.injEq, and_true] at hkey
      rw [hkey.1, Handle.eq_of_key (f := fs.pairTest) h h' hkey.2]

/-- Items are the same, one by one, if their keys are. -/
theorem eq_of_map_eq {α β : Type} {f : α → β} {P : α → Prop}
    (hf : ∀ a b, P a → P b → f a = f b → a = b) {as bs : List α} (ha : ∀ a ∈ as, P a)
    (hb : ∀ b ∈ bs, P b) (h : as.map f = bs.map f) : as = bs := by
  induction as generalizing bs with
  | nil => exact (List.map_eq_nil_iff.1 h.symm).symm
  | cons a as ih =>
    cases bs with
    | nil => cases h
    | cons b bs =>
      obtain ⟨hhead, htail⟩ := List.cons.inj h
      rw [hf a b (ha a List.mem_cons_self) (hb b List.mem_cons_self) hhead,
        ih (fun a h => ha a (List.mem_cons_of_mem _ h)) (fun b h => hb b (List.mem_cons_of_mem _ h)) htail]

/-- What is optional is the same if its key is. -/
theorem eq_of_option_map_eq {α β : Type} {f : α → β} {P : α → Prop}
    (hf : ∀ a b, P a → P b → f a = f b → a = b) {a b : Option α} (ha : ∀ x, a = some x → P x)
    (hb : ∀ x, b = some x → P x) (h : a.map f = b.map f) : a = b := by
  cases a with
  | none => exact (Option.map_eq_none_iff.1 h.symm).symm
  | some a =>
    cases b with
    | none => cases h
    | some b => rw [hf a b (ha a rfl) (hb b rfl) (Option.some.inj h)]

/-! ## Keys of nodes -/

namespace Operator

/-- The operator as its key knows it, without what a source shows. -/
def blind : Operator kind → Operator kind
  | source type includeUnassigned _ => source type includeUnassigned none
  | op => op

/-- The number of facts that an operator makes of those of its parents, unless it is declared. -/
def width : Operator kind → List Nat → Option Nat
  | source .., _ => some 1
  | filter _, [a] | flatten _, [a] | distinct, [a] | constraint _, [a] => some a
  | join _, [a, b] => some (a + b)
  | semijoin .., [a, _] | concat, [a, _] => some a
  | group key collector, _ => some (key.toList.length + collector.toList.length)
  | _, _ => none

/-- Only how many facts a mapper answers has to be declared. -/
theorem width_eq_none {op : Operator kind} {widths : List Nat} (hlen : widths.length = op.inputs)
    (h : op.width widths = none) : ∃ mapper, op = .map mapper := by
  cases op with
  | map mapper => exact ⟨mapper, rfl⟩
  | source | group => cases h
  | join | semijoin | concat =>
    obtain ⟨w, w', rfl⟩ := List.length_eq_two.1 hlen
    cases h
  | _ =>
    obtain ⟨w, rfl⟩ := List.length_eq_one_iff.1 hlen
    cases h

theorem width_blind (op : Operator kind) (widths : List Nat) : op.blind.width widths = op.width widths := by
  cases op <;> rfl

theorem width_constraint (c c' : Constraint kind) :
    (constraint c).width = (constraint c').width := by
  funext widths
  rcases widths with _ | ⟨w, _ | ⟨w', rest⟩⟩ <;> rfl

theorem uses_blind {op : Operator kind} : op.blind.Uses fs ↔ op.Uses fs := by
  cases op <;> exact Iff.rfl

end Operator

namespace Node

variable {n m : Node kind} {key : NodeKey}

theorem parent_eq_ok {i : Nat} {p : NodeId} : n.parent i = .ok p ↔ n.parents[i]? = some p := by
  unfold parent
  cases n.parents[i]? <;> simp

/-- With all its parents there, a node has a key, unless it is a constraint. -/
theorem key?_eq_ok (hshape : n.parents.length = n.operator.inputs) : ∃ key, n.key? = .ok key := by
  obtain ⟨op, parents, children, arity, layer⟩ := n
  dsimp only at hshape
  cases op with
  | source | constraint => exact ⟨_, rfl⟩
  | join | semijoin | concat =>
    obtain ⟨left, right, rfl⟩ := List.length_eq_two.1 hshape
    exact ⟨_, rfl⟩
  | _ =>
    obtain ⟨p, rfl⟩ := List.length_eq_one_iff.1 hshape
    exact ⟨_, rfl⟩

theorem eq_singleton {parents : List NodeId} {p : NodeId} (hlen : parents.length = 1)
    (h : parents[0]? = some p) : parents = [p] := by
  obtain ⟨q, rfl⟩ := List.length_eq_one_iff.1 hlen
  cases h
  rfl

theorem eq_pair {parents : List NodeId} {p q : NodeId} (hlen : parents.length = 2)
    (hp : parents[0]? = some p) (hq : parents[1]? = some q) : parents = [p, q] := by
  obtain ⟨a, b, rfl⟩ := List.length_eq_two.1 hlen
  cases hp
  cases hq
  rfl

/-- What has the same key does the same, on the same parents. -/
theorem eq_of_key (hn : n.key? = .ok (some key)) (hm : m.key? = .ok (some key))
    (hshape : n.parents.length = n.operator.inputs) (hshape' : m.parents.length = m.operator.inputs)
    (huses : n.operator.Uses fs) (huses' : m.operator.Uses fs) :
    m.parents = n.parents ∧ m.operator.blind = n.operator.blind ∧
      ∀ mapper, n.operator = .map mapper → m.arity = n.arity := by
  obtain ⟨op, parents, children, arity, layer⟩ := n
  obtain ⟨op', parents', children', arity', layer'⟩ := m
  dsimp only at hshape hshape' huses huses' ⊢
  cases op with
  | constraint c => cases hn
  | source type includeUnassigned visibility =>
    cases hn
    cases op' <;> simp [key?, except_bind_eq_ok, pure, Except.pure] at hm
    obtain ⟨rfl, rfl⟩ := hm
    rw [List.eq_nil_of_length_eq_zero hshape, List.eq_nil_of_length_eq_zero hshape']
    exact ⟨rfl, rfl, fun _ h => by cases h⟩
  | filter predicate =>
    obtain ⟨p, rfl⟩ := List.length_eq_one_iff.1 hshape
    cases hn
    cases op' <;> simp [key?, except_bind_eq_ok, pure, Except.pure, parent_eq_ok] at hm
    next predicate' =>
    rw [eq_singleton hshape' hm.1, Handle.eq_of_key (f := fs.predicate) huses' huses hm.2]
    exact ⟨rfl, rfl, fun _ h => by cases h⟩
  | join joiners =>
    obtain ⟨l, r, rfl⟩ := List.length_eq_two.1 hshape
    cases hn
    cases op' <;> simp [key?, except_bind_eq_ok, pure, Except.pure, parent_eq_ok] at hm
    next joiners' =>
    rw [eq_pair hshape' hm.1 hm.2.1,
      eq_of_map_eq (fun _ _ => Joiner.eq_of_key) huses' huses hm.2.2]
    exact ⟨rfl, rfl, fun _ h => by cases h⟩
  | semijoin expected joiners =>
    obtain ⟨l, r, rfl⟩ := List.length_eq_two.1 hshape
    cases hn
    cases op' <;> simp [key?, except_bind_eq_ok, pure, Except.pure, parent_eq_ok] at hm
    next expected' joiners' =>
    obtain ⟨hl, hr, rfl, hjoiners⟩ := hm
    rw [eq_pair hshape' hl hr, eq_of_map_eq (fun _ _ => Joiner.eq_of_key) huses' huses hjoiners]
    exact ⟨rfl, rfl, fun _ h => by cases h⟩
  | group key collector =>
    obtain ⟨p, rfl⟩ := List.length_eq_one_iff.1 hshape
    cases hn
    cases op' <;> simp [key?, except_bind_eq_ok, pure, Except.pure, parent_eq_ok] at hm
    next key' collector' =>
    obtain ⟨hp, hkey, hcollector⟩ := hm
    rw [eq_singleton hshape' hp,
      eq_of_option_map_eq (fun _ _ => Handle.eq_of_key) huses'.1 huses.1 hkey,
      eq_of_option_map_eq (fun _ _ => Collector.eq_of_key) huses'.2 huses.2 hcollector]
    exact ⟨rfl, rfl, fun _ h => by cases h⟩
  | map mapper =>
    obtain ⟨p, rfl⟩ := List.length_eq_one_iff.1 hshape
    cases hn
    cases op' <;> simp [key?, except_bind_eq_ok, pure, Except.pure, parent_eq_ok] at hm
    next mapper' =>
    obtain ⟨hp, hkey, harity⟩ := hm
    rw [eq_singleton hshape' hp, Handle.eq_of_key (f := fs.mapper) huses' huses hkey]
    exact ⟨rfl, rfl, fun _ _ => harity⟩
  | flatten items =>
    obtain ⟨p, rfl⟩ := List.length_eq_one_iff.1 hshape
    cases hn
    cases op' <;> simp [key?, except_bind_eq_ok, pure, Except.pure, parent_eq_ok] at hm
    next items' =>
    rw [eq_singleton hshape' hm.1, Handle.eq_of_key (f := fs.items) huses' huses hm.2]
    exact ⟨rfl, rfl, fun _ h => by cases h⟩
  | distinct =>
    obtain ⟨p, rfl⟩ := List.length_eq_one_iff.1 hshape
    cases hn
    cases op' <;> simp [key?, except_bind_eq_ok, pure, Except.pure, parent_eq_ok] at hm
    rw [eq_singleton hshape' hm]
    exact ⟨rfl, rfl, fun _ h => by cases h⟩
  | concat =>
    obtain ⟨l, r, rfl⟩ := List.length_eq_two.1 hshape
    cases hn
    cases op' <;> simp [key?, except_bind_eq_ok, pure, Except.pure, parent_eq_ok] at hm
    rw [eq_pair hshape' hm.1 hm.2]
    exact ⟨rfl, rfl, fun _ h => by cases h⟩

end Node

/-! ## What a blueprint knows of its nodes -/

namespace Blueprint

/-- The number of facts of a node. -/
def widthOf (b : Blueprint kind) (id : NodeId) : Nat := (b.arityOf? id).getD 0

/-- What holds of the nodes of a blueprint, one by one: they are found under their own keys, what their
sources show is decided, and how many facts they have follows from their operator and their parents. -/
structure Canonical (fs : Functions) (b : Blueprint kind) : Prop where
  found : ∀ {key p}, b.catalog.keys.get? key = some p →
    ∃ n, b.catalog.nodes.get? p = some n ∧ n.key? = .ok (some key)
  uses : ∀ {p n}, b.catalog.nodes.get? p = some n → n.operator.Uses fs
  resolved : ∀ {p n}, b.catalog.nodes.get? p = some n → n.operator = b.resolve n.operator.blind
  typed : ∀ {p n type includeUnassigned visibility}, b.catalog.nodes.get? p = some n →
    n.operator = .source type includeUnassigned visibility → type ∈ b.resolved
  sized : ∀ {p n w}, b.catalog.nodes.get? p = some n →
    n.operator.width (n.parents.map b.widthOf) = some w → n.arity = w

variable {b : Blueprint kind} {op : Operator kind} {parents : List NodeId} {arity : Nat}

/-! ## Adding nodes -/

theorem layerAbove_ok {nodes : Table NodeId (Node kind)}
    (h : ∀ p ∈ parents, ∃ m, nodes.get? p = some m) (bound : Nat) :
    ∃ layer, layerAbove nodes parents bound = .ok layer := by
  induction parents generalizing bound with
  | nil => exact ⟨bound, rfl⟩
  | cons parent rest ih =>
    obtain ⟨m, hm⟩ := h parent List.mem_cons_self
    unfold layerAbove
    rw [hm]
    exact ih (fun p hp => h p (List.mem_cons_of_mem _ hp)) _

/-- A node that can be declared is found or added. -/
theorem addNode_eq (hopen : b.built = false) (harity : ¬ (arity = 0 ∨ maxArity < arity))
    (hshape : parents.length = op.inputs)
    (hparents : ∀ p ∈ parents, ∃ m, b.catalog.nodes.get? p = some m) :
    ∃ layer key, Node.key? { operator := op, parents, arity, layer } = .ok key ∧
      addNode op parents arity b = match key.bind b.catalog.keys.get? with
        | some node => (some node, b)
        | none => (some b.catalog.nextId, { b with
            catalog := attached b.catalog key { operator := b.resolve op, parents, arity, layer } }) := by
  obtain ⟨layer, hlayer⟩ := layerAbove_ok hparents 0
  obtain ⟨key, hkey⟩ := Node.key?_eq_ok (n := { operator := op, parents, arity, layer }) hshape
  exact ⟨layer, key, hkey, addNode_of_key hopen harity hlayer hkey⟩

/-! ## What is there stays -/

end Blueprint

/-- The nodes are the same but for their links. -/
def Node.Alike (n m : Node kind) : Prop :=
  m.operator = n.operator ∧ m.parents = n.parents ∧ m.arity = n.arity

theorem Node.Alike.key? {n m : Node kind} (h : n.Alike m) : m.key? = n.key? := by
  obtain ⟨op, parents, children, arity, layer⟩ := n
  obtain ⟨op', parents', children', arity', layer'⟩ := m
  obtain ⟨rfl, rfl, rfl⟩ := h
  rfl

/-- The second table has the nodes of the first, but for their links, and one more. -/
structure Gains (nodes nodes' : Table NodeId (Node kind)) (q : NodeId) (node : Node kind) : Prop where
  fresh : nodes.get? q = none
  new : nodes'.get? q = some node
  old : ∀ {p n}, nodes.get? p = some n → ∃ n', nodes'.get? p = some n' ∧ n.Alike n'
  back : ∀ {p n'}, nodes'.get? p = some n' → (p = q ∧ n' = node) ∨
    ∃ n, nodes.get? p = some n ∧ n.Alike n'

namespace Blueprint

variable {b : Blueprint kind} {op : Operator kind} {parents : List NodeId} {arity : Nat}
  {c : Catalog kind} {node : Node kind} {key : Option NodeKey}

theorem gains_attached (h : Ordered c.nodes)
    (hparents : ∀ p ∈ node.parents, ∃ m, c.nodes.get? p = some m) (key : Option NodeKey) :
    Gains c.nodes (attached c key node).nodes c.nextId node := by
  refine ⟨h.get?_nextId, get?_attached_new h hparents key, fun {p n} hn => ?_, fun {p n'} hn' => ?_⟩
  · exact ⟨_, get?_attached_old h hparents key hn, rfl, rfl, rfl⟩
  · rcases of_get?_attached h hparents key hn' with ⟨rfl, rfl⟩ | ⟨n, hn, rfl⟩
    · exact .inl ⟨rfl, rfl⟩
    · exact .inr ⟨n, hn, rfl, rfl, rfl⟩

/-- Links are no matter of keys. -/
theorem catalog_keys_attached (c : Catalog kind) (key : Option NodeKey) (node : Node kind) :
    (attached c key node).keys = (c.add key node).keys := by
  unfold attached
  generalize c.add key node = c'
  induction sides node.parents generalizing c' with
  | nil => rfl
  | cons e rest ih => exact ih _

theorem widthOf_eq {p : NodeId} {n : Node kind} (hn : b.catalog.nodes.get? p = some n) :
    b.widthOf p = n.arity := by
  simp [widthOf, arityOf?, hn]

theorem widthOf_gains {q : NodeId} (h : Gains b.catalog.nodes c.nodes q node)
    (hparents : ∀ p ∈ parents, ∃ m, b.catalog.nodes.get? p = some m) :
    parents.map ({ b with catalog := c } : Blueprint kind).widthOf = parents.map b.widthOf := by
  refine List.map_congr_left fun p hp => ?_
  obtain ⟨m, hm⟩ := hparents p hp
  obtain ⟨m', hm', -, -, harity⟩ := h.old hm
  rw [widthOf_eq hm, widthOf_eq (b := { b with catalog := c }) hm', harity]

/-- A new node is as canonical as the others. -/
theorem Canonical.attached (h : b.Canonical fs) (ho : Ordered b.catalog.nodes)
    (hparents : ∀ p ∈ node.parents, ∃ m, b.catalog.nodes.get? p = some m)
    (hkey : node.key? = .ok key) (huses : node.operator.Uses fs)
    (hresolved : node.operator = b.resolve node.operator.blind)
    (htyped : ∀ {type includeUnassigned visibility},
      node.operator = .source type includeUnassigned visibility → type ∈ b.resolved)
    (hsized : ∀ {w}, node.operator.width (node.parents.map b.widthOf) = some w → node.arity = w) :
    Canonical fs { b with catalog := attached b.catalog key node } := by
  have hgains := gains_attached ho hparents key
  constructor
  · intro k p hp
    rw [catalog_keys_attached] at hp
    have hcases : (k = key.getD k ∧ key.isSome = true ∧ p = b.catalog.nextId) ∨
        b.catalog.keys.get? k = some p := by
      cases key with
      | none => exact .inr hp
      | some key =>
        rw [show (b.catalog.add (some key) node).keys.get? k = _ from Table.get?_insert _ _ _ _] at hp
        split at hp
        · next he => exact .inl ⟨he.symm, rfl, (Option.some.inj hp).symm⟩
        · exact .inr hp
    rcases hcases with ⟨hk, hsome, rfl⟩ | hold
    · refine ⟨node, hgains.new, ?_⟩
      obtain ⟨key, rfl⟩ := Option.isSome_iff_exists.1 hsome
      rw [hkey, hk]
      rfl
    · obtain ⟨n, hn, hkn⟩ := h.found hold
      obtain ⟨n', hn', halike⟩ := hgains.old hn
      exact ⟨n', hn', halike.key?.trans hkn⟩
  · intro p n hn
    rcases hgains.back hn with ⟨rfl, rfl⟩ | ⟨m, hm, hop, -⟩
    · exact huses
    · exact hop ▸ h.uses hm
  · intro p n hn
    rcases hgains.back hn with ⟨rfl, rfl⟩ | ⟨m, hm, hop, -⟩
    · exact hresolved
    · rw [hop]
      exact h.resolved hm
  · intro p n type includeUnassigned visibility hn hsource
    rcases hgains.back hn with ⟨rfl, rfl⟩ | ⟨m, hm, hop, -⟩
    · exact htyped hsource
    · exact h.typed hm (hop ▸ hsource)
  · intro p n w hn hw
    rcases hgains.back hn with ⟨rfl, rfl⟩ | ⟨m, hm, hop, hps, harity⟩
    · rw [widthOf_gains hgains hparents] at hw
      exact hsized hw
    · rw [hop, hps, widthOf_gains hgains fun p hp => (ho.below hm hp).imp fun _ hm => hm.1] at hw
      exact harity.trans (h.sized hm hw)

/-- What pruning keeps of a node is all but links. -/
theorem alike_prune {p : NodeId} {n : Node kind} (hn : b.prune.nodes.get? p = some n) :
    ∃ m, b.catalog.nodes.get? p = some m ∧ m.Alike n := by
  rw [show b.prune.nodes.get? p = _ from Table.get?_mapValues _ _ _, Table.get?_filter] at hn
  obtain ⟨m, hm, rfl⟩ := Option.map_eq_some_iff.1 hn
  exact ⟨m, (Option.filter_eq_some_iff.1 hm).1, rfl, rfl, rfl⟩

/-! ## Declaring -/

variable {b' : Blueprint kind}

theorem Canonical.blank (fs : Functions) : Canonical fs ({} : Blueprint kind) where
  found h := by simp [EmptyCollection.emptyCollection] at h
  uses h := by simp [EmptyCollection.emptyCollection] at h
  resolved h := by simp [EmptyCollection.emptyCollection] at h
  typed h := by simp [EmptyCollection.emptyCollection] at h
  sized h := by simp [EmptyCollection.emptyCollection] at h

theorem blind_resolve (b : Blueprint kind) (op : Operator kind) : (b.resolve op).blind = op.blind := by
  cases op with
  | source type includeUnassigned visibility => cases includeUnassigned <;> rfl
  | _ => rfl

/-- A source is added as if its type had been resolved before. -/
theorem forEach_eq (hopen : b.built = false) (type : FactType) (includeUnassigned : Bool) :
    forEach type includeUnassigned b = addNode (.source type includeUnassigned none) [] 1
      { b with resolved := b.resolved.insert type } := by
  have harity : ¬ ((1 : Nat) = 0 ∨ maxArity < 1) := by decide
  let b₁ : Blueprint kind := { b with resolved := b.resolved.insert type }
  have hadds : addNode (.source type includeUnassigned none) [] 1 b = _ :=
    addNode_of_key hopen harity rfl rfl
  have hadds₁ : addNode (.source type includeUnassigned none) [] 1 b₁ = _ :=
    addNode_of_key (b := b₁) hopen harity rfl rfl
  show (addNode (.source type includeUnassigned none) [] 1 >>= _) b = addNode _ [] 1 b₁
  simp only [bind, StateT.bind]
  rw [hadds, hadds₁]
  dsimp only [b₁]
  cases (some (NodeKey.source type includeUnassigned)).bind b.catalog.keys.get? with
  | some node => rfl
  | none => rfl

theorem forEach_built (h : b.built = true) (type : FactType) (includeUnassigned : Bool) :
    forEach type includeUnassigned b = refuse .alreadyBuilt b := by
  show (addNode (.source type includeUnassigned none) [] 1 >>= _) b = _
  simp only [bind, StateT.bind, addNode_built h]
  rfl

/-- What is canonical is a matter of nodes, of what is registered and of what is resolved. -/
theorem Canonical.of_eq (h : b.Canonical fs) (hcatalog : b'.catalog = b.catalog)
    (hvisibility : b'.visibility = b.visibility) (hresolved : b'.resolved = b.resolved) :
    b'.Canonical fs := by
  obtain ⟨catalog, visibility, resolved, _, _, _, _, _⟩ := b'
  dsimp only at hcatalog hvisibility hresolved
  subst hcatalog
  subst hvisibility
  subst hresolved
  exact ⟨h.found, h.uses, h.resolved, h.typed, h.sized⟩

/-- A node that is asked for is refused, or there, or as canonical as the others. -/
theorem Canonical.addNode (h : b.Canonical fs) (hsound : b.Sound) (hshape : parents.length = op.inputs)
    (huses : op.Uses fs) (hblind : op.blind = op)
    (htyped : ∀ {type includeUnassigned visibility},
      op = .source type includeUnassigned visibility → type ∈ b.resolved)
    (hsized : ∀ {w}, op.width (parents.map b.widthOf) = some w → arity = w) :
    (addNode op parents arity b).2.Canonical fs := by
  cases hopen : b.built with
  | true =>
    rw [addNode_built hopen]
    exact h.of_eq rfl rfl rfl
  | false =>
    by_cases harity : arity = 0 ∨ maxArity < arity
    · rw [addNode_arity hopen harity]
      exact h.of_eq rfl rfl rfl
    · cases hlayer : layerAbove b.catalog.nodes parents 0 with
      | error parent =>
        rw [addNode_foreign hopen harity hlayer]
        exact h.of_eq rfl rfl rfl
      | ok layer =>
        have hthere : ∀ p ∈ parents, ∃ m, b.catalog.nodes.get? p = some m :=
          fun p hp => ((layerAbove_spec hlayer).2 p hp).imp fun _ hm => hm.1
        obtain ⟨key, hkey⟩ := Node.key?_eq_ok (n := { operator := op, parents, arity, layer }) hshape
        rw [addNode_of_key hopen harity hlayer hkey]
        cases key.bind b.catalog.keys.get? with
        | some q => exact h
        | none =>
          refine h.attached hsound.ordered hthere ((b.key?_resolve _).trans hkey) ?_
            (by rw [b.blind_resolve, hblind]) ?_ ?_
          · exact Operator.uses_blind.1 (b.blind_resolve op ▸ Operator.uses_blind.2 huses)
          · intro type includeUnassigned visibility hsource
            have hsame := b.blind_resolve op
            rw [show b.resolve op = _ from hsource, hblind] at hsame
            exact htyped hsame.symm
          · intro w hw
            rw [← Operator.width_blind, b.blind_resolve, Operator.width_blind] at hw
            exact hsized hw

theorem Canonical.withArity {x : Option NodeId} {f : NodeId → Nat → Draft kind (Option NodeId)}
    (h : b.Canonical fs) (hf : ∀ p, (f p (b.widthOf p) b).2.Canonical fs) :
    (withArity x f b).2.Canonical fs := by
  unfold Blueprint.withArity
  cases x with
  | none => exact h
  | some p =>
    simp only [bind, StateT.bind, get, getThe, MonadStateOf.get, StateT.get, pure]
    have hp := hf p
    unfold widthOf at hp
    cases harity : b.arityOf? p with
    | none => exact h
    | some arity =>
      rw [harity] at hp
      exact hp

/-- No source of the type was declared before the visibility of its facts is registered. -/
theorem Canonical.registerVisibility (h : b.Canonical fs) (type : FactType)
    (predicate : Fact → Except Error Bool) : (registerVisibility type predicate b).2.Canonical fs := by
  unfold Blueprint.registerVisibility
  simp only [bind, StateT.bind, get, getThe, MonadStateOf.get, StateT.get, pure]
  split
  · exact h.of_eq rfl rfl rfl
  · next hnew =>
    refine ⟨h.found, h.uses, fun {p n} hn => ?_, h.typed, h.sized⟩
    have hresolved := h.resolved hn
    cases hop : n.operator with
    | source other includeUnassigned visibility =>
      have hne : type ≠ other := by
        rintro rfl
        exact hnew (List.contains_iff_mem.2 (h.typed hn hop))
      rw [hop] at hresolved
      cases includeUnassigned with
      | true => exact hresolved
      | false =>
        have hget := Table.get?_insert b.visibility type other predicate
        rw [if_neg hne] at hget
        exact hresolved.trans (congrArg (Operator.source other false) hget.symm)
    | _ => rfl

theorem Canonical.forEach (h : b.Canonical fs) (hsound : b.Sound) (type : FactType)
    (includeUnassigned : Bool) : (forEach type includeUnassigned b).2.Canonical fs := by
  cases hopen : b.built with
  | true =>
    rw [forEach_built hopen]
    exact h.of_eq rfl rfl rfl
  | false =>
    rw [forEach_eq hopen]
    let op : Operator kind := .source type includeUnassigned none
    refine Canonical.addNode ?_ (hsound.of_eq rfl rfl rfl) (show [].length = op.inputs from rfl) trivial rfl
      ?_ ?_
    · exact ⟨h.found, h.uses, h.resolved,
        fun hn hop => List.mem_insert_of_mem (h.typed hn hop), h.sized⟩
    · rintro _ _ _ ⟨⟩
      exact List.mem_insert_self
    · rintro w ⟨⟩
      rfl

/-- What charges a stream is canonical, and so is the blueprint on which it is entered. -/
theorem Canonical.addConstraint (h : b.Canonical fs) (hsound : b.Sound) (parent : Option NodeId)
    (name : String) (weight : Score kind) (impact : Impact)
    (weigher : Option (Facts → Except Error Int64)) :
    (addConstraint parent name weight impact weigher b).2.Canonical fs := by
  cases parent with
  | none => exact h
  | some p =>
    unfold Blueprint.addConstraint
    simp only [bind, StateT.bind, get, getThe, MonadStateOf.get, StateT.get, pure]
    split
    · exact h.of_eq rfl rfl rfl
    · refine h.withArity fun q => ?_
      let op : Operator kind := .constraint { id := ⟨b.package, name⟩, weight, impact, weigher }
      have hc : (Blueprint.addNode op [q] (b.widthOf q) b).2.Canonical fs :=
        h.addNode hsound (show [q].length = op.inputs from rfl) trivial rfl (by simp [op])
          (by rintro w ⟨⟩; rfl)
      simp only [StateT.bind]
      generalize Blueprint.addNode _ [q] _ b = o at hc ⊢
      obtain ⟨id, b₁⟩ := o
      cases id with
      | none => exact hc
      | some q => exact hc.of_eq rfl rfl rfl

/-- Whom a constraint blames matters to no key, no source and no arity. -/
theorem Canonical.modify (h : b.Canonical fs) (id : NodeId)
    (indicter : Facts → Except Error (List Fact)) :
    Canonical fs { b with catalog := { b.catalog with
      nodes := b.catalog.nodes.modify id (reblame indicter) } } := by
  have hback : ∀ {p n}, (b.catalog.nodes.modify id (reblame indicter)).get? p = some n →
      ∃ m, b.catalog.nodes.get? p = some m ∧ (n = m ∨ ∃ c c', m.operator = .constraint c ∧
        n = { m with operator := .constraint c' }) := by
    intro p n hn
    obtain ⟨m, hm, rfl | rfl⟩ := of_get?_modify hn
    · exact ⟨_, hm, .inl rfl⟩
    · rcases reblame_spec indicter m with ⟨hsame, -⟩ | ⟨c, hc, hnew⟩
      · exact ⟨m, hm, .inl hsame⟩
      · exact ⟨m, hm, .inr ⟨c, _, hc, hnew⟩⟩
  have hwidth : ({ b with catalog := { b.catalog with
      nodes := b.catalog.nodes.modify id (reblame indicter) } } : Blueprint kind).widthOf = b.widthOf := by
    funext p
    unfold widthOf arityOf?
    rw [Table.get?_modify]
    split
    · next he =>
      subst he
      cases b.catalog.nodes.get? id with
      | none => rfl
      | some n => exact reblame_arity indicter n
    · rfl
  constructor
  · intro key p hp
    obtain ⟨n, hn, hkey⟩ := h.found hp
    refine ⟨n, ?_, hkey⟩
    rw [get?_modify_of_some hn]
    rcases reblame_spec indicter n with ⟨hsame, -⟩ | ⟨c, hc, -⟩
    · rw [hsame, ite_self]
    · unfold Node.key? at hkey
      rw [hc] at hkey
      cases hkey
  · intro p n hn
    obtain ⟨m, hm, rfl | ⟨c, c', hc, rfl⟩⟩ := hback hn
    · exact h.uses hm
    · trivial
  · intro p n hn
    obtain ⟨m, hm, rfl | ⟨c, c', hc, rfl⟩⟩ := hback hn
    · exact h.resolved hm
    · rfl
  · intro p n type includeUnassigned visibility hn hop
    obtain ⟨m, hm, rfl | ⟨c, c', hc, rfl⟩⟩ := hback hn
    · exact h.typed hm hop
    · cases hop
  · intro p n w hn hw
    rw [hwidth] at hw
    obtain ⟨m, hm, rfl | ⟨c, c', hc, rfl⟩⟩ := hback hn
    · exact h.sized hm hw
    · refine h.sized (n := m) hm ?_
      rw [hc, Operator.width_constraint c c']
      exact hw

/-- Declarations with handles of known functions keep a blueprint canonical. -/
theorem Canonical.answer (h : b.Canonical fs) (hsound : b.Sound) {d : Declaration kind}
    (hd : d.Uses fs) : (d.answer b).2.Canonical fs := by
  cases d with
  | package name => exact h.of_eq rfl rfl rfl
  | visibility type predicate => exact h.registerVisibility type predicate
  | forEach type includeUnassigned => exact h.forEach hsound type includeUnassigned
  | filter parent predicate | flatten parent items =>
    exact h.withArity fun p => h.addNode hsound rfl hd rfl (by simp) (by rintro w ⟨⟩; rfl)
  | distinct parent =>
    exact h.withArity fun p => h.addNode hsound rfl trivial rfl (by simp) (by rintro w ⟨⟩; rfl)
  | join left right joiners =>
    cases right with
    | none => exact h
    | some r =>
      refine h.withArity fun l => h.withArity fun r => ?_
      split
      · exact h.of_eq rfl rfl rfl
      · exact h.addNode hsound rfl hd rfl (by simp) (by rintro w ⟨⟩; rfl)
  | semijoin left right expected joiners =>
    cases right with
    | none => exact h
    | some r =>
      exact h.withArity fun l => h.addNode hsound rfl hd rfl (by simp) (by rintro w ⟨⟩; rfl)
  | group parent key collector =>
    cases parent with
    | none => exact h
    | some p =>
      show ((if _ then _ else _ : Draft kind (Option NodeId)) b).2.Canonical fs
      split
      · exact h.of_eq rfl rfl rfl
      · exact h.addNode hsound rfl hd rfl (by simp) (by rintro w ⟨⟩; rfl)
  | map parent mapper arity =>
    cases parent with
    | none => exact h
    | some p => exact h.addNode hsound rfl hd rfl (by simp) (by rintro w ⟨⟩)
  | concat left right =>
    cases right with
    | none => exact h
    | some r =>
      refine h.withArity fun l => h.withArity fun r => ?_
      split
      · exact h.of_eq rfl rfl rfl
      · exact h.addNode hsound rfl trivial rfl (by simp) (by rintro w ⟨⟩; rfl)
  | charge parent name weight impact weigher =>
    exact h.addConstraint hsound parent name weight impact weigher
  | indict constraint indicter =>
    cases constraint with
    | none => exact h
    | some id => exact h.modify id indicter

theorem Canonical.declare (h : b.Canonical fs) (hsound : b.Sound) {ds : List (Declaration kind)}
    (hds : ∀ d ∈ ds, d.Uses fs) : (declare ds b).Canonical fs := by
  induction ds generalizing b with
  | nil => exact h
  | cons d rest ih =>
    obtain ⟨hd, hrest⟩ := List.forall_mem_cons.1 hds
    exact ih (d.run_eq b ▸ h.answer hsound hd) (hsound.run d) hrest

end Blueprint

end ConstraintStreams
