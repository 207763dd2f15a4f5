import ConstraintStreams.Proofs.Graph.HashConsing

/-!
# Arities

The tuples of a node carry as many facts as its operator makes of those of its parents, and as many as a
tuple can carry. Blueprints keep this from declaration to declaration, pruning keeps it, and the key of a
node says how many facts it has.
-/

namespace ConstraintStreams

variable {kind : ScoreKind}

/-! ## Nodes -/

namespace Node.Measured

variable {n m : Node kind} {sizeOf sizeOf' : NodeId → Option Nat}

/-- A node is measured by its parents alone. -/
theorem congr (h : n.Measured sizeOf) (hsame : ∀ p ∈ n.parents, sizeOf' p = sizeOf p) :
    n.Measured sizeOf' := by
  refine ⟨h.positive, h.bounded, ?_⟩
  rw [List.map_congr_left hsame]
  exact h.yields

/-- Links are no matter of arity. -/
theorem of_alike (h : n.Measured sizeOf) (halike : n.Alike m) : m.Measured sizeOf := by
  obtain ⟨hop, hparents, harity⟩ := halike
  refine ⟨harity ▸ h.positive, harity ▸ h.bounded, ?_⟩
  rw [hop, hparents, harity]
  exact h.yields

/-- Nor is it whom a constraint blames. -/
theorem reblame (h : n.Measured sizeOf) (indicter : Facts → Except Error (List Fact)) :
    (Blueprint.reblame indicter n).Measured sizeOf := by
  rcases Blueprint.reblame_spec indicter n with ⟨he, -⟩ | ⟨c, hop, he⟩
  · rwa [he]
  · have hyields := h.yields
    rw [hop] at hyields
    rw [he]
    exact ⟨h.positive, h.bounded, hyields⟩

end Node.Measured

/-! ## Blueprints -/

namespace Blueprint

variable {b b' : Blueprint kind} {p : NodeId} {n : Node kind} {k : Nat} {d : Declaration kind}

theorem arityOf?_eq (hn : b.catalog.nodes.get? p = some n) : b.arityOf? p = some n.arity := by
  rw [arityOf?, hn]
  rfl

theorem arityOf?_eq_some_iff :
    b.arityOf? p = some k ↔ ∃ n, b.catalog.nodes.get? p = some n ∧ n.arity = k :=
  Option.map_eq_some_iff

/-- All nodes are measured by their parents. -/
def Measured (b : Blueprint kind) : Prop :=
  ∀ p n, b.catalog.nodes.get? p = some n → n.Measured b.arityOf?

/-- The nodes of the first blueprint are there in the second, with as many facts. -/
def Within (b b' : Blueprint kind) : Prop := ∀ p k, b.arityOf? p = some k → b'.arityOf? p = some k

theorem Within.trans {b'' : Blueprint kind} (h : b.Within b') (h' : b'.Within b'') : b.Within b'' :=
  fun p k hp => h' p k (h p k hp)

theorem within_of_gains {q : NodeId} {node : Node kind}
    (h : Gains b.catalog.nodes b'.catalog.nodes q node) : b.Within b' := by
  intro p k hp
  obtain ⟨n, hn, rfl⟩ := arityOf?_eq_some_iff.1 hp
  obtain ⟨n', hn', -, -, harity⟩ := h.old hn
  rw [arityOf?_eq hn', harity]

/-- Declarations take no node away, and change none in what it carries. -/
theorem Step.within (h : Step d b b') (hsound : b.Sound) : b.Within b' := by
  cases h with
  | stays hcatalog | gates _ _ _ hcatalog =>
    intro p k hp
    rwa [arityOf?, hcatalog]
  | adds key _ hfits _ hcatalog | enters key _ _ hfits _ _ hcatalog =>
    exact within_of_gains (hcatalog ▸ hfits.gains hsound key)
  | blames id indicter hnodes =>
    intro p k hp
    obtain ⟨n, hn, rfl⟩ := arityOf?_eq_some_iff.1 hp
    refine arityOf?_eq_some_iff.2 ⟨_, hnodes ▸ get?_modify_of_some hn id _, ?_⟩
    split
    · exact reblame_arity indicter n
    · rfl

/-- The parents of a node carry what they carried. -/
theorem Within.parents (h : b.Within b') (hparents : ∀ p ∈ n.parents, ∃ m, b.catalog.nodes.get? p = some m) :
    ∀ p ∈ n.parents, b'.arityOf? p = b.arityOf? p := by
  intro p hp
  obtain ⟨m, hm⟩ := hparents p hp
  rw [arityOf?_eq hm, h p _ (arityOf?_eq hm)]

theorem Measured.attached (h : b.Measured) (hsound : b.Sound) (hfits : b.Fits n)
    (key : Option NodeKey) (hcatalog : b'.catalog = attached b.catalog key n) : b'.Measured := by
  have hgains : Gains b.catalog.nodes b'.catalog.nodes b.catalog.nextId n :=
    hcatalog ▸ hfits.gains hsound key
  have hwithin := within_of_gains hgains
  intro p m hm
  rcases hgains.back hm with ⟨-, rfl⟩ | ⟨m₀, hm₀, halike⟩
  · exact hfits.measured.congr
      (hwithin.parents hfits.parents)
  · exact ((h p m₀ hm₀).congr
      (hwithin.parents fun q hq => (hsound.ordered.below hm₀ hq).imp fun _ h => h.1)).of_alike halike

/-- Every declaration keeps the nodes measured. -/
theorem Measured.step (h : b.Measured) (hsound : b.Sound) (hstep : Step d b b') : b'.Measured := by
  cases hstep with
  | stays hcatalog | gates _ _ _ hcatalog =>
    intro p n hn
    have hsame : b'.arityOf? = b.arityOf? := by
      funext q
      rw [arityOf?, hcatalog]
      rfl
    rw [hsame]
    exact h p n (hcatalog ▸ hn)
  | adds key _ hfits _ hcatalog | enters key _ _ hfits _ _ hcatalog =>
    exact h.attached hsound hfits key hcatalog
  | blames id indicter hnodes =>
    have hwithin : b.Within b' := Step.within (d := d) (.blames id indicter hnodes ‹_› ‹_› ‹_›) hsound
    intro p n hn
    rw [hnodes] at hn
    obtain ⟨m, hm, hcases⟩ := of_get?_modify hn
    have hmeasured : m.Measured b'.arityOf? := (h p m hm).congr
      (hwithin.parents fun q hq => (hsound.ordered.below hm hq).imp fun _ h => h.1)
    rcases hcases with rfl | rfl
    · exact hmeasured
    · exact hmeasured.reblame indicter

/-- What is known of a blueprint after any declarations. -/
structure Regular (b : Blueprint kind) : Prop where
  sound : b.Sound
  consed : b.catalog.Consed
  measured : b.Measured

namespace Regular

theorem blank : Regular ({} : Blueprint kind) :=
  ⟨.blank, consed_blank, fun _ _ hn => by simp [EmptyCollection.emptyCollection] at hn⟩

theorem answer (h : b.Regular) (d : Declaration kind) : (d.answer b).2.Regular :=
  ⟨h.sound.answer d, (d.outcome b).consed h.sound h.consed,
    h.measured.step h.sound (d.run_eq b ▸ d.step b)⟩

theorem run (h : b.Regular) (d : Declaration kind) : (d.run b).Regular :=
  d.run_eq b ▸ h.answer d

theorem declare (h : b.Regular) (ds : List (Declaration kind)) : (declare ds b).Regular := by
  induction ds generalizing b with
  | nil => exact h
  | cons d rest ih => exact ih (h.run d)

theorem within_answer (h : b.Regular) (d : Declaration kind) : b.Within (d.answer b).2 :=
  Step.within (d.run_eq b ▸ d.step b) h.sound

end Regular

end Blueprint

/-! ## Graphs -/

namespace Graph

/-- The number of facts in the tuples of a node. -/
def arityOf? (g : Graph kind) (p : NodeId) : Option Nat := (g.nodes.get? p).map (·.arity)

theorem arityOf?_eq {g : Graph kind} {p : NodeId} {n : Node kind} (hn : g.nodes.get? p = some n) :
    g.arityOf? p = some n.arity := by
  rw [arityOf?, hn]
  rfl

/-- All nodes are measured by their parents. -/
def Measured (g : Graph kind) : Prop := ∀ p n, g.nodes.get? p = some n → n.Measured g.arityOf?

end Graph

/-- Pruning changes no node in what it carries. -/
theorem Blueprint.arityOf?_prune {b : Blueprint kind} {p : NodeId} {n : Node kind}
    (hn : b.prune.nodes.get? p = some n) : b.arityOf? p = some n.arity := by
  obtain ⟨-, m, hm, rfl⟩ := of_get?_prune hn
  show b.arityOf? p = some m.arity
  exact arityOf?_eq hm

theorem Blueprint.Regular.prune {b : Blueprint kind} (h : b.Regular) : b.prune.Measured := by
  intro p n hn
  obtain ⟨hp, m, hm, rfl⟩ := of_get?_prune hn
  refine ((h.measured p m hm).congr fun q hq => ?_).of_alike ⟨rfl, rfl, rfl⟩
  obtain ⟨c, hc, -⟩ := h.sound.ordered.below hm hq
  rw [arityOf?_eq hc, Graph.arityOf?_eq (get?_prune_of_kept (h.sound.kept_closed hp hm hq) hc)]

/-- Every graph that can be built is measured. -/
theorem Graph.Built.measured {g : Graph kind} (h : g.Built) : g.Measured := by
  obtain ⟨ds, hds⟩ := h
  rw [Blueprint.eq_prune_of_build hds]
  exact (Blueprint.Regular.blank.declare ds).prune

/-! ## Keys -/

/-- The number of facts in the tuples of the node with a key. -/
def NodeKey.arity? (sizeOf : NodeId → Option Nat) : NodeKey → Option Nat
  | source .. => some 1
  | join left right _ => return (← sizeOf left) + (← sizeOf right)
  | group _ key collector => some (key.toList.length + collector.toList.length)
  | map _ _ arity => some arity
  | filter parent _ | flatten parent _ | distinct parent | semijoin parent .. | concat parent _ =>
    sizeOf parent

theorem Node.Measured.arity?_of_key {n : Node kind} {sizeOf : NodeId → Option Nat} {key : NodeKey}
    (h : n.Measured sizeOf) (hkey : n.key? = .ok (some key)) : key.arity? sizeOf = some n.arity := by
  have hyields := h.yields
  obtain ⟨op, parents, children, arity, layer⟩ := n
  cases op with
  | constraint => cases hkey
  | source =>
    cases hkey
    exact congrArg some hyields.2.symm
  | map =>
    cases parents with
    | nil => cases hkey
    | cons p rest =>
      cases hkey
      rfl
  | group key collector =>
    cases parents with
    | nil => cases hkey
    | cons p rest =>
      obtain rfl : arity = key.toList.length + collector.toList.length := hyields
      cases hkey
      cases key <;> cases collector <;> rfl
  | filter | flatten | distinct =>
    obtain ⟨p, rfl, hp⟩ := List.map_eq_singleton_iff.1 hyields
    cases hkey
    exact hp
  | join =>
    obtain ⟨l, r, hsizes, rfl⟩ := hyields
    obtain ⟨p, rest, rfl, hp, hrest⟩ := List.map_eq_cons_iff.1 hsizes
    obtain ⟨q, rfl, hq⟩ := List.map_eq_singleton_iff.1 hrest
    cases hkey
    simp [NodeKey.arity?, hp, hq]
  | semijoin =>
    obtain ⟨r, hsizes⟩ := hyields
    obtain ⟨p, rest, rfl, hp, hrest⟩ := List.map_eq_cons_iff.1 hsizes
    obtain ⟨q, rfl, hq⟩ := List.map_eq_singleton_iff.1 hrest
    cases hkey
    exact hp
  | concat =>
    obtain ⟨p, rest, rfl, hp, hrest⟩ := List.map_eq_cons_iff.1 hyields
    obtain ⟨q, rfl, hq⟩ := List.map_eq_singleton_iff.1 hrest
    cases hkey
    exact hp

/-- What is declared on other streams than by a charge is answered by a node whose key says how many
facts it has. -/
theorem Blueprint.Regular.arityOf?_answer {b : Blueprint kind} {d : Declaration kind} {p : NodeId}
    (h : b.Regular) (hd : d.charges = false) (hp : (d.answer b).1 = some p) :
    ∃ key, d.key? = some key ∧
      (d.answer b).2.arityOf? p = key.arity? (d.answer b).2.arityOf? := by
  obtain ⟨key, n, hkey, hn, hnkey⟩ := (d.outcome b).keyed hp hd h.sound h.consed
  refine ⟨key, hkey, ?_⟩
  rw [arityOf?_eq hn, ((h.answer d).measured p n hn).arity?_of_key hnkey]

end ConstraintStreams
