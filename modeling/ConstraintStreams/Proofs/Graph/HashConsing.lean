import ConstraintStreams.Proofs.Graph.Sharing

/-!
# Sharing is exact

Every node but a constraint is found under its key, and under no other; so no two nodes have the same
key, and declarations are answered by one node exactly if they ask for the same on the same streams.
`Blueprint.sharesExactly` puts together what is known of one declaration and of a run of them.
-/

namespace ConstraintStreams

variable {kind : ScoreKind}

/-! ## Asking for the same -/

/-- Two joiners compare the same functions in the same way. -/
def Joiner.Alike : Joiner → Joiner → Prop
  | indexed left right, indexed left' right' => left.key = left'.key ∧ right.key = right'.key
  | test kind accepts, test kind' accepts' => kind = kind' ∧ accepts.key = accepts'.key
  | _, _ => False

theorem Joiner.alike_iff {j j' : Joiner} : j.Alike j' ↔ j.key = j'.key := by
  cases j <;> cases j' <;> simp [Alike, key]

/-- The joiners of two lists are alike one by one, in the order in which they are listed. -/
theorem Joiner.forall₂_alike {js js' : List Joiner} :
    List.Forall₂ Joiner.Alike js js' ↔ js.map Joiner.key = js'.map Joiner.key := by
  have hkey : Joiner.Alike = fun j j' => j.key = j'.key := by
    funext j j'
    exact propext alike_iff
  rw [hkey, ← List.forall₂_eq_eq_eq, List.forall₂_map_left_iff, List.forall₂_map_right_iff]

/-- The joiners that come with a type are compared by what they are and by that type. -/
theorem Joiner.uniquePair_alike {type type' : FactType} :
    (uniquePair type).Alike (uniquePair type') ↔ type = type' := by
  simp [uniquePair, Alike]

theorem Joiner.otherFact_alike {type type' : FactType} :
    (otherFact type).Alike (otherFact type') ↔ type = type' := by
  simp [otherFact, Alike]

theorem Joiner.not_uniquePair_alike_otherFact (type type' : FactType) :
    ¬ (uniquePair type).Alike (otherFact type') := by
  simp [uniquePair, otherFact, Alike]

namespace Declaration

/-- The second declaration asks for what the first one asks for: the same operator with the same
arguments, functions and collectors being compared by handle, on the same streams. -/
def Repeats : Declaration kind → Declaration kind → Prop
  | forEach type includeUnassigned, forEach type' includeUnassigned' =>
    type = type' ∧ includeUnassigned = includeUnassigned'
  | filter parent predicate, filter parent' predicate' =>
    parent = parent' ∧ predicate.key = predicate'.key
  | join left right joiners, join left' right' joiners' =>
    left = left' ∧ right = right' ∧ List.Forall₂ Joiner.Alike joiners joiners'
  | semijoin left right expected joiners, semijoin left' right' expected' joiners' =>
    left = left' ∧ right = right' ∧ expected = expected' ∧ List.Forall₂ Joiner.Alike joiners joiners'
  | group parent key collector, group parent' key' collector' =>
    parent = parent' ∧ key.map (·.key) = key'.map (·.key) ∧
      collector.map (·.key) = collector'.map (·.key)
  | map parent mapper arity, map parent' mapper' arity' =>
    parent = parent' ∧ mapper.key = mapper'.key ∧ arity = arity'
  | flatten parent items, flatten parent' items' => parent = parent' ∧ items.key = items'.key
  | distinct parent, distinct parent' => parent = parent'
  | concat left right, concat left' right' => left = left' ∧ right = right'
  | _, _ => False

/-- What charges a stream asks for no node that can be shared. -/
theorem charges_of_key? {d : Declaration kind} {key : NodeKey} (h : d.key? = some key) :
    d.charges = false := by
  cases d with
  | charge => cases h
  | _ => rfl

/-- Declarations ask for the same exactly if the nodes that they ask for have the same key. -/
theorem repeats_iff {d d' : Declaration kind} {key : NodeKey} (h : d'.key? = some key) :
    d.Repeats d' ↔ d.key? = some key := by
  cases d' with
  | package | visibility | charge | indict => cases h
  | forEach type includeUnassigned =>
    cases h
    cases d <;> simp [Repeats, key?, Option.bind_eq_some_iff]
  | filter parent predicate =>
    cases parent <;> cases h
    cases d <;> simp [Repeats, key?, Option.bind_eq_some_iff]
  | join left right joiners =>
    cases left <;> cases right <;> cases h
    cases d <;> simp [Repeats, key?, Option.bind_eq_some_iff, Joiner.forall₂_alike]
  | semijoin left right expected joiners =>
    cases left <;> cases right <;> cases h
    cases d <;> simp [Repeats, key?, Option.bind_eq_some_iff, Joiner.forall₂_alike]
  | group parent groupKey collector =>
    cases parent <;> cases h
    cases d <;> simp [Repeats, key?, Option.bind_eq_some_iff]
  | map parent mapper arity =>
    cases parent <;> cases h
    cases d <;> simp [Repeats, key?, Option.bind_eq_some_iff]
  | flatten parent items =>
    cases parent <;> cases h
    cases d <;> simp [Repeats, key?, Option.bind_eq_some_iff]
  | distinct parent =>
    cases parent <;> cases h
    cases d <;> simp [Repeats, key?, Option.bind_eq_some_iff]
  | concat left right =>
    cases left <;> cases right <;> cases h
    cases d <;> simp [Repeats, key?, Option.bind_eq_some_iff]

end Declaration

open Blueprint

/-! ## Keys and nodes -/

/-- Only constraints have no key. -/
theorem Node.constraint?_of_key? {n : Node kind} (h : n.key? = .ok none) :
    n.operator.constraint?.isSome = true := by
  obtain ⟨op, parents, children, arity, layer⟩ := n
  cases op <;> simp [key?, except_bind_eq_ok, pure, Except.pure, Operator.constraint?] at h ⊢

theorem Node.key?_constraint {n : Node kind} {c : Constraint kind} (h : n.operator = .constraint c) :
    n.key? = .ok none := by
  unfold key?
  rw [h]
  rfl

theorem Blueprint.key?_reblame (indicter : Facts → Except Error (List Fact)) (n : Node kind) :
    (reblame indicter n).key? = n.key? := by
  obtain ⟨op, parents, children, arity, layer⟩ := n
  cases op <;> rfl

/-- A node is found under a key exactly if it has that key. -/
def Catalog.Consed (c : Catalog kind) : Prop :=
  ∀ key p, c.keys.get? key = some p ↔ ∃ n, c.nodes.get? p = some n ∧ n.key? = .ok (some key)

/-- So no two nodes have the same key. -/
theorem Catalog.Consed.eq_of_key? {c : Catalog kind} (h : c.Consed) {p q : NodeId} {n m : Node kind}
    {key : NodeKey} (hn : c.nodes.get? p = some n) (hm : c.nodes.get? q = some m)
    (hkey : n.key? = .ok (some key)) (hkey' : m.key? = .ok (some key)) : p = q := by
  have hp := (h key p).2 ⟨n, hn, hkey⟩
  have hq := (h key q).2 ⟨m, hm, hkey'⟩
  exact Option.some.inj (hp.symm.trans hq)

/-- The nodes of a catalog are there still, and have the keys that they had. -/
def Catalog.Remain (c c' : Catalog kind) : Prop :=
  ∀ p n, c.nodes.get? p = some n → ∃ n', c'.nodes.get? p = some n' ∧ n'.key? = n.key?

namespace Blueprint

variable {b b' : Blueprint kind} {d : Declaration kind} {o : Option NodeId} {n : Node kind}
  {key : Option NodeKey} {p q : NodeId}

theorem Fits.gains (hfits : b.Fits n) (h : b.Sound) (key : Option NodeKey) :
    Gains b.catalog.nodes (attached b.catalog key n).nodes b.catalog.nextId n :=
  gains_attached h.ordered hfits.parents key

/-- A node whose key is new is entered under it. -/
theorem consed_attached (h : b.catalog.Consed) (hsound : b.Sound) (hfits : b.Fits n)
    (hkey : n.key? = .ok key) (hfree : key.bind b.catalog.keys.get? = none) :
    (attached b.catalog key n).Consed := by
  have hgains := hfits.gains hsound key
  intro k p
  rw [catalog_keys_attached]
  constructor
  · intro hp
    have hcases : (key = some k ∧ p = b.catalog.nextId) ∨ b.catalog.keys.get? k = some p := by
      cases key with
      | none => exact .inr hp
      | some key =>
        rw [show (b.catalog.add (some key) n).keys.get? k = _ from Table.get?_insert _ _ _ _] at hp
        split at hp
        · next he => exact .inl ⟨congrArg some he, (Option.some.inj hp).symm⟩
        · exact .inr hp
    rcases hcases with ⟨rfl, rfl⟩ | hold
    · exact ⟨n, hgains.new, hkey⟩
    · obtain ⟨m, hm, hmk⟩ := (h k p).1 hold
      obtain ⟨m', hm', halike⟩ := hgains.old hm
      exact ⟨m', hm', halike.key?.trans hmk⟩
  · rintro ⟨m, hm, hmk⟩
    rcases hgains.back hm with ⟨rfl, rfl⟩ | ⟨m₀, hm₀, halike⟩
    · obtain rfl : key = some k := Except.ok.inj (hkey.symm.trans hmk)
      exact (Table.get?_insert _ _ _ _).trans (if_pos rfl)
    · have hold : b.catalog.keys.get? k = some p := (h k p).2 ⟨m₀, hm₀, halike.key?.symm.trans hmk⟩
      cases key with
      | none => exact hold
      | some key =>
        have hne : key ≠ k := by
          rintro rfl
          cases hfree.symm.trans hold
        exact (Table.get?_insert _ _ _ _).trans ((if_neg hne).trans hold)

theorem consed_reblame (h : b.catalog.Consed) (id : NodeId)
    (indicter : Facts → Except Error (List Fact)) :
    Catalog.Consed { b.catalog with nodes := b.catalog.nodes.modify id (reblame indicter) } := by
  intro key p
  rw [h key p]
  constructor
  · rintro ⟨n, hn, hkey⟩
    refine ⟨_, get?_modify_of_some hn id _, ?_⟩
    split
    · exact (key?_reblame indicter n).trans hkey
    · exact hkey
  · rintro ⟨n, hn, hkey⟩
    obtain ⟨m, hm, rfl | rfl⟩ := of_get?_modify hn
    · exact ⟨_, hm, hkey⟩
    · exact ⟨m, hm, (key?_reblame indicter m).symm.trans hkey⟩

end Blueprint

namespace Declaration.Outcome

variable {b : Blueprint kind} {d : Declaration kind} {r : Option NodeId × Blueprint kind} {p : NodeId}

/-- One more declaration leaves every node under its key. -/
theorem consed (h : d.Outcome b r) (hsound : b.Sound) (hb : b.catalog.Consed) :
    r.2.catalog.Consed := by
  cases h with
  | refused | skipped | packed | gated | found => exact hb
  | blamed id indicter => exact consed_reblame hb id indicter
  | added n _ _ hfits hkey hnone => exact consed_attached hb hsound hfits hkey hnone
  | entered n _ hfits hop => exact consed_attached hb hsound hfits (Node.key?_constraint hop) rfl

theorem remain (h : d.Outcome b r) (hsound : b.Sound) : b.catalog.Remain r.2.catalog := by
  have attached {n : Node kind} (hfits : b.Fits n) (key : Option NodeKey) :
      b.catalog.Remain (attached b.catalog key n) := by
    intro p m hm
    obtain ⟨m', hm', halike⟩ := (hfits.gains hsound key).old hm
    exact ⟨m', hm', halike.key?⟩
  cases h with
  | refused | skipped | packed | gated | found => exact fun p n hn => ⟨n, hn, rfl⟩
  | blamed id indicter =>
    intro p n hn
    refine ⟨_, get?_modify_of_some hn id _, ?_⟩
    split
    · exact key?_reblame indicter n
    · rfl
  | added n _ _ hfits => exact attached hfits _
  | entered n _ hfits => exact attached hfits _

/-- What charges nothing is answered by a node with the key that it asks for. -/
theorem keyed (h : d.Outcome b r) (hp : r.1 = some p) (hd : d.charges = false) (hsound : b.Sound)
    (hb : b.catalog.Consed) :
    ∃ key n, d.key? = some key ∧ r.2.catalog.nodes.get? p = some n ∧ n.key? = .ok (some key) := by
  cases h with
  | refused | skipped | packed | gated | blamed => cases hp
  | found _ hkey hget =>
    cases hp
    obtain ⟨n, hn, hnkey⟩ := (hb _ _).1 hget
    exact ⟨_, n, hkey, hn, hnkey⟩
  | added n _ hkey hfits hnkey =>
    cases hp
    exact ⟨_, n, hkey, (hfits.gains hsound _).new, hnkey⟩
  | entered _ he =>
    subst he
    cases hd

/-- A charge makes a node that was not there. -/
theorem fresh (h : d.Outcome b r) (hp : r.1 = some p) (hsound : b.Sound) (hd : d.charges = true) :
    b.catalog.nodes.get? p = none ∧
      ∃ n, r.2.catalog.nodes.get? p = some n ∧ n.operator.constraint?.isSome = true := by
  cases h with
  | refused | skipped | packed | gated | blamed => cases hp
  | found _ hkey | added _ _ hkey => cases hd.symm.trans (charges_of_key? hkey)
  | entered n _ hfits hop =>
    cases hp
    refine ⟨hsound.ordered.get?_nextId, n, (hfits.gains hsound none).new, ?_⟩
    rw [hop]
    rfl

/-- Nothing changes where the node was there before. -/
theorem hit {n : Node kind} (h : d.Outcome b r) (hp : r.1 = some p) (hsound : b.Sound)
    (hn : b.catalog.nodes.get? p = some n) :
    r.2.catalog = b.catalog ∧ r.2.errors = b.errors := by
  cases h with
  | refused | skipped | packed | gated | blamed => cases hp
  | found => exact ⟨rfl, rfl⟩
  | added | entered =>
    cases hp
    cases hsound.ordered.get?_nextId.symm.trans hn

end Declaration.Outcome

/-! ## Runs of declarations -/

namespace Blueprint

variable {b : Blueprint kind} {ds : List (Declaration kind)}

theorem consed_blank : ({} : Blueprint kind).catalog.Consed := by
  intro key p
  simp [EmptyCollection.emptyCollection]

theorem consed_declare (hsound : b.Sound) (h : b.catalog.Consed) (ds : List (Declaration kind)) :
    (declare ds b).catalog.Consed := by
  induction ds generalizing b with
  | nil => exact h
  | cons d rest ih => exact ih (hsound.run d) (d.run_eq b ▸ (d.outcome b).consed hsound h)

theorem remain_declare (hsound : b.Sound) (ds : List (Declaration kind)) :
    b.catalog.Remain (declare ds b).catalog := by
  induction ds generalizing b with
  | nil => exact fun p n hn => ⟨n, hn, rfl⟩
  | cons d rest ih =>
    intro p n hn
    have hstep : b.catalog.Remain (d.run b).catalog := d.run_eq b ▸ (d.outcome b).remain hsound
    obtain ⟨n₁, hn₁, hkey₁⟩ := hstep p n hn
    obtain ⟨n₂, hn₂, hkey₂⟩ := ih (hsound.run d) p n₁ hn₁
    exact ⟨n₂, hn₂, hkey₂.trans hkey₁⟩

/-- Of two declarations that are answered, one after the other, the second is answered by the node of
the first exactly if it asks for the same. -/
theorem answer_eq_iff (hsound : b.Sound) (hb : b.catalog.Consed) {d d' : Declaration kind}
    {between : List (Declaration kind)} {p q : NodeId} (hd : d.charges = false)
    (hd' : d'.charges = false) (hp : (d.answer b).1 = some p)
    (hq : (d'.answer (declare between (d.answer b).2)).1 = some q) : p = q ↔ d.Repeats d' := by
  have hsound₁ : (d.answer b).2.Sound := hsound.answer d
  have hsound₂ := hsound₁.declare between
  have hb₁ := (d.outcome b).consed hsound hb
  have hb₂ := consed_declare hsound₁ hb₁ between
  obtain ⟨key, n, hkey, hn, hnkey⟩ := (d.outcome b).keyed hp hd hsound hb
  obtain ⟨key', m, hkey', hm, hmkey⟩ := (d'.outcome _).keyed hq hd' hsound₂ hb₂
  -- The first node is there still when the second declaration has been answered.
  obtain ⟨n₁, hn₁, hn₁key⟩ := remain_declare hsound₁ between p n hn
  obtain ⟨n₂, hn₂, hn₂key⟩ := (d'.outcome _).remain hsound₂ p n₁ hn₁
  have hp₂ : n₂.key? = .ok (some key) := by rw [hn₂key, hn₁key, hnkey]
  rw [Declaration.repeats_iff hkey', hkey]
  constructor
  · rintro rfl
    cases hn₂.symm.trans hm
    exact Except.ok.inj (hp₂.symm.trans hmkey)
  · rintro hsame
    cases hsame
    exact ((d'.outcome _).consed hsound₂ hb₂).eq_of_key? hn₂ hm hp₂ hmkey

/-- What sharing comes to in a run of declarations on a blank blueprint. -/
structure SharesExactly (ds : List (Declaration kind)) : Prop where
  /-- The cache leads from a key to the node that has it. -/
  cached : ∀ {key p}, (declare ds {}).catalog.keys.get? key = some p ↔
    ∃ n, (declare ds {}).catalog.nodes.get? p = some n ∧ n.key? = .ok (some key)
  /-- Every node but a constraint has a key, which no other node has. -/
  unique : ∀ {p n}, (declare ds {}).catalog.nodes.get? p = some n → n.operator.constraint? = none →
    ∃ key, n.key? = .ok (some key) ∧ ∀ {q m}, (declare ds {}).catalog.nodes.get? q = some m →
      m.key? = .ok (some key) → q = p
  /-- Two declarations are answered by one node exactly if they ask for the same. -/
  same : ∀ {before d between d' after p q}, ds = before ++ d :: (between ++ d' :: after) →
    d.charges = false → d'.charges = false → (d.answer (declare before {})).1 = some p →
    (d'.answer (declare (before ++ d :: between) {})).1 = some q → (p = q ↔ d.Repeats d')
  /-- A charge is answered by a constraint of its own. -/
  fresh : ∀ {before d after p}, ds = before ++ d :: after → d.charges = true →
    (d.answer (declare before {})).1 = some p → (declare before {}).catalog.nodes.get? p = none ∧
      ∃ n, (d.answer (declare before {})).2.catalog.nodes.get? p = some n ∧
        n.operator.constraint?.isSome = true
  /-- Where a node is found that was there before, no node changes, and no error is recorded. -/
  hit : ∀ {before d after p n}, ds = before ++ d :: after →
    (d.answer (declare before {})).1 = some p → (declare before {}).catalog.nodes.get? p = some n →
    (d.answer (declare before {})).2.catalog = (declare before {}).catalog ∧
      (d.answer (declare before {})).2.errors = (declare before {}).errors

/-- Whatever is declared, sharing is exact: nodes are told apart by their keys, and declarations by what
they ask for. The joiners that come with a type are told apart by what they are and by that type. -/
theorem sharesExactly (ds : List (Declaration kind)) :
    SharesExactly ds ∧ ∀ type type',
      ((Joiner.uniquePair type).Alike (.uniquePair type') ↔ type = type') ∧
      ((Joiner.otherFact type).Alike (.otherFact type') ↔ type = type') ∧
      ¬ (Joiner.uniquePair type).Alike (.otherFact type') := by
  have hsound : ∀ ds : List (Declaration kind), (declare ds {}).Sound := fun ds => Sound.blank.declare ds
  have hconsed : ∀ ds : List (Declaration kind), (declare ds {}).catalog.Consed :=
    consed_declare .blank consed_blank
  refine ⟨⟨@fun key p => hconsed ds key p, fun {p n} hn hop => ?_, ?_, ?_, ?_⟩, fun type type' =>
    ⟨Joiner.uniquePair_alike, Joiner.otherFact_alike, Joiner.not_uniquePair_alike_otherFact type type'⟩⟩
  · obtain ⟨key?, hkey⟩ := Node.key?_eq_ok ((hsound ds).ordered.shaped hn)
    cases key? with
    | none =>
      have hconstraint := Node.constraint?_of_key? hkey
      rw [hop] at hconstraint
      cases hconstraint
    | some key => exact ⟨key, hkey, fun hm hmk => (hconsed ds).eq_of_key? hm hn hmk hkey⟩
  · intro before d between d' after p q _ hd hd' hp hq
    have hrun : declare (before ++ d :: between) {} =
        declare between (d.answer (declare before {})).2 := by
      rw [← d.run_eq]
      exact List.foldl_append
    exact answer_eq_iff (hsound before) (hconsed before) hd hd' hp (hrun ▸ hq)
  · exact fun {before d after p} _ hd hp => (d.outcome _).fresh hp (hsound before) hd
  · exact fun {before d after p n} _ hp hn => (d.outcome _).hit hp (hsound before) hn

end Blueprint

end ConstraintStreams
