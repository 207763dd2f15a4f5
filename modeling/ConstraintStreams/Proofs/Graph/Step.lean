import ConstraintStreams.Proofs.Graph.Linking

/-!
# What a declaration does

Whatever is declared, a blueprint changes in one of few ways: its nodes stay as they are, a node is
added above its parents, or a constraint is told whom to blame. `Declaration.outcome` says so once, with
all that is known of the node and of the answer; what holds of every blueprint follows case by case.
-/

namespace ConstraintStreams

/-! ## How many facts the tuples of a node carry -/

/-- The operator makes tuples of so many facts out of tuples of the given sizes, as far as these are
known. How many facts a mapper makes has to be declared. -/
def Operator.Yields {kind : ScoreKind} : Operator kind → List (Option Nat) → Nat → Prop
  | source .., sizes, arity => sizes = [] ∧ arity = 1
  | join _, sizes, arity => ∃ l r, sizes = [some l, some r] ∧ arity = l + r
  | semijoin .., sizes, arity => ∃ r, sizes = [some arity, r]
  | concat, sizes, arity => sizes = [some arity, some arity]
  | group key collector, _, arity => arity = key.toList.length + collector.toList.length
  | map _, _, _ => True
  | filter _, sizes, arity | flatten _, sizes, arity | distinct, sizes, arity
  | constraint _, sizes, arity => sizes = [some arity]

/-- The tuples of a node carry as many facts as a tuple can, and as its operator makes of the tuples of
its parents. -/
structure Node.Measured {kind : ScoreKind} (sizeOf : NodeId → Option Nat) (n : Node kind) : Prop where
  positive : 1 ≤ n.arity
  bounded : n.arity ≤ maxArity
  yields : n.operator.Yields (n.parents.map sizeOf) n.arity

namespace Blueprint

variable {kind : ScoreKind} {b b' : Blueprint kind}

/-! ## Whom a constraint blames -/

/-- The node of a constraint with another choice of whom to blame. -/
def reblame (indicter : Facts → Except Error (List Fact)) (n : Node kind) : Node kind :=
  match n.operator with
  | .constraint c => { n with operator := .constraint { c with indicter := some indicter } }
  | _ => n

theorem reblame_spec (indicter : Facts → Except Error (List Fact)) (n : Node kind) :
    (reblame indicter n = n ∧ n.operator.constraint? = none) ∨
      ∃ c, n.operator = .constraint c ∧ reblame indicter n =
        { n with operator := .constraint { c with indicter := some indicter } } := by
  obtain ⟨op, parents, children, arity, layer⟩ := n
  cases op with
  | constraint c => exact .inr ⟨c, rfl, rfl⟩
  | _ => exact .inl ⟨rfl, rfl⟩

theorem reblame_parents (indicter : Facts → Except Error (List Fact)) (n : Node kind) :
    (reblame indicter n).parents = n.parents := by
  rcases reblame_spec indicter n with ⟨h, -⟩ | ⟨c, -, h⟩ <;> rw [h]

theorem reblame_arity (indicter : Facts → Except Error (List Fact)) (n : Node kind) :
    (reblame indicter n).arity = n.arity := by
  rcases reblame_spec indicter n with ⟨h, -⟩ | ⟨c, -, h⟩ <;> rw [h]

/-- A node of a table of which one node was modified. -/
theorem of_get?_modify {nodes : Table NodeId (Node kind)} {id p : NodeId} {f : Node kind → Node kind}
    {n : Node kind} (h : (nodes.modify id f).get? p = some n) :
    ∃ m, nodes.get? p = some m ∧ (n = m ∨ n = f m) := by
  rw [Table.get?_modify] at h
  split at h
  · next he =>
    subst he
    obtain ⟨m, hm, rfl⟩ := Option.map_eq_some_iff.1 h
    exact ⟨m, hm, .inr rfl⟩
  · exact ⟨n, h, .inl rfl⟩

theorem get?_modify_of_some {nodes : Table NodeId (Node kind)} {p : NodeId} {n : Node kind}
    (hn : nodes.get? p = some n) (id : NodeId) (f : Node kind → Node kind) :
    (nodes.modify id f).get? p = some (if id = p then f n else n) := by
  rw [Table.get?_modify]
  split
  · next he => rw [he, hn]; rfl
  · exact hn

/-! ## Candidates -/

/-- What sources show is decided by the blueprint. -/
def resolve (b : Blueprint kind) : Operator kind → Operator kind
  | .source type false _ => .source type false (b.visibility.get? type)
  | op => op

theorem resolveVisibility_eq (b : Blueprint kind) (n : Node kind) :
    b.resolveVisibility n = { n with operator := b.resolve n.operator } := by
  unfold resolveVisibility
  split
  · next h => rw [h]; rfl
  · next h =>
    obtain ⟨op, parents, children, arity, layer⟩ := n
    have hsame : b.resolve op = op := by
      unfold resolve
      split
      · next type visibility => exact absurd rfl (h type visibility)
      · rfl
    rw [hsame]

theorem inputs_resolve (b : Blueprint kind) (op : Operator kind) :
    (b.resolve op).inputs = op.inputs := by
  unfold resolve
  split <;> rfl

theorem key?_resolve (b : Blueprint kind) (n : Node kind) :
    Node.key? { n with operator := b.resolve n.operator } = n.key? := by
  obtain ⟨op, parents, children, arity, layer⟩ := n
  cases op with
  | source type includeUnassigned visibility => cases includeUnassigned <;> rfl
  | _ => rfl

theorem yields_resolve (b : Blueprint kind) (op : Operator kind) :
    (b.resolve op).Yields = op.Yields := by
  unfold resolve
  split <;> rfl

theorem share_eq {candidate : Node kind} {key : Option NodeKey} (hchildren : candidate.children = [])
    (hkey : candidate.key? = .ok key) (f : Node kind → Node kind) (c : Catalog kind) :
    Catalog.share candidate (fun n => .ok (f n)) c = match key.bind c.keys.get? with
      | some node => .ok ⟨node, false⟩ c
      | none => .ok ⟨c.nextId, true⟩ (c.add key (f candidate)) := by
  unfold Catalog.share
  rw [hchildren, hkey]
  cases hfound : key.bind c.keys.get? with
  | some node =>
    simp [bind, EStateM.bind, liftM, monadLift, MonadLift.monadLift, Action.ofExcept, hfound, pure,
      EStateM.pure]
  | none =>
    simp [bind, EStateM.bind, liftM, monadLift, MonadLift.monadLift, Action.ofExcept, hfound, pure,
      EStateM.pure]
    rfl

/-! ## Adding a node -/

variable {op : Operator kind} {parents : List NodeId} {arity : Nat}

theorem addNode_built (h : b.built = true) : addNode op parents arity b = refuse .alreadyBuilt b := by
  unfold addNode
  simp only [bind, StateT.bind, get, getThe, MonadStateOf.get, StateT.get, pure]
  rw [if_pos h]

theorem addNode_arity (hopen : b.built = false) (harity : arity = 0 ∨ maxArity < arity) :
    addNode op parents arity b = refuse (.declaration (.arity op.name arity maxArity)) b := by
  unfold addNode
  simp only [bind, StateT.bind, get, getThe, MonadStateOf.get, StateT.get, pure]
  rw [if_neg (by simp [hopen]), if_pos harity]

theorem addNode_foreign {parent : NodeId} (hopen : b.built = false)
    (harity : ¬ (arity = 0 ∨ maxArity < arity))
    (hlayer : layerAbove b.catalog.nodes parents 0 = .error parent) :
    addNode op parents arity b = refuse (.declaration (.foreignParent parent)) b := by
  unfold addNode
  simp only [bind, StateT.bind, get, getThe, MonadStateOf.get, StateT.get, pure]
  rw [if_neg (by simp [hopen]), if_neg harity, hlayer]

theorem addNode_of_key {layer : Nat} {key : Option NodeKey} (hopen : b.built = false)
    (harity : ¬ (arity = 0 ∨ maxArity < arity))
    (hlayer : layerAbove b.catalog.nodes parents 0 = .ok layer)
    (hkey : Node.key? { operator := op, parents, arity, layer } = .ok key) :
    addNode op parents arity b = match key.bind b.catalog.keys.get? with
      | some node => (some node, b)
      | none => (some b.catalog.nextId, { b with
          catalog := attached b.catalog key { operator := b.resolve op, parents, arity, layer } }) := by
  unfold addNode
  simp only [bind, StateT.bind, get, getThe, MonadStateOf.get, StateT.get, pure]
  rw [if_neg (by simp [hopen]), if_neg harity, hlayer]
  dsimp only
  rw [share_eq rfl hkey]
  cases key.bind b.catalog.keys.get? with
  | some node => rfl
  | none =>
    rw [resolveVisibility_eq]
    rfl

/-- A node that was not declared before can be added to the blueprint. -/
structure Fits (b : Blueprint kind) (n : Node kind) : Prop where
  layer : layerAbove b.catalog.nodes n.parents 0 = .ok n.layer
  children : n.children = []
  shaped : n.parents.length = n.operator.inputs
  gated : ∀ {type includeUnassigned predicate},
    n.operator = .source type includeUnassigned (some predicate) →
      b.visibility.get? type = some predicate
  measured : n.Measured b.arityOf?

/-- The node of an operator fits where its parents are. -/
theorem fits_resolve {layer : Nat} (hlayer : layerAbove b.catalog.nodes parents 0 = .ok layer)
    (harity : ¬ (arity = 0 ∨ maxArity < arity)) (hshape : parents.length = op.inputs)
    (hgate : ∀ type includeUnassigned predicate, op ≠ .source type includeUnassigned (some predicate))
    (hyields : op.Yields (parents.map b.arityOf?) arity) :
    b.Fits { operator := b.resolve op, parents, arity, layer } := by
  refine ⟨hlayer, rfl, by rw [inputs_resolve]; exact hshape, fun {type includeUnassigned predicate} h => ?_,
    by dsimp only; omega, by dsimp only; omega, by rw [yields_resolve]; exact hyields⟩
  have h' : b.resolve op = .source type includeUnassigned (some predicate) := h
  unfold resolve at h'
  split at h'
  · simp only [Operator.source.injEq] at h'
    obtain ⟨rfl, -, h'⟩ := h'
    exact h'
  · exact absurd h' (hgate _ _ _)

/-- A node is refused, or found under its key, or added, as there is none under its key. -/
theorem addNode_spec (op : Operator kind) (parents : List NodeId) (arity : Nat) (b : Blueprint kind)
    {key : Option NodeKey} (hshape : parents.length = op.inputs)
    (hgate : ∀ type includeUnassigned predicate, op ≠ .source type includeUnassigned (some predicate))
    (hkey : ∀ layer, Node.key? { operator := op, parents, arity, layer } = .ok key)
    (hyields : op.Yields (parents.map b.arityOf?) arity) :
    (∃ e, addNode op parents arity b = refuse e b) ∨
    (∃ k p, key = some k ∧ b.catalog.keys.get? k = some p ∧ addNode op parents arity b = (some p, b)) ∨
    ∃ n, b.Fits n ∧ n.operator = b.resolve op ∧ n.key? = .ok key ∧
      key.bind b.catalog.keys.get? = none ∧
      addNode op parents arity b =
        (some b.catalog.nextId, { b with catalog := attached b.catalog key n }) := by
  by_cases hbuilt : b.built = true
  · exact .inl ⟨_, addNode_built hbuilt⟩
  · have hopen := Bool.eq_false_iff.2 hbuilt
    by_cases harity : arity = 0 ∨ maxArity < arity
    · exact .inl ⟨_, addNode_arity hopen harity⟩
    · cases hlayer : layerAbove b.catalog.nodes parents 0 with
      | error parent => exact .inl ⟨_, addNode_foreign hopen harity hlayer⟩
      | ok layer =>
        have heq := addNode_of_key hopen harity hlayer (hkey layer)
        cases hget : key.bind b.catalog.keys.get? with
        | some p =>
          rw [hget] at heq
          obtain ⟨k, hk, hp⟩ := Option.bind_eq_some_iff.1 hget
          exact .inr (.inl ⟨k, p, hk, hp, heq⟩)
        | none =>
          rw [hget] at heq
          exact .inr (.inr ⟨_, fits_resolve hlayer harity hshape hgate hyields, rfl,
            (b.key?_resolve _).trans (hkey layer), rfl, heq⟩)

end Blueprint

/-- A node with a key charges nothing. -/
theorem Node.constraint?_of_key {kind : ScoreKind} {n : Node kind} {key : NodeKey}
    (h : n.key? = .ok (some key)) : n.operator.constraint? = none := by
  obtain ⟨op, parents, children, arity, layer⟩ := n
  cases op with
  | constraint c => cases h
  | _ => rfl

/-! ## What comes of a declaration -/

open Blueprint

namespace Declaration

variable {kind : ScoreKind}

/-- What a declaration answers, and what it makes of a blueprint. -/
inductive Outcome (d : Declaration kind) (b : Blueprint kind) : Option NodeId × Blueprint kind → Prop
  /-- It is refused, and that is recorded. -/
  | refused (e : Error) : Outcome d b (refuse e b)
  /-- It is skipped: a parent was not given, or is not there to take the arity from. -/
  | skipped : (∀ parents, d.parents? = some parents →
    ∃ p ∈ d.measured, b.catalog.nodes.get? p = none) → Outcome d b (none, b)
  /-- The constraints to come are in another package. -/
  | packed (name : String) : d = package name → Outcome d b (none, { b with package := name })
  /-- The sources to come show fewer facts of a type. -/
  | gated (type : FactType) (predicate : Fact → Except Error Bool) : d = visibility type predicate →
    Outcome d b (none, { b with visibility := b.visibility.insert type predicate })
  /-- A constraint blames other facts. -/
  | blamed (id : NodeId) (indicter : Facts → Except Error (List Fact)) :
    d = indict (some id) indicter → Outcome d b (none, { b with
      catalog := { b.catalog with nodes := b.catalog.nodes.modify id (reblame indicter) } })
  /-- It is answered by the node that is found under its key. -/
  | found {key : NodeKey} {p : NodeId} (resolved : List FactType) : d.key? = some key →
    b.catalog.keys.get? key = some p → Outcome d b (some p, { b with resolved })
  /-- It is answered by a new node, as there is none under its key. -/
  | added {key : NodeKey} (n : Node kind) (resolved : List FactType) : d.key? = some key → b.Fits n →
    n.key? = .ok (some key) → b.catalog.keys.get? key = none →
    Outcome d b (some b.catalog.nextId,
      { b with catalog := attached b.catalog (some key) n, resolved })
  /-- It is answered by a new constraint, under a name that was free. -/
  | entered {parent : Option NodeId} {name : String} {weight : Score kind} {impact : Impact}
    {weigher : Option (Facts → Except Error Int64)} (n : Node kind) :
    d = charge parent name weight impact weigher → b.Fits n →
    n.operator = .constraint { id := ⟨b.package, name⟩, weight, impact, weigher } →
    b.names.get? ⟨b.package, name⟩ = none →
    Outcome d b (some b.catalog.nextId, { b with
      catalog := attached b.catalog none n
      constraints := b.constraints ++ [b.catalog.nextId]
      names := b.names.insert ⟨b.package, name⟩ b.catalog.nextId })

namespace Outcome

variable {d : Declaration kind} {b : Blueprint kind} {op : Operator kind} {parents : List NodeId}
  {arity : Nat} {key : NodeKey}

/-- A declaration without one of its parents is skipped. -/
theorem ungiven (h : d.parents? = none) : d.Outcome b (none, b) :=
  .skipped fun parents hp => by rw [h] at hp; cases hp

/-- An operator is refused, found or added. -/
theorem addNode (hd : d.key? = some key) (hshape : parents.length = op.inputs)
    (hgate : ∀ type includeUnassigned predicate, op ≠ .source type includeUnassigned (some predicate))
    (hkey : ∀ layer, Node.key? { operator := op, parents, arity, layer } = .ok (some key))
    (hyields : op.Yields (parents.map b.arityOf?) arity) :
    d.Outcome b (Blueprint.addNode op parents arity b) := by
  rcases addNode_spec op parents arity b hshape hgate hkey hyields with
    ⟨e, he⟩ | ⟨_, p, ⟨⟩, hp, he⟩ | ⟨n, hn, -, hkey, hnone, he⟩
  · exact he ▸ .refused e
  · exact he ▸ .found b.resolved hd hp
  · exact he ▸ .added n b.resolved hd hn hkey hnone

theorem withArity {parent : Option NodeId} {f : NodeId → Nat → Draft kind (Option NodeId)}
    (hmeasured : ∀ p, parent = some p → p ∈ d.measured) (hgiven : parent = none → d.parents? = none)
    (hf : ∀ p arity, parent = some p → b.arityOf? p = some arity → d.Outcome b (f p arity b)) :
    d.Outcome b (Blueprint.withArity parent f b) := by
  unfold Blueprint.withArity
  cases parent with
  | none => exact ungiven (hgiven rfl)
  | some p =>
    simp only [bind, StateT.bind, get, getThe, MonadStateOf.get, StateT.get, pure]
    cases harity : b.arityOf? p with
    | none => exact .skipped fun _ _ => ⟨p, hmeasured p rfl, Option.map_eq_none_iff.1 harity⟩
    | some arity => exact hf p arity rfl harity

/-- The arities of both parents are looked up, one after the other. -/
theorem withArities {l r : NodeId} {f : NodeId → Nat → NodeId → Nat → Draft kind (Option NodeId)}
    (hmeasured : d.measured = [l, r])
    (hf : ∀ m n, b.arityOf? l = some m → b.arityOf? r = some n → d.Outcome b (f l m r n b)) :
    d.Outcome b (Blueprint.withArity (some l)
      (fun p m => Blueprint.withArity (some r) fun q n => f p m q n) b) := by
  refine withArity (fun p hp => ?_) (fun hnone => ?_) fun p m hp hm => ?_
  · cases hp
    rw [hmeasured]
    exact List.mem_cons_self
  · cases hnone
  · cases hp
    refine withArity (fun q hq => ?_) (fun hnone => ?_) fun q n hq hn => ?_
    · cases hq
      rw [hmeasured]
      exact List.mem_cons_of_mem _ (List.mem_singleton_self _)
    · cases hnone
    · cases hq
      exact hf m n hm hn

/-! ### Declarations that look before they add -/

theorem registerVisibility (type : FactType) (predicate : Fact → Except Error Bool) :
    (Declaration.visibility type predicate).Outcome b
      (none, (Blueprint.registerVisibility type predicate b).2) := by
  unfold Blueprint.registerVisibility
  simp only [bind, StateT.bind, get, getThe, MonadStateOf.get, StateT.get, pure]
  split
  · exact .refused _
  · exact .gated type predicate rfl

theorem forEach (type : FactType) (includeUnassigned : Bool) :
    (Declaration.forEach type includeUnassigned).Outcome b
      (Blueprint.forEach type includeUnassigned b) := by
  unfold Blueprint.forEach
  simp only [bind, StateT.bind, pure]
  rcases addNode_spec (.source type includeUnassigned none) [] 1 b rfl (fun _ _ _ h => by cases h)
    (fun _ => rfl) ⟨rfl, rfl⟩ with ⟨e, he⟩ | ⟨key, p, ⟨⟩, hp, he⟩ | ⟨n, hn, -, hkey, hnone, he⟩
  · rw [he]
    exact .refused e
  · rw [he]
    exact .found _ rfl hp
  · rw [he]
    exact .added n _ rfl hn hkey hnone

theorem join (l r : NodeId) (joiners : List Joiner) :
    (Declaration.join (some l) (some r) joiners).Outcome b
      (Blueprint.join (some l) (some r) joiners b) := by
  unfold Blueprint.join
  refine withArities rfl fun leftArity rightArity hleft hright => ?_
  split
  · exact .refused _
  · exact addNode rfl rfl (fun _ _ _ h => by cases h) (fun _ => rfl)
      ⟨leftArity, rightArity, by simp [hleft, hright], rfl⟩

theorem concat (l r : NodeId) :
    (Declaration.concat (some l) (some r)).Outcome b (Blueprint.concat (some l) (some r) b) := by
  unfold Blueprint.concat
  refine withArities rfl fun leftArity rightArity hleft hright => ?_
  split
  · exact .refused _
  · next hequal =>
    have heq : leftArity = rightArity := Decidable.not_not.1 hequal
    exact addNode rfl rfl (fun _ _ _ h => by cases h) (fun _ => rfl)
      (show _ = _ by simp [hleft, hright, heq])

/-- A constraint is not looked for under a key, only under its name. -/
theorem charge (p : NodeId) (name : String) (weight : Score kind) (impact : Impact)
    (weigher : Option (Facts → Except Error Int64)) :
    (Declaration.charge (some p) name weight impact weigher).Outcome b
      (addConstraint (some p) name weight impact weigher b) := by
  unfold addConstraint
  simp only [bind, StateT.bind, get, getThe, MonadStateOf.get, StateT.get, pure]
  split
  · exact .refused _
  · next hfree =>
    refine withArity (fun q hq => ?_) (fun hnone => ?_) fun q arity hq harity => ?_
    · cases hq
      exact List.mem_singleton_self p
    · cases hnone
    · cases hq
      let c : Constraint kind := { id := ⟨b.package, name⟩, weight, impact, weigher }
      simp only [StateT.bind]
      rcases addNode_spec (.constraint c) [p] arity b rfl (fun _ _ _ h => by cases h)
        (fun _ => rfl) (congrArg (fun size => [size]) harity)
        with ⟨e, he⟩ | ⟨key, _, ⟨⟩, -⟩ | ⟨n, hn, hop, -, -, he⟩
      · rw [he]
        exact .refused e
      · rw [he]
        exact .entered n rfl hn hop (by simpa [Table.contains] using hfree)

end Outcome

end Declaration

open Declaration.Outcome in
/-- That is what comes of every declaration. -/
theorem Declaration.outcome {kind : ScoreKind} (d : Declaration kind) (b : Blueprint kind) :
    d.Outcome b (d.answer b) := by
  cases d with
  | package name => exact .packed name rfl
  | visibility type predicate => exact Outcome.registerVisibility type predicate
  | forEach type includeUnassigned => exact Outcome.forEach type includeUnassigned
  | filter parent predicate | flatten parent items | distinct parent =>
    refine withArity (fun p hp => ?_) (fun hnone => ?_) fun p arity hp harity => ?_
    · rw [hp]
      exact List.mem_singleton_self p
    · rw [hnone]
      rfl
    · subst hp
      exact addNode rfl rfl (fun _ _ _ h => by cases h) (fun _ => rfl) (congrArg (fun size => [size]) harity)
  | join left right joiners =>
    cases right with
    | none => exact ungiven (by cases left <;> rfl)
    | some r =>
      cases left with
      | none => exact ungiven rfl
      | some l => exact Outcome.join l r joiners
  | semijoin left right expected joiners =>
    cases right with
    | none => exact ungiven (by cases left <;> rfl)
    | some r =>
      refine withArity (fun p hp => ?_) (fun hnone => ?_) fun l arity hl harity => ?_
      · rw [hp]
        exact List.mem_singleton_self p
      · rw [hnone]
        rfl
      · subst hl
        exact addNode rfl rfl (fun _ _ _ h => by cases h) (fun _ => rfl)
          ⟨b.arityOf? r, by simp [harity]⟩
  | group parent key collector =>
    cases parent with
    | none => exact ungiven rfl
    | some p =>
      show Outcome _ b ((if _ then _ else _ : Draft kind (Option NodeId)) b)
      split
      · exact .refused _
      · exact addNode rfl rfl (fun _ _ _ h => by cases h) (fun _ => rfl) rfl
  | map parent mapper arity =>
    cases parent with
    | none => exact ungiven rfl
    | some p => exact addNode rfl rfl (fun _ _ _ h => by cases h) (fun _ => rfl) trivial
  | concat left right =>
    cases right with
    | none => exact ungiven (by cases left <;> rfl)
    | some r =>
      cases left with
      | none => exact ungiven rfl
      | some l => exact Outcome.concat l r
  | charge parent name weight impact weigher =>
    cases parent with
    | none => exact ungiven rfl
    | some p => exact Outcome.charge p name weight impact weigher
  | indict constraint indicter =>
    cases constraint with
    | none => exact ungiven rfl
    | some id => exact .blamed id indicter rfl

/-- A charge that is answered has entered a new constraint under its name, which was free. -/
theorem Blueprint.addConstraint_eq_some {kind : ScoreKind} {b : Blueprint kind}
    {parent : Option NodeId} {name : String} {weight : Score kind} {impact : Impact}
    {weigher : Option (Facts → Except Error Int64)} {p : NodeId}
    (h : (addConstraint parent name weight impact weigher b).1 = some p) :
    ∃ n, b.Fits n ∧ n.operator = .constraint { id := ⟨b.package, name⟩, weight, impact, weigher } ∧
      b.names.get? ⟨b.package, name⟩ = none ∧
      addConstraint parent name weight impact weigher b = (some b.catalog.nextId, { b with
        catalog := attached b.catalog none n
        constraints := b.constraints ++ [b.catalog.nextId]
        names := b.names.insert ⟨b.package, name⟩ b.catalog.nextId }) := by
  have houtcome : Declaration.Outcome _ b (addConstraint parent name weight impact weigher b) :=
    (Declaration.charge parent name weight impact weigher).outcome b
  generalize addConstraint parent name weight impact weigher b = r at h houtcome ⊢
  cases houtcome with
  | refused | skipped | packed | gated | blamed => cases h
  | found _ hkey | added _ _ hkey => cases hkey
  | entered n hd hn hop hfree =>
    cases hd
    exact ⟨n, hn, hop, hfree, rfl⟩

/-! ## Steps -/

namespace Blueprint

variable {kind : ScoreKind}

/-- What a declaration may have made of a blueprint. -/
inductive Step (d : Declaration kind) (b : Blueprint kind) : Blueprint kind → Prop
  /-- The nodes stay as they are. -/
  | stays {b' : Blueprint kind} : b'.catalog = b.catalog → b'.constraints = b.constraints →
    b'.names = b.names → b'.visibility = b.visibility → Step d b b'
  /-- The sources to come show fewer facts of a type. -/
  | gates {b' : Blueprint kind} (type : FactType) (predicate : Fact → Except Error Bool) :
    d = .visibility type predicate → b'.catalog = b.catalog → b'.constraints = b.constraints →
    b'.names = b.names → b'.visibility = b.visibility.insert type predicate → Step d b b'
  /-- There is one more node, and it is no constraint. -/
  | adds {b' : Blueprint kind} (key : Option NodeKey) (n : Node kind) : b.Fits n →
    n.operator.constraint? = none → b'.catalog = attached b.catalog key n →
    b'.constraints = b.constraints → b'.names = b.names → b'.visibility = b.visibility → Step d b b'
  /-- There is one more constraint, under a name that was free. -/
  | enters {b' : Blueprint kind} (key : Option NodeKey) (n : Node kind) (c : Constraint kind) :
    b.Fits n → n.operator = .constraint c → b.names.get? c.id = none →
    b'.catalog = attached b.catalog key n → b'.constraints = b.constraints ++ [b.catalog.nextId] →
    b'.names = b.names.insert c.id b.catalog.nextId → b'.visibility = b.visibility → Step d b b'
  /-- A constraint blames other facts. -/
  | blames {b' : Blueprint kind} (id : NodeId) (indicter : Facts → Except Error (List Fact)) :
    b'.catalog.nodes = b.catalog.nodes.modify id (reblame indicter) →
    b'.constraints = b.constraints → b'.names = b.names → b'.visibility = b.visibility → Step d b b'

end Blueprint

/-- Every declaration is a step. -/
theorem Declaration.step {kind : ScoreKind} (d : Declaration kind) (b : Blueprint kind) :
    Step d b (d.run b) := by
  have h := d.outcome b
  rw [d.run_eq]
  generalize d.answer b = r at h
  cases h with
  | refused | skipped | packed => exact .stays rfl rfl rfl rfl
  | gated type predicate hd => exact .gates type predicate hd rfl rfl rfl rfl
  | blamed id indicter => exact .blames id indicter rfl rfl rfl rfl
  | found => exact .stays rfl rfl rfl rfl
  | added n _ _ hn hkey => exact .adds _ n hn (Node.constraint?_of_key hkey) rfl rfl rfl rfl
  | entered n _ hn hop hfree => exact .enters none n _ hn hop hfree rfl rfl rfl rfl

end ConstraintStreams
