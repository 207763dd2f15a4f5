import ConstraintStreams.Proofs.Graph.Canonical
import ConstraintStreams.Proofs.Graph.Script

/-!
# Nodes that are shared

Whatever is found under a key in a canonical blueprint does what was declared. `Blueprint.Unfolds` follows
a script on two blueprints, of which one shares nodes and the other does not: every node of the other does
the same as one of the first, on parents that do the same.
-/

namespace ConstraintStreams

variable {kind : ScoreKind} {fs : Functions}

namespace Blueprint

variable {b : Blueprint kind} {op : Operator kind} {parents : List NodeId} {arity : Nat}
  {c : Catalog kind} {node : Node kind} {key : Option NodeKey}

/-! ## Two blueprints of one script -/

/-- The related nodes, and two more. -/
def Also (R : NodeId → NodeId → Prop) (q q' : NodeId) (p p' : NodeId) : Prop :=
  R p p' ∨ p = q ∧ p' = q'

/-- Related nodes were declared alike, on related parents. Every node of the second blueprint stands for
one of the first, and every constraint has one node only. -/
structure Unfolds (R : NodeId → NodeId → Prop) (b b' : Blueprint kind) : Prop where
  copies : ∀ {p p'}, R p p' → ∃ n n', b.catalog.nodes.get? p = some n ∧
    b'.catalog.nodes.get? p' = some n' ∧ n'.operator = n.operator ∧
    List.Forall₂ R n.parents n'.parents ∧ n'.arity = n.arity
  of_one : ∀ {p q p'}, R p p' → R q p' → p = q
  single : ∀ {p p' q' n c}, R p p' → R p q' → b.catalog.nodes.get? p = some n →
    n.operator = .constraint c → p' = q'
  constraints : List.Forall₂ R b.constraints b'.constraints
  names : ∀ name, Option.Rel R (b.names.get? name) (b'.names.get? name)
  visibility : b'.visibility = b.visibility
  resolved : b'.resolved = b.resolved
  package : b'.package = b.package
  errors : b'.errors = b.errors
  built : b'.built = b.built

theorem optionRel_mono {α β : Type} {R S : α → β → Prop} (hRS : ∀ a b, R a b → S a b) {x : Option α}
    {y : Option β} (h : Option.Rel R x y) : Option.Rel S x y := by
  cases h with
  | none => exact .none
  | some h => exact .some (hRS _ _ h)

theorem optionRel_cases {α β : Type} {R : α → β → Prop} {x : Option α} {y : Option β}
    (h : Option.Rel R x y) : x = none ∧ y = none ∨ ∃ a b, x = some a ∧ y = some b ∧ R a b := by
  cases h with
  | none => exact .inl ⟨rfl, rfl⟩
  | some h => exact .inr ⟨_, _, rfl, rfl, h⟩

variable {R : NodeId → NodeId → Prop} {b' : Blueprint kind} {c' : Catalog kind} {node' : Node kind}
  {q q' : NodeId}

theorem Unfolds.blank : Unfolds (fun _ _ => False) ({} : Blueprint kind) {} where
  copies h := h.elim
  of_one h := h.elim
  single h := h.elim
  constraints := .nil
  names _ := .none
  visibility := rfl
  resolved := rfl
  package := rfl
  errors := rfl
  built := rfl

/-- One more node of the second blueprint stands for a node of the first, which may be new. -/
theorem Unfolds.gain (h : Unfolds R b b')
    (hold : ∀ {p n}, b.catalog.nodes.get? p = some n → ∃ m, c.nodes.get? p = some m ∧ n.Alike m)
    (hgains : Gains b'.catalog.nodes c'.nodes q' node') (hnode : c.nodes.get? q = some node)
    (hop : node'.operator = node.operator) (hparents : List.Forall₂ R node.parents node'.parents)
    (harity : node'.arity = node.arity)
    (hown : ∀ k, node.operator = .constraint k → b.catalog.nodes.get? q = none) :
    Unfolds (Also R q q') { b with catalog := c } { b' with catalog := c' } := by
  have hnew : ∀ {p}, ¬ R p q' := by
    intro p hp
    obtain ⟨-, n', -, hn', -⟩ := h.copies hp
    rw [hgains.fresh] at hn'
    cases hn'
  constructor
  · rintro p p' (hp | ⟨rfl, rfl⟩)
    · obtain ⟨n, n', hn, hn', hop, hparents, harity⟩ := h.copies hp
      obtain ⟨m, hm, hmop, hmparents, hmarity⟩ := hold hn
      obtain ⟨m', hm', hmop', hmparents', hmarity'⟩ := hgains.old hn'
      refine ⟨m, m', hm, hm', by rw [hmop', hop, hmop], ?_, by rw [hmarity', harity, hmarity]⟩
      rw [hmparents, hmparents']
      exact hparents.imp fun _ _ => .inl
    · exact ⟨node, node', hnode, hgains.new, hop, hparents.imp fun _ _ => .inl, harity⟩
  · rintro p q p' (hp | ⟨rfl, rfl⟩) (hq | ⟨rfl, hq⟩)
    · exact h.of_one hp hq
    · exact absurd (hq ▸ hp) hnew
    · exact absurd hq hnew
    · rfl
  · intro p p' p'' n k hp hp' hn hk
    have hfirst : ∀ {p''}, R q p'' → ∀ k, node.operator ≠ .constraint k := by
      intro p'' hp'' k hk
      obtain ⟨n, -, hn, -⟩ := h.copies hp''
      rw [hown k hk] at hn
      cases hn
    rcases hp with hp | ⟨rfl, rfl⟩
    · rcases hp' with hp' | ⟨rfl, rfl⟩
      · obtain ⟨m, -, hm, -⟩ := h.copies hp
        obtain ⟨m', hm', hmop, -⟩ := hold hm
        cases hm'.symm.trans hn
        exact h.single hp hp' hm (hmop ▸ hk)
      · cases hnode.symm.trans hn
        exact absurd hk (hfirst hp k)
    · rcases hp' with hp' | ⟨-, rfl⟩
      · cases hnode.symm.trans hn
        exact absurd hk (hfirst hp' k)
      · rfl
  · exact h.constraints.imp fun _ _ => .inl
  · exact fun name => optionRel_mono (fun _ _ => .inl) (h.names name)
  · exact h.visibility
  · exact h.resolved
  · exact h.package
  · exact h.errors
  · exact h.built

/-- What has come of a declaration on both blueprints: they still go together, and related nodes answer
the declaration, or none at all. -/
def Agree (fs : Functions) (R : NodeId → NodeId → Prop)
    (o o' : Option NodeId × Blueprint kind) : Prop :=
  ∃ S, (∀ p p', R p p' → S p p') ∧ o.2.Canonical fs ∧ Unfolds S o.2 o'.2 ∧ Option.Rel S o.1 o'.1

theorem agree_none (h : b.Canonical fs) (hR : Unfolds R b b') :
    Agree fs R (none, b) (none, b') :=
  ⟨R, fun _ _ => id, h, hR, .none⟩

theorem agree_refuse (h : b.Canonical fs) (hR : Unfolds R b b') (e : Error) :
    Agree fs R (refuse e b) (refuse e b') := by
  refine ⟨R, fun _ _ => id, h.of_eq rfl rfl rfl, ?_, .none⟩
  exact ⟨hR.copies, hR.of_one, hR.single, hR.constraints, hR.names, hR.visibility, hR.resolved,
    hR.package, congrArg (· ++ [e]) hR.errors, hR.built⟩

/-- The parents of a declaration are there on both blueprints. -/
theorem Unfolds.parents_there {parents' : List NodeId} (hR : Unfolds R b b')
    (h : List.Forall₂ R parents parents') :
    (∀ p ∈ parents, ∃ m, b.catalog.nodes.get? p = some m) ∧
      ∀ p ∈ parents', ∃ m, b'.catalog.nodes.get? p = some m := by
  induction h with
  | nil => simp
  | cons hp _ ih =>
    obtain ⟨n, n', hn, hn', -⟩ := hR.copies hp
    exact ⟨List.forall_mem_cons.2 ⟨⟨n, hn⟩, ih.1⟩, List.forall_mem_cons.2 ⟨⟨n', hn'⟩, ih.2⟩⟩

/-- A node declared alike on both blueprints is found or added on the first, and added on the second. -/
theorem agree_addNode {parents' : List NodeId} (h : b.Canonical fs) (hsound : b.Sound)
    (hsound' : b'.Sound) (hR : Unfolds R b b') (hforget : b'.catalog.keys = ∅)
    (hshape : parents.length = op.inputs) (hparents : List.Forall₂ R parents parents')
    (huses : op.Uses fs) (hblind : op.blind = op)
    (htyped : ∀ {type includeUnassigned visibility},
      op = .source type includeUnassigned visibility → type ∈ b.resolved)
    (hsized : ∀ {w}, op.width (parents.map b.widthOf) = some w → arity = w) :
    Agree fs R (addNode op parents arity b) (addNode op parents' arity b') := by
  have hcanonical := h.addNode hsound hshape huses hblind htyped hsized
  cases hopen : b.built with
  | true =>
    rw [addNode_built hopen, addNode_built (hR.built.trans hopen)]
    exact agree_refuse h hR _
  | false =>
    have hopen' := hR.built.trans hopen
    by_cases harity : arity = 0 ∨ maxArity < arity
    · rw [addNode_arity hopen harity, addNode_arity hopen' harity]
      exact agree_refuse h hR _
    · obtain ⟨hthere, hthere'⟩ := hR.parents_there hparents
      have hshape' : parents'.length = op.inputs := hparents.length_eq.symm.trans hshape
      obtain ⟨layer, key, hkey, heq⟩ := addNode_eq hopen harity hshape hthere
      obtain ⟨layer', key', -, heq'⟩ := addNode_eq hopen' harity hshape' hthere'
      have hnone : key'.bind b'.catalog.keys.get? = none := by
        rw [hforget]
        cases key' <;> rfl
      have hresolve : b'.resolve op = b.resolve op := by
        unfold resolve
        rw [hR.visibility]
      rw [heq, heq', hnone, hresolve]
      let node : Node kind := { operator := b.resolve op, parents, arity, layer }
      let node' : Node kind := { node with parents := parents', layer := layer' }
      have hgains' : Gains b'.catalog.nodes (attached b'.catalog key' node').nodes _ node' :=
        gains_attached hsound'.ordered hthere' key'
      cases hfound : key.bind b.catalog.keys.get? with
      | some q =>
        obtain ⟨k, rfl, hk⟩ := Option.bind_eq_some_iff.1 hfound
        obtain ⟨n, hn, hkn⟩ := h.found hk
        obtain ⟨hnparents, hnblind, hnarity⟩ := Node.eq_of_key hkey hkn hshape
          (hsound.ordered.shaped hn) huses (h.uses hn)
        have hnop : n.operator = b.resolve op := by rw [h.resolved hn, hnblind, hblind]
        have hwidth : n.operator.width = op.width := by
          funext widths
          rw [← n.operator.width_blind, hnblind, op.width_blind]
        have hsame : arity = n.arity := by
          cases hw : op.width (parents.map b.widthOf) with
          | some w =>
            refine (hsized hw).trans (h.sized hn ?_).symm
            rw [hwidth, hnparents]
            exact hw
          | none =>
            obtain ⟨mapper, hmapper⟩ := Operator.width_eq_none ((List.length_map _).trans hshape) hw
            exact (hnarity mapper hmapper).symm
        refine ⟨_, fun _ _ => .inl, h, hR.gain (c := b.catalog) (fun hm => ⟨_, hm, rfl, rfl, rfl⟩) hgains' hn
          hnop.symm (hnparents ▸ hparents) hsame fun c hc => ?_, .some (.inr ⟨rfl, rfl⟩)⟩
        unfold Node.key? at hkn
        rw [hc] at hkn
        cases hkn
      | none =>
        have hgains : Gains b.catalog.nodes (attached b.catalog key node).nodes _ node :=
          gains_attached hsound.ordered hthere key
        rw [heq, hfound] at hcanonical
        exact ⟨_, fun _ _ => .inl, hcanonical, hR.gain hgains.old hgains' hgains.new rfl hparents rfl
          fun _ _ => hgains.fresh, .some (.inr ⟨rfl, rfl⟩)⟩

theorem agree_forEach (h : b.Canonical fs) (hsound : b.Sound) (hsound' : b'.Sound)
    (hR : Unfolds R b b') (hforget : b'.catalog.keys = ∅) (type : FactType) (includeUnassigned : Bool) :
    Agree fs R (forEach type includeUnassigned b) (forEach type includeUnassigned b') := by
  cases hopen : b.built with
  | true =>
    rw [forEach_built hopen, forEach_built (hR.built.trans hopen)]
    exact agree_refuse h hR _
  | false =>
    rw [forEach_eq hopen, forEach_eq (hR.built.trans hopen)]
    let op : Operator kind := .source type includeUnassigned none
    refine agree_addNode ?_ (hsound.of_eq rfl rfl rfl) (hsound'.of_eq rfl rfl rfl) ?_ hforget
      (show [].length = op.inputs from rfl) .nil trivial rfl ?_ ?_
    · exact ⟨h.found, h.uses, h.resolved,
        fun hn hop => List.mem_insert_of_mem (h.typed hn hop), h.sized⟩
    · exact ⟨hR.copies, hR.of_one, hR.single, hR.constraints, hR.names, hR.visibility,
        congrArg (List.insert type) hR.resolved, hR.package, hR.errors, hR.built⟩
    · rintro _ _ _ ⟨⟩
      exact List.mem_insert_self
    · rintro w ⟨⟩
      rfl

theorem agree_withArity {x x' : Option NodeId} {f f' : NodeId → Nat → Draft kind (Option NodeId)}
    (h : b.Canonical fs) (hR : Unfolds R b b') (hx : Option.Rel R x x')
    (hf : ∀ p p', R p p' → Agree fs R (f p (b.widthOf p) b) (f' p' (b.widthOf p) b')) :
    Agree fs R (withArity x f b) (withArity x' f' b') := by
  cases hx with
  | none => exact agree_none h hR
  | @some p p' hp =>
    obtain ⟨n, n', hn, hn', -, -, harity⟩ := hR.copies hp
    have hf := hf p p' hp
    unfold withArity
    simp only [bind, StateT.bind, get, getThe, MonadStateOf.get, StateT.get, pure]
    rw [widthOf_eq hn] at hf
    rw [show b.arityOf? p = some n.arity by simp [arityOf?, hn],
      show b'.arityOf? p' = some n.arity by simp [arityOf?, hn', harity]]
    exact hf

/-! ## Declarations on both blueprints -/

theorem agree_registerVisibility (h : b.Canonical fs) (hR : Unfolds R b b') (type : FactType)
    (predicate : Fact → Except Error Bool) :
    Agree fs R (none, (registerVisibility type predicate b).2)
      (none, (registerVisibility type predicate b').2) := by
  refine ⟨R, fun _ _ => id, h.registerVisibility type predicate, ?_, .none⟩
  unfold registerVisibility
  simp only [bind, StateT.bind, get, getThe, MonadStateOf.get, StateT.get, pure]
  rw [hR.resolved]
  split
  · exact ⟨hR.copies, hR.of_one, hR.single, hR.constraints, hR.names, hR.visibility, hR.resolved,
      hR.package, congrArg (· ++ [Error.declaration (.lateVisibility type.name)]) hR.errors, hR.built⟩
  · exact ⟨hR.copies, hR.of_one, hR.single, hR.constraints, hR.names,
      congrArg (Table.insert · type predicate) hR.visibility, rfl, hR.package, hR.errors, hR.built⟩

/-- What is entered under a name that is new on both blueprints. -/
theorem Unfolds.enter (hR : Unfolds R b b') (hq : R q q') (id : ConstraintId) :
    Unfolds R { b with constraints := b.constraints ++ [q], names := b.names.insert id q }
      { b' with constraints := b'.constraints ++ [q'], names := b'.names.insert id q' } where
  copies := hR.copies
  of_one := hR.of_one
  single := hR.single
  constraints := List.rel_append hR.constraints (.cons hq .nil)
  names name := by
    rw [Table.get?_insert, Table.get?_insert]
    split
    · exact .some hq
    · exact hR.names name
  visibility := hR.visibility
  resolved := hR.resolved
  package := hR.package
  errors := hR.errors
  built := hR.built

/-- A name is taken on both blueprints or on none. -/
theorem Unfolds.names_contains (hR : Unfolds R b b') (id : ConstraintId) :
    b'.names.contains id = b.names.contains id := by
  unfold Table.contains
  rcases optionRel_cases (hR.names id) with ⟨hnone, hnone'⟩ | ⟨q, q', hq, hq', -⟩
  · rw [hnone, hnone']
  · rw [hq, hq']
    rfl

theorem agree_addConstraint {x x' : Option NodeId} (h : b.Canonical fs) (hsound : b.Sound)
    (hsound' : b'.Sound) (hR : Unfolds R b b') (hforget : b'.catalog.keys = ∅)
    (hx : Option.Rel R x x') (name : String) (weight : Score kind) (impact : Impact)
    (weigher : Option (Facts → Except Error Int64)) :
    Agree fs R (addConstraint x name weight impact weigher b)
      (addConstraint x' name weight impact weigher b') := by
  cases hx with
  | none => exact agree_none h hR
  | @some p p' hp =>
    unfold addConstraint
    simp only [bind, StateT.bind, get, getThe, MonadStateOf.get, StateT.get, pure]
    rw [hR.package, hR.names_contains]
    split
    · exact agree_refuse h hR _
    · refine agree_withArity h hR (.some hp) fun p p' hp => ?_
      let op : Operator kind := .constraint { id := ⟨b.package, name⟩, weight, impact, weigher }
      have hwidth : ∀ {w}, op.width ([p].map b.widthOf) = some w → b.widthOf p = w := by
        rintro w ⟨⟩
        rfl
      obtain ⟨S, hRS, hc, hS, hrel⟩ := agree_addNode h hsound hsound' hR hforget
        (show [p].length = op.inputs from rfl) (.cons hp .nil) trivial rfl (by simp [op]) hwidth
      simp only [StateT.bind]
      generalize addNode _ [p] _ b = o at hc hS hrel ⊢
      generalize addNode _ [p'] _ b' = o' at hS hrel ⊢
      obtain ⟨id, b₁⟩ := o
      obtain ⟨id', b₁'⟩ := o'
      cases hrel with
      | none => exact ⟨S, hRS, hc, hS, .none⟩
      | some hq =>
        exact ⟨S, hRS, hc.of_eq rfl rfl rfl, hS.enter hq _, .some hq⟩

theorem reblame_congr (indicter : Facts → Except Error (List Fact)) {n n' : Node kind}
    (h : n'.operator = n.operator) :
    (reblame indicter n').operator = (reblame indicter n).operator := by
  unfold reblame
  rw [h]
  split
  · rfl
  · exact h

theorem Unfolds.modify {id id' : NodeId} (hR : Unfolds R b b') (hid : R id id')
    (indicter : Facts → Except Error (List Fact)) :
    Unfolds R
      { b with catalog := { b.catalog with nodes := b.catalog.nodes.modify id (reblame indicter) } }
      { b' with catalog := { b'.catalog with nodes := b'.catalog.nodes.modify id' (reblame indicter) } }
      := by
  refine ⟨fun {p p'} hp => ?_, hR.of_one, fun {p p' q' n c} hp hp' hn hc => ?_, hR.constraints,
    hR.names, hR.visibility, hR.resolved, hR.package, hR.errors, hR.built⟩
  · obtain ⟨n, n', hn, hn', hop, hparents, harity⟩ := hR.copies hp
    refine ⟨_, _, get?_modify_of_some hn id _, get?_modify_of_some hn' id' _, ?_⟩
    by_cases hq : id = p
    · subst hq
      by_cases hq' : id' = p'
      · rw [if_pos rfl, if_pos hq', reblame_parents, reblame_parents, reblame_arity, reblame_arity]
        exact ⟨reblame_congr indicter hop, hparents, harity⟩
      · -- The node has more copies than one, so it is no constraint.
        have hsame : reblame indicter n = n := by
          rcases reblame_spec indicter n with ⟨hsame, -⟩ | ⟨c, hc, -⟩
          · exact hsame
          · exact absurd (hR.single hid hp hn hc) hq'
        rw [if_pos rfl, if_neg hq', hsame]
        exact ⟨hop, hparents, harity⟩
    · have hq' : id' ≠ p' := by
        rintro rfl
        exact hq (hR.of_one hid hp)
      rw [if_neg hq, if_neg hq']
      exact ⟨hop, hparents, harity⟩
  · obtain ⟨m, hm, rfl | rfl⟩ := of_get?_modify hn
    · exact hR.single hp hp' hm hc
    · rcases reblame_spec indicter m with ⟨hsame, -⟩ | ⟨k, hk, -⟩
      · exact hR.single hp hp' hm (hsame ▸ hc)
      · exact hR.single hp hp' hm hk

theorem agree_answer (h : b.Canonical fs) (hsound : b.Sound) (hsound' : b'.Sound)
    (hR : Unfolds R b b') (hforget : b'.catalog.keys = ∅) {σ σ' : NodeId → Option NodeId}
    (hσ : ∀ number, Option.Rel R (σ number) (σ' number)) {d : Declaration kind} (hd : d.Uses fs) :
    Agree fs R ((d.follow σ).answer b) ((d.follow σ').answer b') := by
  have hbind : ∀ stream : Option NodeId, Option.Rel R (stream.bind σ) (stream.bind σ') := by
    intro stream
    cases stream with
    | none => exact .none
    | some number => exact hσ number
  have hadd : ∀ {op : Operator kind} {parents parents' : List NodeId} {arity : Nat},
      parents.length = op.inputs → List.Forall₂ R parents parents' → op.Uses fs → op.blind = op →
      (∀ {type includeUnassigned visibility}, op ≠ .source type includeUnassigned visibility) →
      (∀ {w}, op.width (parents.map b.widthOf) = some w → arity = w) →
      Agree fs R (addNode op parents arity b) (addNode op parents' arity b') :=
    fun hshape hparents huses hblind hsource hsized => agree_addNode h hsound hsound' hR hforget hshape
      hparents huses hblind (fun hop => absurd hop hsource) hsized
  cases d with
  | package name =>
    refine ⟨R, fun _ _ => id, h.of_eq rfl rfl rfl, ?_, .none⟩
    exact ⟨hR.copies, hR.of_one, hR.single, hR.constraints, hR.names, hR.visibility, hR.resolved,
      rfl, hR.errors, hR.built⟩
  | visibility type predicate => exact agree_registerVisibility h hR type predicate
  | forEach type includeUnassigned => exact agree_forEach h hsound hsound' hR hforget _ _
  | filter parent predicate =>
    refine agree_withArity h hR (hbind parent) fun p p' hp => ?_
    exact hadd rfl (.cons hp .nil) hd rfl (by simp) (by rintro w ⟨⟩; rfl)
  | flatten parent items =>
    refine agree_withArity h hR (hbind parent) fun p p' hp => ?_
    exact hadd rfl (.cons hp .nil) hd rfl (by simp) (by rintro w ⟨⟩; rfl)
  | distinct parent =>
    refine agree_withArity h hR (hbind parent) fun p p' hp => ?_
    exact hadd rfl (.cons hp .nil) trivial rfl (by simp) (by rintro w ⟨⟩; rfl)
  | join left right joiners =>
    show Agree fs R (join _ _ joiners b) (join _ _ joiners b')
    rcases optionRel_cases (hbind right) with ⟨hnone, hnone'⟩ | ⟨r, r', hr, hr', hrel⟩
    · rw [hnone, hnone']
      exact agree_none h hR
    · rw [hr, hr']
      refine agree_withArity h hR (hbind left) fun l l' hl => ?_
      refine agree_withArity h hR (.some hrel) fun r r' hr => ?_
      split
      · exact agree_refuse h hR _
      · exact hadd rfl (.cons hl (.cons hr .nil)) hd rfl (by simp) (by rintro w ⟨⟩; rfl)
  | semijoin left right expected joiners =>
    show Agree fs R (semijoin _ _ expected joiners b) (semijoin _ _ expected joiners b')
    rcases optionRel_cases (hbind right) with ⟨hnone, hnone'⟩ | ⟨r, r', hr, hr', hrel⟩
    · rw [hnone, hnone']
      exact agree_none h hR
    · rw [hr, hr']
      refine agree_withArity h hR (hbind left) fun l l' hl => ?_
      exact hadd rfl (.cons hl (.cons hrel .nil)) hd rfl (by simp) (by rintro w ⟨⟩; rfl)
  | group parent key collector =>
    show Agree fs R (group _ key collector b) (group _ key collector b')
    rcases optionRel_cases (hbind parent) with ⟨hnone, hnone'⟩ | ⟨p, p', hp, hp', hrel⟩
    · rw [hnone, hnone']
      exact agree_none h hR
    · rw [hp, hp']
      show Agree fs R ((if _ then _ else _ : Draft kind (Option NodeId)) b)
        ((if _ then _ else _ : Draft kind (Option NodeId)) b')
      split
      · exact agree_refuse h hR _
      · exact hadd rfl (.cons hrel .nil) hd rfl (by simp) (by rintro w ⟨⟩; rfl)
  | map parent mapper arity =>
    show Agree fs R (map _ mapper arity b) (map _ mapper arity b')
    rcases optionRel_cases (hbind parent) with ⟨hnone, hnone'⟩ | ⟨p, p', hp, hp', hrel⟩
    · rw [hnone, hnone']
      exact agree_none h hR
    · rw [hp, hp']
      exact hadd rfl (.cons hrel .nil) hd rfl (by simp) (by rintro w ⟨⟩)
  | concat left right =>
    show Agree fs R (concat _ _ b) (concat _ _ b')
    rcases optionRel_cases (hbind right) with ⟨hnone, hnone'⟩ | ⟨r, r', hr, hr', hrel⟩
    · rw [hnone, hnone']
      exact agree_none h hR
    · rw [hr, hr']
      refine agree_withArity h hR (hbind left) fun l l' hl => ?_
      refine agree_withArity h hR (.some hrel) fun r r' hr => ?_
      split
      · exact agree_refuse h hR _
      · exact hadd rfl (.cons hl (.cons hr .nil)) trivial rfl (by simp) (by rintro w ⟨⟩; rfl)
  | charge parent name weight impact weigher =>
    exact agree_addConstraint h hsound hsound' hR hforget (hbind parent) name weight impact weigher
  | indict constraint indicter =>
    show Agree fs R (none, (setIndicter _ indicter b).2) (none, (setIndicter _ indicter b').2)
    rcases optionRel_cases (hbind constraint) with ⟨hnone, hnone'⟩ | ⟨p, p', hp, hp', hrel⟩
    · rw [hnone, hnone']
      exact agree_none h hR
    · rw [hp, hp']
      exact ⟨R, fun _ _ => id, h.modify p indicter, hR.modify hrel indicter, .none⟩

theorem Unfolds.forget (hR : Unfolds R b b') : Unfolds R b b'.forget :=
  ⟨hR.copies, hR.of_one, hR.single, hR.constraints, hR.names, hR.visibility, hR.resolved, hR.package,
    hR.errors, hR.built⟩

end Blueprint

namespace Script

open Blueprint (Canonical Unfolds Agree)

variable {R : NodeId → NodeId → Prop} {script : Script kind} {g : Graph kind}

/-- Streams of one number are related nodes, or none. -/
theorem rel_stream {p p' : Progress kind} (h : List.Forall₂ (Option.Rel R) p.answers p'.answers)
    (number : NodeId) : Option.Rel R (p.stream number) (p'.stream number) := by
  unfold Progress.stream
  generalize number.ordinal = i
  generalize p.answers = answers, p'.answers = answers' at h
  induction h generalizing i with
  | nil => exact .none
  | cons hhead _ ih =>
    cases i with
    | zero => exact hhead
    | succ i => exact ih i

/-- Carried out with sharing and without, a script leads to blueprints that go together. -/
theorem enact_unfolds (hscript : ∀ d ∈ script, d.Uses fs) :
    ∃ R, Unfolds R (enact id script).blueprint (enact Blueprint.forget script).blueprint ∧
      List.Forall₂ (Option.Rel R) (enact id script).answers (enact Blueprint.forget script).answers := by
  unfold enact
  suffices h : ∀ (p p' : Progress kind) R, p.blueprint.Sound → p'.blueprint.Sound →
      p.blueprint.Canonical fs → Unfolds R p.blueprint p'.blueprint →
      List.Forall₂ (Option.Rel R) p.answers p'.answers →
      ∃ S, Unfolds S (script.foldl (Progress.next id) p).blueprint
          (script.foldl (Progress.next Blueprint.forget) p').blueprint ∧
        List.Forall₂ (Option.Rel S) (script.foldl (Progress.next id) p).answers
          (script.foldl (Progress.next Blueprint.forget) p').answers from
    h {} {} _ .blank .blank (.blank fs) .blank .nil
  induction script with
  | nil => exact fun p p' R _ _ _ hR hanswers => ⟨R, hR, hanswers⟩
  | cons d rest ih =>
    intro p p' R hsound hsound' hc hR hanswers
    obtain ⟨S, hRS, hc', hS, hrel⟩ := Blueprint.agree_answer hc hsound hsound'.forget hR.forget rfl
      (rel_stream hanswers) (hscript d List.mem_cons_self)
    refine ih (fun d hd => hscript d (List.mem_cons_of_mem _ hd)) (p.next id d)
      (p'.next Blueprint.forget d) S (hsound.answer _) (hsound'.forget.answer _) hc' hS ?_
    exact List.rel_append (hanswers.imp fun _ _ h => Blueprint.optionRel_mono hRS h) (.cons hrel .nil)

end Script

end ConstraintStreams
