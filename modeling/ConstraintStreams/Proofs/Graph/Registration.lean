import Mathlib.Data.List.Induction
import ConstraintStreams.Graph.Stream
import ConstraintStreams.Proofs.Graph.Canonical
import ConstraintStreams.Proofs.Graph.Refusals

/-!
# Registering visibility

A test of the facts of a type has to be registered before the type has a source. `Blueprint.Sources`
says what is known of the sources after some declarations: which there are, and that those that respect
visibility carry the test that is registered for their type. A registration comes too late where any
source of the type was declared, be it one that shows hidden facts too.
-/

namespace ConstraintStreams

open Blueprint

variable {kind : ScoreKind}

namespace Declaration

/-- The source that a declaration asks for: its type, and whether it shows hidden facts too. -/
def opens : Declaration kind → Option (FactType × Bool)
  | forEach type includeUnassigned => some (type, includeUnassigned)
  | _ => none

/-- The test that a declaration registers for a type. -/
def registers (type : FactType) : Declaration kind → Option (Fact → Except Error Bool)
  | visibility other predicate => if other = type then some predicate else none
  | _ => none

end Declaration

namespace Blueprint

variable {b : Blueprint kind} {type : FactType} {all : Bool} {shows : Option (Fact → Except Error Bool)}

/-- There is a source of a type, which shows the facts that satisfy a predicate, or all. -/
def HasSource (b : Blueprint kind) (type : FactType) (all : Bool)
    (shows : Option (Fact → Except Error Bool)) : Prop :=
  ∃ p n, b.catalog.nodes.get? p = some n ∧ n.operator = .source type all shows

/-! ## What is resolved -/

/-- Registering comes too late for a type that has been resolved. -/
theorem registerVisibility_eq (type : FactType) (predicate : Fact → Except Error Bool)
    (b : Blueprint kind) : (registerVisibility type predicate b).2 =
      if type ∈ b.resolved then
        { b with errors := b.errors ++ [.declaration (.lateVisibility type.name)] }
      else { b with visibility := b.visibility.insert type predicate } := by
  unfold registerVisibility
  simp only [bind, StateT.bind, get, getThe, MonadStateOf.get, StateT.get, pure, List.contains_iff_mem]
  split <;> rfl

theorem resolved_addNode (op : Operator kind) (parents : List NodeId) (arity : Nat) (b : Blueprint kind) :
    (addNode op parents arity b).2.resolved = b.resolved := by
  by_cases hbuilt : b.built = true
  · rw [addNode_built hbuilt]
    rfl
  · have hopen := Bool.eq_false_iff.2 hbuilt
    by_cases harity : arity = 0 ∨ maxArity < arity
    · rw [addNode_arity hopen harity]
      rfl
    · cases hlayer : layerAbove b.catalog.nodes parents 0 with
      | error parent =>
        rw [addNode_foreign hopen harity hlayer]
        rfl
      | ok layer =>
        unfold addNode
        simp only [bind, StateT.bind, get, getThe, MonadStateOf.get, StateT.get, pure]
        rw [if_neg hbuilt, if_neg harity, hlayer]
        dsimp only
        generalize Catalog.share _ _ b.catalog = r
        cases r with
        | error e catalog => rfl
        | ok shared catalog =>
          obtain ⟨node, created⟩ := shared
          cases created <;> rfl

theorem resolved_withArity {parent : Option NodeId} {f : NodeId → Nat → Draft kind (Option NodeId)}
    (hf : ∀ id arity, (f id arity b).2.resolved = b.resolved) :
    (withArity parent f b).2.resolved = b.resolved := by
  unfold withArity
  cases parent with
  | none => rfl
  | some id =>
    simp only [bind, StateT.bind, get, getThe, MonadStateOf.get, StateT.get, pure]
    cases b.arityOf? id with
    | none => rfl
    | some arity => exact hf id arity

/-- Only sources resolve their type. -/
theorem resolved_run {d : Declaration kind} (hd : d.opens = none) (b : Blueprint kind) :
    (d.run b).resolved = b.resolved := by
  cases d with
  | package name => rfl
  | visibility type predicate =>
    rw [Declaration.run, registerVisibility_eq]
    split <;> rfl
  | forEach => cases hd
  | filter | flatten | distinct => exact resolved_withArity fun _ _ => resolved_addNode ..
  | join left right joiners =>
    cases right with
    | none => rfl
    | some r =>
      refine resolved_withArity fun l leftArity => resolved_withArity fun r rightArity => ?_
      split
      · rfl
      · exact resolved_addNode ..
  | semijoin left right expected joiners =>
    cases right with
    | none => rfl
    | some r => exact resolved_withArity fun _ _ => resolved_addNode ..
  | group parent key collector =>
    cases parent with
    | none => rfl
    | some p =>
      show ((if _ then _ else _ : Draft kind (Option NodeId)) b).2.resolved = b.resolved
      split
      · rfl
      · exact resolved_addNode ..
  | map parent mapper arity =>
    cases parent with
    | none => rfl
    | some p => exact resolved_addNode ..
  | concat left right =>
    cases right with
    | none => rfl
    | some r =>
      refine resolved_withArity fun l leftArity => resolved_withArity fun r rightArity => ?_
      split
      · rfl
      · exact resolved_addNode ..
  | charge parent name weight impact weigher =>
    cases parent with
    | none => rfl
    | some p =>
      show (addConstraint (some p) name weight impact weigher b).2.resolved = b.resolved
      unfold addConstraint
      simp only [bind, StateT.bind, get, getThe, MonadStateOf.get, StateT.get, pure]
      split
      · rfl
      · refine resolved_withArity fun parent arity => ?_
        simp only [StateT.bind]
        have hadd := resolved_addNode
          (.constraint { id := ⟨b.package, name⟩, weight, impact, weigher }) [parent] arity b
        revert hadd
        rcases addNode (.constraint { id := ⟨b.package, name⟩, weight, impact, weigher }) [parent] arity b
          with ⟨_ | node, b'⟩
        · exact id
        · exact id
  | indict constraint indicter => cases constraint <;> rfl

/-! ## What is declared -/

/-- A new node is the only source that there may be more. -/
theorem hasSource_attached (hsound : b.Sound) {n : Node kind} (hn : b.Fits n) (key : Option NodeKey) :
    HasSource { b with catalog := attached b.catalog key n } type all shows ↔
      b.HasSource type all shows ∨ n.operator = .source type all shows := by
  have hgains := hn.gains hsound key
  constructor
  · rintro ⟨p, m, hm, hop⟩
    rcases hgains.back hm with ⟨rfl, rfl⟩ | ⟨m₀, hm₀, hsame, -⟩
    · exact .inr hop
    · exact .inl ⟨p, m₀, hm₀, hsame ▸ hop⟩
  · rintro (⟨p, m, hm, hop⟩ | hop)
    · obtain ⟨m', hm', hsame, -⟩ := hgains.old hm
      exact ⟨p, m', hm', hsame.trans hop⟩
    · exact ⟨_, n, hgains.new, hop⟩

theorem hasSource_reblame (id : NodeId) (indicter : Facts → Except Error (List Fact)) :
    HasSource { b with
      catalog := { b.catalog with nodes := b.catalog.nodes.modify id (reblame indicter) } } type all shows ↔
        b.HasSource type all shows := by
  constructor
  · rintro ⟨p, n, hn, hop⟩
    obtain ⟨m, hm, rfl | rfl⟩ := of_get?_modify hn
    · exact ⟨p, n, hm, hop⟩
    · rcases reblame_spec indicter m with ⟨he, -⟩ | ⟨c, -, he⟩
      · exact ⟨p, m, hm, he ▸ hop⟩
      · rw [he] at hop
        cases hop
  · rintro ⟨p, n, hn, hop⟩
    refine ⟨p, _, get?_modify_of_some hn id (reblame indicter), ?_⟩
    split
    · rcases reblame_spec indicter n with ⟨he, -⟩ | ⟨c, hc, -⟩
      · rw [he, hop]
      · cases hc.symm.trans hop
    · exact hop

variable {d : Declaration kind} {r : Option NodeId × Blueprint kind}

/-- What declares no source leaves the sources as they are. -/
theorem hasSource_outcome (h : d.Outcome b r) (hsound : b.Sound) (hd : d.opens = none) :
    r.2.HasSource type all shows ↔ b.HasSource type all shows := by
  cases h with
  | refused | skipped | packed | gated | found => exact Iff.rfl
  | blamed id indicter => exact hasSource_reblame id indicter
  | added n resolved hkey hfits hnkey =>
    refine (hasSource_attached hsound hfits _).trans (or_iff_left fun hop => ?_)
    have hsource : n.key? = .ok (some (.source type all)) := by
      unfold Node.key?
      rw [hop]
      rfl
    cases hsource.symm.trans hnkey
    cases d <;> simp [Declaration.key?, Option.bind_eq_some_iff, Declaration.opens] at hkey hd
  | entered n _ hfits hop =>
    refine (hasSource_attached hsound hfits none).trans (or_iff_left fun hsource => ?_)
    cases hop.symm.trans hsource

/-- What declares no source leaves visibility as it is, unless it registers a test. -/
theorem visibility_outcome (h : d.Outcome b r) (hd : ∀ type, d.registers type = none) :
    r.2.visibility = b.visibility := by
  cases h with
  | gated type predicate he =>
    subst he
    have hnone := hd type
    rw [Declaration.registers, if_pos rfl] at hnone
    cases hnone
  | _ => rfl

theorem built_outcome (h : d.Outcome b r) : r.2.built = b.built := by
  cases h <;> rfl

/-! ## The sources after some declarations -/

/-- After some declarations there are the sources that were declared. What they show is decided: those
that respect visibility show what is registered for their type, and it is too late to change that. -/
structure Sources (ds : List (Declaration kind)) (b : Blueprint kind) : Prop where
  sound : b.Sound
  consed : b.catalog.Consed
  isOpen : b.built = false
  declared : ∀ {type all}, (∃ d ∈ ds, d.opens = some (type, all)) ↔ ∃ shows, b.HasSource type all shows
  decided : ∀ {type all shows}, b.HasSource type all shows →
    shows = if all then none else b.visibility.get? type
  resolved : ∀ {type}, type ∈ b.resolved ↔ ∃ all shows, b.HasSource type all shows

theorem Sources.blank : Sources [] ({} : Blueprint kind) where
  sound := .blank
  consed := consed_blank
  isOpen := rfl
  declared {type all} := by
    simp [HasSource, EmptyCollection.emptyCollection]
  decided h := by
    obtain ⟨p, n, hn, -⟩ := h
    cases hn
  resolved {type} := by
    simp [HasSource, EmptyCollection.emptyCollection]

variable {ds : List (Declaration kind)}

/-- What is found under the key of a source is one. -/
theorem source_of_key {n : Node kind} (h : n.key? = .ok (some (.source type all))) :
    ∃ shows, n.operator = .source type all shows := by
  obtain ⟨op, parents, children, arity, layer⟩ := n
  cases op <;> simp [Node.key?, except_bind_eq_ok, pure, Except.pure] at h ⊢
  exact h

/-- The operator of a source that is declared. -/
theorem resolve_source (b : Blueprint kind) (type : FactType) (all : Bool) :
    b.resolve (.source type all none) =
      .source type all (if all then none else b.visibility.get? type) := by
  cases all <;> rfl

/-- A source that is declared is there, with what is registered for its type. -/
theorem forEach_sources (h : Sources ds b) (type : FactType) (all : Bool) :
    (forEach type all b).2.resolved = b.resolved.insert type ∧
      (forEach type all b).2.visibility = b.visibility ∧
      ∀ {type' all' shows}, (forEach type all b).2.HasSource type' all' shows ↔
        b.HasSource type' all' shows ∨
          type' = type ∧ all' = all ∧ shows = if all then none else b.visibility.get? type := by
  have harity : ¬ ((1 : Nat) = 0 ∨ maxArity < 1) := by decide
  let b₁ : Blueprint kind := { b with resolved := b.resolved.insert type }
  have hadds : addNode (.source type all none) [] 1 b₁ = _ :=
    addNode_of_key (b := b₁) h.isOpen harity rfl rfl
  rw [forEach_eq h.isOpen, hadds]
  dsimp only [Option.bind_some, b₁]
  cases hkey : b.catalog.keys.get? (.source type all) with
  | some p =>
    refine ⟨rfl, rfl, (or_iff_left_of_imp ?_).symm⟩
    rintro ⟨htype, hall, hshows⟩
    obtain ⟨n, hn, hnkey⟩ := (h.consed _ p).1 hkey
    obtain ⟨shows, hop⟩ := source_of_key hnkey
    have hsource : b.HasSource type all shows := ⟨p, n, hn, hop⟩
    rw [htype, hall, hshows, ← h.decided hsource]
    exact hsource
  | none =>
    have hfits : b₁.Fits { operator := b₁.resolve (.source type all none), parents := [], arity := 1, layer := 0 } :=
      fits_resolve rfl harity rfl (fun _ _ _ he => by cases he) ⟨rfl, rfl⟩
    refine ⟨rfl, rfl, fun {type' all' shows} => (hasSource_attached (b := b₁) ?_ hfits _).trans (or_congr_right ?_)⟩
    · exact h.sound.of_eq rfl rfl rfl
    · rw [resolve_source, Operator.source.injEq]
      exact ⟨fun he => ⟨he.1.symm, he.2.1.symm, he.2.2.symm⟩, fun he => ⟨he.1.symm, he.2.1.symm, he.2.2.symm⟩⟩

/-- What is registered for a type that has a source stays as it is. -/
theorem Sources.visibility_run (h : Sources ds b) (d : Declaration kind) (hsource : b.HasSource type all shows) :
    (d.run b).visibility.get? type = b.visibility.get? type := by
  by_cases hd : ∀ other, d.registers other = none
  · rw [d.run_eq, visibility_outcome (d.outcome b) hd]
  · cases d with
    | visibility other predicate =>
      have hlate : type ∈ b.resolved := h.resolved.2 ⟨all, shows, hsource⟩
      rw [Declaration.run, registerVisibility_eq]
      split
      · rfl
      · next hearly =>
        have hne : other ≠ type := fun he => hearly (he ▸ hlate)
        rw [Table.get?_insert, if_neg hne]
    | _ => exact absurd (fun _ => rfl) hd

/-- That is so after every declaration. -/
theorem Sources.run (h : Sources ds b) (d : Declaration kind) : Sources (ds ++ [d]) (d.run b) := by
  have hsound := h.sound.run d
  have hconsed : (d.run b).catalog.Consed := d.run_eq b ▸ (d.outcome b).consed h.sound h.consed
  have hopen : (d.run b).built = false := d.run_eq b ▸ (built_outcome (d.outcome b)).trans h.isOpen
  cases hd : d.opens with
  | some source =>
    obtain ⟨type, all⟩ := source
    obtain rfl : d = .forEach type all := by
      cases d <;> cases hd
      rfl
    obtain ⟨hresolved, hvisibility, hsources⟩ := forEach_sources h type all
    refine ⟨hsound, hconsed, hopen, ?_, ?_, ?_⟩
    · intro type' all'
      simp only [List.mem_append, List.mem_singleton, or_and_right, exists_or, exists_eq_left, h.declared,
        Declaration.run, hsources, hd, Option.some.injEq, Prod.mk.injEq, exists_and_left, exists_eq,
        and_true]
      exact or_congr_right (and_congr eq_comm eq_comm)
    · intro type' all' shows hsource
      rw [Declaration.run, hvisibility]
      rcases hsources.1 hsource with hold | ⟨rfl, rfl, hshows⟩
      · exact h.decided hold
      · exact hshows
    · intro type'
      rw [Declaration.run, hresolved, List.mem_insert_iff, h.resolved]
      simp only [hsources, exists_or, exists_and_left, exists_eq, and_true]
      exact or_comm
  | none =>
    have hsources {type all shows} : (d.run b).HasSource type all shows ↔ b.HasSource type all shows :=
      d.run_eq b ▸ hasSource_outcome (d.outcome b) h.sound hd
    refine ⟨hsound, hconsed, hopen, ?_, ?_, ?_⟩
    · intro type all
      simp [hsources, ← h.declared, hd]
    · intro type all shows hsource
      rw [h.decided (hsources.1 hsource), h.visibility_run d (hsources.1 hsource)]
    · intro type
      rw [resolved_run hd, h.resolved]
      simp only [hsources]

theorem sources_declare (ds : List (Declaration kind)) : Sources ds (declare ds {}) := by
  induction ds using List.reverseRecOn with
  | nil => exact .blank
  | append_singleton ds d ih =>
    rw [declare, List.foldl_append]
    exact ih.run d

/-- A declaration after which nothing was refused registers what it says. -/
theorem visibility_run (d : Declaration kind) (h : (d.run b).errors = []) (type : FactType) :
    (d.run b).visibility.get? type = (d.registers type).or (b.visibility.get? type) := by
  by_cases hd : ∀ other, d.registers other = none
  · rw [hd, d.run_eq, visibility_outcome (d.outcome b) hd, Option.none_or]
  · cases d with
    | visibility other predicate =>
      rw [Declaration.run, registerVisibility_eq] at h ⊢
      split at h
      · simp at h
      · next hearly =>
        rw [if_neg hearly, Table.get?_insert, Declaration.registers]
        split <;> rfl
    | _ => exact absurd (fun _ => rfl) hd

/-- Where nothing was refused, what is registered for a type is what was registered last. -/
theorem visibility_declare (ds : List (Declaration kind)) (h : (declare ds {}).errors = [])
    (type : FactType) :
    (declare ds {}).visibility.get? type = (ds.filterMap (·.registers type)).getLast? := by
  induction ds using List.reverseRecOn with
  | nil => rfl
  | append_singleton ds d ih =>
    have hrun : declare (ds ++ [d]) {} = d.run (declare ds {}) := List.foldl_append
    have hbefore : (declare ds ({} : Blueprint kind)).errors = [] := by
      have hkept := errors_kept_declare [d] (declare ds {})
      rw [show declare [d] (declare ds {}) = _ from hrun.symm, h] at hkept
      exact List.prefix_nil.1 hkept
    rw [hrun] at h ⊢
    rw [visibility_run d h, ih hbefore, List.filterMap_append, List.getLast?_append]
    cases hd : d.registers type <;> simp [hd]

end Blueprint

/-! ## Statements -/

/-- What users state: a declaration, or one of those that declare a source of their own on the way. -/
inductive Statement (kind : ScoreKind)
  | declare (d : Declaration kind)
  | uniquePair (type : FactType) (joiners : List Joiner)
  | other {arity : Nat} (stream : TupleStream arity) (type : FactType) (expected includeUnassigned : Bool)
      (joiners : List Joiner)

namespace Statement

/-- The blueprint after a statement. -/
def run (b : Blueprint kind) : Statement kind → Blueprint kind
  | declare d => d.run b
  | uniquePair type joiners => (TupleStream.forEachUniquePair type joiners b).2
  | other stream type expected includeUnassigned joiners =>
    (stream.semijoinOther type expected includeUnassigned joiners b).2

/-- The source that a statement asks for. -/
def opens : Statement kind → Option (FactType × Bool)
  | declare d => d.opens
  | uniquePair type _ => some (type, false)
  | other _ type _ includeUnassigned _ => some (type, includeUnassigned)

/-- The test that a statement registers for a type. -/
def registers (type : FactType) : Statement kind → Option (Fact → Except Error Bool)
  | declare d => d.registers type
  | _ => none

/-- The declarations that a statement comes to. -/
def declarations (b : Blueprint kind) : Statement kind → List (Declaration kind)
  | declare d => [d]
  | uniquePair type joiners =>
    let source := (Blueprint.forEach type false b).1
    [.forEach type false, .join source source (joiners ++ [Joiner.uniquePair type])]
  | other stream type expected includeUnassigned joiners =>
    [.forEach type includeUnassigned, .semijoin stream.node (Blueprint.forEach type includeUnassigned b).1
      expected (joiners ++ [Joiner.otherFact type])]

theorem run_eq (s : Statement kind) (b : Blueprint kind) :
    s.run b = Blueprint.declare (s.declarations b) b := by
  cases s <;> rfl

theorem opens_declarations (s : Statement kind) (b : Blueprint kind) (source : FactType × Bool) :
    (∃ d ∈ s.declarations b, d.opens = some source) ↔ s.opens = some source := by
  cases s <;> simp [declarations, opens, Declaration.opens]

theorem registers_declarations (s : Statement kind) (b : Blueprint kind) (type : FactType) :
    (s.declarations b).filterMap (·.registers type) = (s.registers type).toList := by
  cases s with
  | declare d => cases hd : d.registers type <;> simp [declarations, registers, hd]
  | _ => rfl

end Statement

namespace Blueprint

/-- The blueprint after some statements, the first of which finds it blank. -/
def write (ss : List (Statement kind)) : Blueprint kind := ss.foldl Statement.run {}

/-- Statements come to declarations, of the same sources and tests. -/
theorem exists_declarations (ss : List (Statement kind)) : ∃ ds, write ss = declare ds {} ∧
    (∀ source, (∃ d ∈ ds, d.opens = some source) ↔ ∃ s ∈ ss, s.opens = some source) ∧
    ∀ type, ds.filterMap (·.registers type) = ss.filterMap (·.registers type) := by
  induction ss using List.reverseRecOn with
  | nil => exact ⟨[], rfl, by simp, by simp⟩
  | append_singleton ss s ih =>
    obtain ⟨ds, hds, hopens, hregisters⟩ := ih
    refine ⟨ds ++ s.declarations (write ss), ?_, fun source => ?_, fun type => ?_⟩
    · rw [write, List.foldl_append, declare, List.foldl_append]
      exact (s.run_eq (write ss)).trans (by rw [hds]; rfl)
    · simp only [List.mem_append, or_and_right, exists_or, hopens, s.opens_declarations, List.mem_singleton,
        exists_eq_left]
    · rw [List.filterMap_append, List.filterMap_append, hregisters, s.registers_declarations]
      cases hs : s.registers type <;> simp [hs]

/-- After any statements, there are the sources of a type that were stated. A test for the type is taken
as long as it has none, and refused, which is recorded, once it has one; so it is refused exactly if the
type has a source that respects visibility, unless all its sources show hidden facts too. In a graph that
is built, the sources that respect visibility show what was registered last for their type, or all facts
if nothing was, and those that show hidden facts too test nothing. -/
theorem visibility_registered (ss : List (Statement kind)) (type : FactType)
    (predicate : Fact → Except Error Bool) :
    (∀ all, (∃ shows, (write ss).HasSource type all shows) ↔ ∃ s ∈ ss, s.opens = some (type, all)) ∧
    ((registerVisibility type predicate (write ss)).2.errors =
        (write ss).errors ++ [.declaration (.lateVisibility type.name)] ↔
      ∃ all shows, (write ss).HasSource type all shows) ∧
    ((registerVisibility type predicate (write ss)).2.errors = (write ss).errors ↔
      ¬ ∃ all shows, (write ss).HasSource type all shows) ∧
    (((∃ shows, (write ss).HasSource type true shows) → ∃ shows, (write ss).HasSource type false shows) →
      ((registerVisibility type predicate (write ss)).2.errors =
          (write ss).errors ++ [.declaration (.lateVisibility type.name)] ↔
        ∃ shows, (write ss).HasSource type false shows)) ∧
    ∀ g, (build (write ss)).1 = .ok g → ∀ p n all shows, g.nodes.get? p = some n →
      n.operator = .source type all shows →
        shows = if all then none else (ss.filterMap (·.registers type)).getLast? := by
  obtain ⟨ds, hds, hopens, hregisters⟩ := exists_declarations ss
  have h := hds ▸ sources_declare ds
  have hrefused : (registerVisibility type predicate (write ss)).2.errors =
      (write ss).errors ++ [.declaration (.lateVisibility type.name)] ↔
        ∃ all shows, (write ss).HasSource type all shows := by
    rw [← h.resolved, registerVisibility_eq]
    split
    · next hlate => exact iff_of_true rfl hlate
    · next hearly => exact iff_of_false (fun he => by simp at he) hearly
  refine ⟨fun all => ?_, hrefused, ?_, fun hgated => hrefused.trans ⟨?_, ?_⟩, ?_⟩
  · rw [← h.declared, hopens]
  · rw [← h.resolved, registerVisibility_eq]
    split
    · next hlate => exact iff_of_false (fun he => by simp at he) (not_not_intro hlate)
    · next hearly => exact iff_of_true rfl hearly
  · rintro ⟨_ | _, hsource⟩
    · exact hsource
    · exact hgated hsource
  · exact fun hsource => ⟨false, hsource⟩
  · intro g hg p n all shows hn hop
    have hnone : (write ss).errors = [] := by
      by_contra hsome
      obtain ⟨e, he⟩ := build_of_errors hsome
      cases he.symm.trans hg
    rw [eq_prune_of_build hg] at hn
    obtain ⟨-, n₀, hn₀, rfl⟩ := of_get?_prune hn
    rw [h.decided ⟨p, n₀, hn₀, hop⟩, ← hregisters, hds, visibility_declare ds (hds ▸ hnone)]

/-- A type with a source that shows hidden facts too, and only then a test for it. -/
def testAfterAll : List (Statement .simple) :=
  [.declare (.forEach (.scalar .bool) true), .declare (.visibility (.scalar .bool) fun _ => .ok true),
    .declare (.forEach (.scalar .bool) false),
    .declare (.charge (some ⟨1⟩) "all" (.simple 1) .penalty none),
    .declare (.charge (some ⟨2⟩) "visible" (.simple 1) .penalty none)]

/-- There is no source that would respect visibility when the test comes, but it is refused, and nothing
is built. -/
theorem testAfterAll_refused :
    (¬ ∃ shows, (write (testAfterAll.take 1)).HasSource (.scalar .bool) false shows) ∧
      (write (testAfterAll.take 1)).errors = [] ∧
      (write (testAfterAll.take 2)).errors = [.declaration (.lateVisibility "bool")] ∧
      ∃ e, (build (write testAfterAll)).1 = .error e := by
  refine ⟨fun hsource => ?_, rfl, rfl, _, rfl⟩
  have hnone :=
    (sources_declare [(.forEach (.scalar .bool) true : Declaration .simple)]).declared.2 hsource
  simp [Declaration.opens] at hnone

end Blueprint

end ConstraintStreams
