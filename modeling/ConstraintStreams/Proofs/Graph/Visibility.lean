import ConstraintStreams.Proofs.Graph.WellFormed

/-!
# Visibility by type

Users register a test for the facts of one type. Sources have no other predicates than those that were
registered for their type, so what is known of all registered predicates is known of all sources.
-/

namespace ConstraintStreams

/-- A test of the facts of a type, as a predicate on all facts. It fails on facts of other types, and
where it stops the program. -/
def FactType.gate (type : FactType) (accepts : Fact → Except Trap Bool) (fact : Fact) :
    Except Error Bool :=
  if fact.type = type then (accepts fact).mapError .stopped
  else .error (.typeMismatch type.name fact.type.name)

/-- Whatever is wrong with a test, it is not the fault of a search in vain. -/
theorem FactType.poisons_of_gate {type : FactType} {accepts : Fact → Except Trap Bool} {fact : Fact}
    {e : Error} (h : type.gate accepts fact = .error e) : e.poisons = true := by
  unfold gate at h
  split at h
  · cases haccepts : accepts fact with
    | ok visible =>
      rw [haccepts] at h
      cases h
    | error trap =>
      rw [haccepts] at h
      cases h
      rfl
  · cases h
    rfl

/-- Visibility is registered as a test of the facts of its type. -/
def Declaration.Gated {kind : ScoreKind} : Declaration kind → Prop
  | visibility type predicate => ∃ accepts, predicate = type.gate accepts
  | _ => True

/-- Sources show the facts of their type that pass a test. -/
def Graph.Gated {kind : ScoreKind} (g : Graph kind) : Prop :=
  ∀ {p n type includeUnassigned predicate}, g.nodes.get? p = some n →
    n.operator = .source type includeUnassigned (some predicate) →
      ∃ accepts, predicate = type.gate accepts

namespace Blueprint

variable {kind : ScoreKind} {b b' : Blueprint kind} {d : Declaration kind}

/-- The tests that are registered, and those that sources have. -/
structure Gated (b : Blueprint kind) : Prop where
  sound : b.Sound
  registered : ∀ {type predicate}, b.visibility.get? type = some predicate →
    ∃ accepts, predicate = type.gate accepts
  sources : ∀ {p n type includeUnassigned predicate}, b.catalog.nodes.get? p = some n →
    n.operator = .source type includeUnassigned (some predicate) →
      ∃ accepts, predicate = type.gate accepts

theorem Gated.blank : Gated ({} : Blueprint kind) where
  sound := .blank
  registered h := by simp [EmptyCollection.emptyCollection] at h
  sources h := by simp [EmptyCollection.emptyCollection] at h

/-- A source that is added has the predicate that is registered for its type. -/
theorem Gated.sources_attached (h : b.Gated) {n : Node kind} (hn : b.Fits n) (key : Option NodeKey)
    {p : NodeId} {m : Node kind} {type : FactType} {includeUnassigned : Bool}
    {predicate : Fact → Except Error Bool}
    (hm : (attached b.catalog key n).nodes.get? p = some m)
    (hop : m.operator = .source type includeUnassigned (some predicate)) :
    ∃ accepts, predicate = type.gate accepts := by
  rcases hn.of_get? h.sound hm with ⟨-, rfl⟩ | ⟨m₀, hm₀, rfl⟩
  · exact h.registered (hn.gated hop)
  · exact h.sources hm₀ hop

theorem Gated.step (h : b.Gated) (hd : d.Gated) (hsound : b'.Sound) (hstep : Step d b b') :
    b'.Gated := by
  refine ⟨hsound, fun {type predicate} hp => ?_, fun {p n type includeUnassigned predicate} hn hop => ?_⟩
  · cases hstep with
    | gates type' predicate' he _ _ _ hvisibility =>
      subst he
      rw [hvisibility, Table.get?_insert] at hp
      split at hp
      · next ht =>
        subst ht
        cases hp
        exact hd
      · exact h.registered hp
    | stays _ _ _ hvisibility => exact h.registered (hvisibility ▸ hp)
    | adds _ _ _ _ _ _ _ hvisibility => exact h.registered (hvisibility ▸ hp)
    | enters _ _ _ _ _ _ _ _ _ hvisibility => exact h.registered (hvisibility ▸ hp)
    | blames _ _ _ _ _ hvisibility => exact h.registered (hvisibility ▸ hp)
  · cases hstep with
    | stays hcatalog => exact h.sources (hcatalog ▸ hn) hop
    | gates _ _ _ hcatalog => exact h.sources (hcatalog ▸ hn) hop
    | adds key m hfits _ hcatalog => exact h.sources_attached hfits key (hcatalog ▸ hn) hop
    | enters key m c hfits _ _ hcatalog => exact h.sources_attached hfits key (hcatalog ▸ hn) hop
    | blames q indicter hnodes =>
      rw [hnodes] at hn
      obtain ⟨m, hm, rfl | rfl⟩ := of_get?_modify hn
      · exact h.sources hm hop
      · rcases reblame_spec indicter m with ⟨he, -⟩ | ⟨c, -, he⟩
        · exact h.sources hm (he ▸ hop)
        · rw [he] at hop
          cases hop

theorem Gated.declare (h : b.Gated) {ds : List (Declaration kind)} (hds : ∀ d ∈ ds, d.Gated) :
    (Blueprint.declare ds b).Gated := by
  unfold Blueprint.declare
  induction ds generalizing b with
  | nil => exact h
  | cons d rest ih =>
    obtain ⟨hd, hrest⟩ := List.forall_mem_cons.1 hds
    exact ih (h.step hd (h.sound.run d) (d.step b)) hrest

end Blueprint

/-- Where visibility is registered by type, the sources of a built graph test by type. -/
theorem Graph.gated_of_build {kind : ScoreKind} {ds : List (Declaration kind)} {g : Graph kind}
    (hds : ∀ d ∈ ds, d.Gated) (h : (Blueprint.build (Blueprint.declare ds {})).1 = .ok g) :
    g.Gated := by
  have hgated := Blueprint.Gated.blank.declare hds
  intro p n type includeUnassigned predicate hn hop
  rw [Blueprint.eq_prune_of_build h] at hn
  obtain ⟨-, n₀, hn₀, rfl⟩ := Blueprint.of_get?_prune hn
  exact hgated.sources hn₀ hop

end ConstraintStreams
