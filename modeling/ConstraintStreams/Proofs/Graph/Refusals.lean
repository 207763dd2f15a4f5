import ConstraintStreams.Proofs.Graph.HashConsing
import ConstraintStreams.Proofs.Graph.Layout

/-!
# Declarations that are refused

A declaration that cannot be carried out is recorded as an error, with one exception: an operator that
takes its arity from its parent says nothing where that parent is no node of the blueprint.
So a declaration with parents that are there is carried out or recorded, and where building succeeds,
every charge of such a stream has its leaf.
-/

namespace ConstraintStreams

open Blueprint

variable {kind : ScoreKind}

namespace Declaration.Outcome

variable {d : Declaration kind} {b : Blueprint kind} {r : Option NodeId × Blueprint kind}

/-- A declaration that was given its parents has a node or is recorded, if those are there whose arities
it goes by. -/
theorem recorded (h : d.Outcome b r) {parents : List NodeId} (hgiven : d.parents? = some parents)
    (hthere : ∀ p ∈ d.measured, ∃ n, b.catalog.nodes.get? p = some n) (hnone : r.1 = none) :
    ∃ e, r.2.errors = b.errors ++ [e] := by
  cases h with
  | refused e => exact ⟨e, rfl⟩
  | skipped hmissing =>
    obtain ⟨p, hp, hmissing⟩ := hmissing parents hgiven
    obtain ⟨n, hn⟩ := hthere p hp
    cases hmissing.symm.trans hn
  | packed _ he | gated _ _ he | blamed _ _ he =>
    subst he
    cases hgiven
  | found | added | entered => cases hnone

/-- What was recorded before stays recorded. -/
theorem errors_kept (h : d.Outcome b r) : b.errors <+: r.2.errors := by
  cases h with
  | refused e => exact List.prefix_append _ _
  | _ => exact List.prefix_refl _

end Declaration.Outcome

/-! ## Runs of declarations -/

namespace Blueprint

variable {b : Blueprint kind}

theorem errors_kept_declare (ds : List (Declaration kind)) (b : Blueprint kind) :
    b.errors <+: (declare ds b).errors := by
  induction ds generalizing b with
  | nil => exact List.prefix_refl _
  | cons d rest ih =>
    have hstep : b.errors <+: (d.run b).errors := d.run_eq b ▸ (d.outcome b).errors_kept
    exact hstep.trans (ih (d.run b))

/-- Nothing is built where an error was recorded. -/
theorem build_of_errors (h : b.errors ≠ []) : ∃ e, b.build.1 = .error e := by
  unfold build
  split
  · exact ⟨_, rfl⟩
  · split
    · exact ⟨_, rfl⟩
    · next hnil => exact absurd hnil h

/-- Of a run of declarations, one that was given all its parents, of which those are there whose arities
it goes by. If it has no node, that is recorded as one more error and nothing can be built; if something
is built, it has a node, and a charge has its leaf there, under its name. -/
theorem recorded_or_built {before after : List (Declaration kind)} {d : Declaration kind}
    {parents : List NodeId} (hgiven : d.parents? = some parents)
    (hthere : ∀ p ∈ d.measured, ∃ n, (declare before {}).catalog.nodes.get? p = some n) :
    ((d.answer (declare before {})).1 = none →
      (∃ e, (d.answer (declare before {})).2.errors = (declare before {}).errors ++ [e]) ∧
        ∃ e, (build (declare (before ++ d :: after) {})).1 = .error e) ∧
    ∀ g, (build (declare (before ++ d :: after) {})).1 = .ok g →
      ∃ node, (d.answer (declare before {})).1 = some node ∧
        ∀ {parent name weight impact weigher}, d = .charge parent name weight impact weigher →
          g.constraintNode ⟨(declare before {}).package, name⟩ = .ok node ∧
            ∃ indicter, g.constraintAt node = .ok
              { id := ⟨(declare before {}).package, name⟩, weight, impact, weigher, indicter } := by
  have hfails : (d.answer (declare before {})).1 = none →
      (∃ e, (d.answer (declare before {})).2.errors = (declare before {}).errors ++ [e]) ∧
        ∃ e, (build (declare (before ++ d :: after) {})).1 = .error e := by
    intro hnone
    obtain ⟨e, he⟩ := (d.outcome _).recorded hgiven hthere hnone
    refine ⟨⟨e, he⟩, build_of_errors ?_⟩
    have hrun : declare (before ++ d :: after) {} =
        declare after (d.answer (declare before {})).2 := by
      rw [← d.run_eq]
      exact List.foldl_append
    have hkept := errors_kept_declare after (d.answer (declare before {})).2
    rw [← hrun, he] at hkept
    exact fun hnil => by simp [hnil] at hkept
  refine ⟨hfails, fun g hg => ?_⟩
  cases hnode : (d.answer (declare before {})).1 with
  | none =>
    obtain ⟨-, e, he⟩ := hfails hnode
    cases he.symm.trans hg
  | some node =>
    refine ⟨node, rfl, ?_⟩
    rintro parent name weight impact weigher rfl
    exact (Graph.laidOut_of_build hg).charged rfl hnode

theorem recorded_or_built_pairedWithItself : ∃ (g : Graph .simple) (node : NodeId),
    (build (declare pairedWithItself {})).1 = .ok g ∧
      ((Declaration.charge (some ⟨3⟩) "pairs" (.simple 1) .penalty none).answer
        (declare (pairedWithItself.take 4) {})).1 = some node ∧
      g.constraintNode ⟨defaultPackage, "pairs"⟩ = .ok node := by
  have hthere : ∀ p ∈ (Declaration.charge (some ⟨3⟩) "pairs" (.simple 1) .penalty none).measured,
      ∃ n, (declare (pairedWithItself.take 4) {}).catalog.nodes.get? p = some n := by
    rintro p (_ | ⟨_, ⟨⟩⟩)
    exact ⟨_, rfl⟩
  obtain ⟨g, hg⟩ : ∃ g, (build (declare (pairedWithItself.take 4 ++
      .charge (some ⟨3⟩) "pairs" (.simple 1) .penalty none :: []) {})).1 = .ok g := ⟨_, rfl⟩
  obtain ⟨node, hnode, hleaf⟩ := (recorded_or_built rfl hthere).2 g hg
  exact ⟨g, node, hg, hnode, (hleaf rfl).1⟩

/-- A filter on a stream that the blueprint does not have, and a charge of what it answers. -/
def strayFilter : List (Declaration .simple) :=
  [.forEach (.scalar .bool) false, .filter (some ⟨9⟩) ⟨.given 0, fun _ => .ok true⟩,
    .charge none "lost" (.simple 1) .penalty none]

/-- The filter was given its parent and has no node, but nothing is recorded: a graph is built, and the
constraint is not there. -/
theorem strayFilter_not_recorded :
    (Declaration.filter (some ⟨9⟩) ⟨.given 0, fun _ => .ok true⟩ : Declaration .simple).parents? =
        some [⟨9⟩] ∧
      ((Declaration.filter (some ⟨9⟩) ⟨.given 0, fun _ => .ok true⟩ : Declaration .simple).answer
        (declare (strayFilter.take 1) {})).1 = none ∧
      (declare strayFilter {}).errors = [] ∧
      ∃ g : Graph .simple, (build (declare strayFilter {})).1 = .ok g ∧ g.constraints = [] :=
  ⟨rfl, rfl, rfl, _, rfl, rfl⟩

end Blueprint

end ConstraintStreams
