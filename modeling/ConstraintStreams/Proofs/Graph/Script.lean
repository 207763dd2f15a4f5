import ConstraintStreams.Proofs.Graph.WellFormed

/-!
# Scripts

A script is a list of declarations whose streams are given by the declarations that answered them, so
it can be carried out whatever nodes these answer. `Script.build` is the graph that blueprints make of
a script, where what is declared again is found again. In `Script.plain` nothing is found again and
nothing is pruned: there is a node for every declaration.
-/

namespace ConstraintStreams

/-- Declarations whose streams are the numbers of the declarations that answered them, from zero. -/
abbrev Script (kind : ScoreKind) := List (Declaration kind)

namespace Declaration

variable {kind : ScoreKind}

/-- The declaration with its streams looked up. -/
def follow (streams : NodeId → Option NodeId) : Declaration kind → Declaration kind
  | package name => package name
  | visibility type predicate => visibility type predicate
  | forEach type includeUnassigned => forEach type includeUnassigned
  | filter parent predicate => filter (parent.bind streams) predicate
  | join left right joiners => join (left.bind streams) (right.bind streams) joiners
  | semijoin left right expected joiners =>
    semijoin (left.bind streams) (right.bind streams) expected joiners
  | group parent key collector => group (parent.bind streams) key collector
  | map parent mapper arity => map (parent.bind streams) mapper arity
  | flatten parent items => flatten (parent.bind streams) items
  | distinct parent => distinct (parent.bind streams)
  | concat left right => concat (left.bind streams) (right.bind streams)
  | charge parent name weight impact weigher =>
    charge (parent.bind streams) name weight impact weigher
  | indict constraint indicter => indict (constraint.bind streams) indicter

end Declaration

namespace Blueprint

variable {kind : ScoreKind}

/-- The blueprint with nothing to be found again. -/
def forget (b : Blueprint kind) : Blueprint kind := { b with catalog := { b.catalog with keys := ∅ } }

/-- All that was declared, whether or not a constraint depends on it. -/
def whole (b : Blueprint kind) : Graph kind where
  nodes := b.catalog.nodes
  constraints := b.constraints
  names := b.names

end Blueprint

namespace Script

variable {kind : ScoreKind}

/-- How far a script was carried out. -/
structure Progress (kind : ScoreKind) where
  /-- The node that each declaration answered. -/
  answers : List (Option NodeId) := []
  blueprint : Blueprint kind := {}

/-- The node that the declaration of a number has answered. -/
def Progress.stream (p : Progress kind) (number : NodeId) : Option NodeId :=
  p.answers[number.ordinal]?.join

/-- Carries one more declaration out, on a blueprint made ready for it. -/
def Progress.next (ready : Blueprint kind → Blueprint kind) (p : Progress kind)
    (d : Declaration kind) : Progress kind :=
  let (node, b) := (d.follow p.stream).answer (ready p.blueprint)
  { answers := p.answers ++ [node], blueprint := b }

/-- Carries a script out. -/
def enact (ready : Blueprint kind → Blueprint kind) (script : Script kind) : Progress kind :=
  script.foldl (Progress.next ready) {}

/-- The graph that a script is built into. -/
def build (script : Script kind) : Except Error (Graph kind) :=
  (Blueprint.build (enact id script).blueprint).1

/-- The graph in which every declaration has a node of its own. -/
def plain (script : Script kind) : Graph kind := (enact Blueprint.forget script).blueprint.whole

end Script

/-! ## Blueprints that forget -/

namespace Blueprint

variable {kind : ScoreKind} {b : Blueprint kind}

theorem Sound.forget (h : b.Sound) : b.forget.Sound :=
  ⟨h.ordered, h.constraints, h.names, h.named, h.constraints_nodup⟩

theorem Sound.answer (h : b.Sound) (d : Declaration kind) : (d.answer b).2.Sound :=
  d.run_eq b ▸ h.run d

theorem Sound.whole (h : b.Sound) : b.whole.WellFormed :=
  ⟨h.ordered.toLinked, h.constraints, h.names, h.named, h.constraints_nodup⟩

end Blueprint

namespace Script

variable {kind : ScoreKind} {script : Script kind} {g : Graph kind}

theorem sound_enact {ready : Blueprint kind → Blueprint kind}
    (hready : ∀ b : Blueprint kind, b.Sound → (ready b).Sound) (script : Script kind) :
    (enact ready script).blueprint.Sound := by
  unfold enact
  suffices h : ∀ p : Progress kind, p.blueprint.Sound →
      (script.foldl (Progress.next ready) p).blueprint.Sound from h {} .blank
  induction script with
  | nil => exact fun _ h => h
  | cons d rest ih => exact fun p h => ih _ ((hready _ h).answer _)

/-- What a script is built into is pruned of what its constraints do not depend on. -/
theorem build_eq_ok (h : script.build = .ok g) : g = (enact id script).blueprint.prune :=
  Blueprint.eq_prune_of_build h

theorem wellFormed_of_build (h : script.build = .ok g) : g.WellFormed := by
  rw [build_eq_ok h]
  exact (sound_enact (fun _ hb => hb) script).prune

theorem wellFormed_plain (script : Script kind) : script.plain.WellFormed :=
  (sound_enact (fun _ hb => hb.forget) script).whole

end Script

end ConstraintStreams
