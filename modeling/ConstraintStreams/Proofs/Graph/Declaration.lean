import ConstraintStreams.Graph.Blueprint

/-!
# Declarations

What users can declare on a blueprint, as data. The graphs that can be built are those that some
list of declarations leads to; `Graph.Built` says so.
-/

namespace ConstraintStreams

/-- A declaration on a blueprint. Streams are given by the nodes that answered them. -/
inductive Declaration (kind : ScoreKind)
  | package (name : String)
  | visibility (type : FactType) (predicate : Fact → Except Error Bool)
  | forEach (type : FactType) (includeUnassigned : Bool)
  | filter (parent : Option NodeId) (predicate : Handle (Facts → Except Error Bool))
  | join (left right : Option NodeId) (joiners : List Joiner)
  | semijoin (left right : Option NodeId) (expected : Bool) (joiners : List Joiner)
  | group (parent : Option NodeId) (key : Option (Handle (Facts → Except Error Fact)))
      (collector : Option Collector)
  | map (parent : Option NodeId) (mapper : Handle (Facts → Except Error Facts)) (arity : Nat)
  | flatten (parent : Option NodeId) (items : Handle (Fact → Except Error (List Fact)))
  | distinct (parent : Option NodeId)
  | concat (left right : Option NodeId)
  | charge (parent : Option NodeId) (name : String) (weight : Score kind) (impact : Impact)
      (weigher : Option (Facts → Except Error Int64))
  | indict (constraint : Option NodeId) (indicter : Facts → Except Error (List Fact))

namespace Declaration

variable {kind : ScoreKind}

/-- The blueprint after a declaration. -/
def run (b : Blueprint kind) : Declaration kind → Blueprint kind
  | package name => (Blueprint.setPackage name b).2
  | visibility type predicate => (Blueprint.registerVisibility type predicate b).2
  | forEach type includeUnassigned => (Blueprint.forEach type includeUnassigned b).2
  | filter parent predicate => (Blueprint.filter parent predicate b).2
  | join left right joiners => (Blueprint.join left right joiners b).2
  | semijoin left right expected joiners => (Blueprint.semijoin left right expected joiners b).2
  | group parent key collector => (Blueprint.group parent key collector b).2
  | map parent mapper arity => (Blueprint.map parent mapper arity b).2
  | flatten parent items => (Blueprint.flatten parent items b).2
  | distinct parent => (Blueprint.distinct parent b).2
  | concat left right => (Blueprint.concat left right b).2
  | charge parent name weight impact weigher =>
    (Blueprint.addConstraint parent name weight impact weigher b).2
  | indict constraint indicter => (Blueprint.setIndicter constraint indicter b).2

/-- Makes a declaration and answers its node, if it has one. -/
def answer : Declaration kind → Draft kind (Option NodeId)
  | package name => do
    Blueprint.setPackage name
    pure none
  | visibility type predicate => do
    Blueprint.registerVisibility type predicate
    pure none
  | forEach type includeUnassigned => Blueprint.forEach type includeUnassigned
  | filter parent predicate => Blueprint.filter parent predicate
  | join left right joiners => Blueprint.join left right joiners
  | semijoin left right expected joiners => Blueprint.semijoin left right expected joiners
  | group parent key collector => Blueprint.group parent key collector
  | map parent mapper arity => Blueprint.map parent mapper arity
  | flatten parent items => Blueprint.flatten parent items
  | distinct parent => Blueprint.distinct parent
  | concat left right => Blueprint.concat left right
  | charge parent name weight impact weigher =>
    Blueprint.addConstraint parent name weight impact weigher
  | indict constraint indicter => do
    Blueprint.setIndicter constraint indicter
    pure none

theorem run_eq (d : Declaration kind) (b : Blueprint kind) : d.run b = (d.answer b).2 := by
  cases d <;> rfl

/-- The parents of the node that a declaration asks for, if it was given all of them. -/
def parents? : Declaration kind → Option (List NodeId)
  | package .. | visibility .. | indict .. => none
  | forEach .. => some []
  | filter parent _ | group parent .. | map parent .. | flatten parent _ | distinct parent
  | charge parent .. => return [← parent]
  | join left right _ | semijoin left right .. | concat left right => return [← left, ← right]

/-- The parents whose arities a declaration goes by. -/
def measured : Declaration kind → List NodeId
  | filter parent _ | flatten parent _ | distinct parent | charge parent .. => parent.toList
  | join left right _ | concat left right => left.toList ++ right.toList
  | semijoin left .. => left.toList
  | _ => []

/-- The declaration charges a stream. -/
def charges : Declaration kind → Bool
  | charge .. => true
  | _ => false

/-- The key of the node that a declaration asks for, if it asks for one that can be shared. -/
def key? : Declaration kind → Option NodeKey
  | forEach type includeUnassigned => some (.source type includeUnassigned)
  | filter parent predicate => return .filter (← parent) predicate.key
  | join left right joiners => return .join (← left) (← right) (joiners.map Joiner.key)
  | semijoin left right expected joiners =>
    return .semijoin (← left) (← right) expected (joiners.map Joiner.key)
  | group parent key collector => return .group (← parent) (key.map (·.key)) (collector.map (·.key))
  | map parent mapper arity => return .map (← parent) mapper.key arity
  | flatten parent items => return .flatten (← parent) items.key
  | distinct parent => return .distinct (← parent)
  | concat left right => return .concat (← left) (← right)
  | _ => none

end Declaration

namespace Blueprint

variable {kind : ScoreKind}

/-- The blueprint after some declarations, from the first to the last. -/
def declare (ds : List (Declaration kind)) (b : Blueprint kind) : Blueprint kind :=
  ds.foldl Declaration.run b

end Blueprint

/-- The graph is what some declarations on a blank blueprint are built into. -/
def Graph.Built {kind : ScoreKind} (g : Graph kind) : Prop :=
  ∃ ds, (Blueprint.build (Blueprint.declare ds {})).1 = .ok g

end ConstraintStreams
