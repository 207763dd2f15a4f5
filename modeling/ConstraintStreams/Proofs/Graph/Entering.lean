import ConstraintStreams.Proofs.Graph.Layout

/-!
# The constraints in the order of their declarations

Only a charge enters a constraint, behind those that are there, and it does so when it answers a node.
So the constraints of a built graph stand in the order of the declarations that entered them.
-/

namespace ConstraintStreams

variable {kind : ScoreKind}

/-- The name under which a declaration enters a constraint, if it does. -/
def Declaration.enters? (d : Declaration kind) (b : Blueprint kind) : Option ConstraintId :=
  match d with
  | .charge parent name weight impact weigher =>
    (Blueprint.addConstraint parent name weight impact weigher b).1.map fun _ => ⟨b.package, name⟩
  | _ => none

namespace Blueprint

variable {b b' : Blueprint kind}

/-- The names of the constraints that declarations enter, in the order of the declarations. -/
def entered : List (Declaration kind) → Blueprint kind → List ConstraintId
  | [], _ => []
  | d :: rest, b => (d.enters? b).toList ++ entered rest (d.run b)

/-- No constraint was entered. -/
structure SameConstraints (b b' : Blueprint kind) : Prop where
  constraints : b'.constraints = b.constraints
  names : b'.names = b.names

/-- Unless a charge is answered, no constraint is entered. -/
theorem SameConstraints.of_outcome {d : Declaration kind} {r : Option NodeId × Blueprint kind}
    (h : d.Outcome b r) (hd : d.charges = false ∨ r.1 = none) : b.SameConstraints r.2 := by
  cases h with
  | entered _ he =>
    subst he
    rcases hd with hd | hd <;> cases hd
  | _ => exact ⟨rfl, rfl⟩

/-- What a declaration does to the constraints: it enters one behind the others, under a name that was
free, or leaves them as they are. -/
theorem run_constraints (d : Declaration kind) (b : Blueprint kind) :
    match d.enters? b with
    | some name => b.names.get? name = none ∧ ∃ id, (d.run b).constraints = b.constraints ++ [id] ∧
        (d.run b).names = b.names.insert name id
    | none => b.SameConstraints (d.run b) := by
  rw [d.run_eq]
  cases d with
  | charge parent name weight impact weigher =>
    have houtcome := (Declaration.charge parent name weight impact weigher).outcome b
    cases hp : (addConstraint parent name weight impact weigher b).1 with
    | none =>
      simp only [Declaration.enters?, hp]
      exact .of_outcome houtcome (.inr hp)
    | some p =>
      obtain ⟨n, -, -, hfree, he⟩ := addConstraint_eq_some hp
      simp only [Declaration.enters?, Declaration.answer, he]
      exact ⟨hfree, b.catalog.nextId, rfl, rfl⟩
  | _ => exact .of_outcome (Declaration.outcome _ b) (.inl rfl)

/-- The constraints are listed with their names, in the order in which they were entered. -/
theorem declare_constraints (ds : List (Declaration kind)) (b : Blueprint kind)
    (hb : b.names.values = b.constraints) :
    (declare ds b).names.keys = b.names.keys ++ entered ds b ∧
      (declare ds b).names.values = (declare ds b).constraints := by
  induction ds generalizing b with
  | nil => exact ⟨(List.append_nil _).symm, hb⟩
  | cons d rest ih =>
    have hrun := run_constraints d b
    have hdeclare : declare (d :: rest) b = declare rest (d.run b) := rfl
    unfold entered
    rw [hdeclare]
    cases henters : d.enters? b with
    | none =>
      rw [henters] at hrun
      obtain ⟨hkeys, hvalues⟩ := ih (d.run b) (by rw [hrun.names, hrun.constraints, hb])
      refine ⟨?_, hvalues⟩
      rw [hkeys, hrun.names]
      rfl
    | some name =>
      rw [henters] at hrun
      obtain ⟨hfree, id, hconstraints, hnames⟩ := hrun
      obtain ⟨hkeys, hvalues⟩ := ih (d.run b) (by
        rw [hnames, hconstraints, Table.values_insert_of_none hfree, hb])
      refine ⟨?_, hvalues⟩
      rw [hkeys, hnames, Table.keys_insert_of_none hfree, List.append_assoc]
      rfl

end Blueprint

/-- The constraints of a built graph come in the order of the declarations that entered them. -/
theorem Graph.constraintIds_of_build {ds : List (Declaration kind)} {g : Graph kind}
    (h : (Blueprint.build (Blueprint.declare ds {})).1 = .ok g) :
    g.constraintIds = Blueprint.entered ds {} := by
  have hg : g.WellFormed := Built.wellFormed ⟨ds, h⟩
  obtain ⟨hkeys, hvalues⟩ := Blueprint.declare_constraints ds {} rfl
  obtain rfl := Blueprint.eq_prune_of_build h
  have hname : ∀ e ∈ (Blueprint.declare ds {}).names.entries,
      (((Blueprint.declare ds {}).prune.nodes.get? e.2).bind (·.operator.constraint?)).map (·.id)
        = some e.1 := by
    intro e he
    obtain ⟨-, n, c, hn, hop, hc⟩ := hg.names (Table.get?_eq_some_iff.2 he)
    rw [hn, ← hc]
    show (n.operator.constraint?).map _ = _
    rw [hop]
    rfl
  have hempty : ({} : Blueprint kind).names.keys = [] := rfl
  rw [hempty, List.nil_append] at hkeys
  unfold constraintIds
  show (Blueprint.declare ds {}).constraints.filterMap _ = _
  rw [← hkeys, ← hvalues, Table.values, Table.keys, List.filterMap_map, ← List.filterMap_eq_map]
  exact List.filterMap_congr hname

end ConstraintStreams
