import ConstraintStreams.Graph.Stream
import ConstraintStreams.Proofs.Graph.HashConsing
import ConstraintStreams.Proofs.Graph.Visibility

/-!
# Streams and their nodes

What was declared on the way to a graph is what its nodes do. A node that is found under its key has the
operator that was asked for, as keys tell functions apart, and a source shows what was registered for its
type. `Drafted` are the drafts that were carried out on the way to a graph, and `Drafted.source`,
`Drafted.pair` and `Drafted.other` say what those that start with a type have left there.
-/

namespace ConstraintStreams

variable {kind : ScoreKind} {fs : Functions}

namespace Blueprint

variable {op : Operator kind} {parents : List NodeId} {arity : Nat}

/-! ## Answers -/

/-- Where a declaration was answered on the way to a graph, the node there has the operator that was
asked for, and what was registered for a source, on the parents that were asked for. -/
theorem node_of_answer {before after : List (Declaration kind)} {d : Declaration kind} {p : NodeId}
    {key : NodeKey} {n : Node kind} (hcanonical : (declare (before ++ d :: after) {}).Canonical fs)
    (hp : (d.answer (declare before {})).1 = some p) (hcharges : d.charges = false)
    (hn : (declare (before ++ d :: after) {}).prune.nodes.get? p = some n) (hd : d.key? = some key)
    (hkey : Node.key? { operator := op, parents, arity, layer := 0 } = .ok (some key))
    (hshape : parents.length = op.inputs) (huses : op.Uses fs) :
    n.parents = parents ∧ n.operator = (declare (before ++ d :: after) {}).resolve op.blind := by
  have hsound : (declare before ({} : Blueprint kind)).Sound := .declare .blank before
  obtain ⟨key', n₀, hd', hn₀, hkey₀⟩ :=
    (d.outcome _).keyed hp hcharges hsound (consed_declare .blank consed_blank before)
  cases hd.symm.trans hd'
  have hrun : declare (before ++ d :: after) {} = declare after (d.answer (declare before {})).2 := by
    rw [← d.run_eq]
    exact List.foldl_append
  -- The node is there still when all has been declared.
  obtain ⟨n₁, hn₁, hkey₁⟩ := remain_declare (hsound.answer d) after p n₀ hn₀
  rw [← hrun] at hn₁
  obtain ⟨n₂, hn₂, hop, hparents, -⟩ := alike_prune hn
  cases hn₁.symm.trans hn₂
  obtain ⟨hsame, hblind, -⟩ := Node.eq_of_key hkey (hkey₁.trans hkey₀) hshape
    ((Sound.declare .blank _).ordered.shaped hn₁) huses (hcanonical.uses hn₁)
  exact ⟨hparents.trans hsame, by rw [hop, hcanonical.resolved hn₁, hblind]⟩

variable {before after : List (Declaration kind)} {p : NodeId} {n : Node kind}

/-- A source shows what was registered for its type, unless it shows all facts. -/
theorem source_of_answer {type : FactType} {includeUnassigned : Bool}
    (hcanonical : (declare (before ++ .forEach type includeUnassigned :: after) {}).Canonical fs)
    (hp : ((Declaration.forEach type includeUnassigned).answer (declare before {})).1 = some p)
    (hn : (declare (before ++ .forEach type includeUnassigned :: after) {}).prune.nodes.get? p = some n) :
    n.operator = (declare (before ++ .forEach type includeUnassigned :: after) {}).resolve
      (.source type includeUnassigned none) := by
  let source : Node kind :=
    { operator := .source type includeUnassigned none, parents := [], arity := 1, layer := 0 }
  have hkey : source.key? = .ok (some _) := rfl
  exact (node_of_answer hcanonical hp rfl hn rfl hkey rfl trivial).2

theorem join_of_answer {left right : Option NodeId} {joiners : List Joiner}
    (hcanonical : (declare (before ++ .join left right joiners :: after) {}).Canonical fs)
    (huses : (Operator.join joiners : Operator kind).Uses fs)
    (hp : ((Declaration.join left right joiners).answer (declare before {})).1 = some p)
    (hn : (declare (before ++ .join left right joiners :: after) {}).prune.nodes.get? p = some n) :
    ∃ l r, left = some l ∧ right = some r ∧ n.parents = [l, r] ∧ n.operator = .join joiners := by
  cases right with
  | none => cases hp
  | some r =>
    cases left with
    | none => cases hp
    | some l =>
      let join : Node kind := { operator := .join joiners, parents := [l, r], arity := 1, layer := 0 }
      have hkey : join.key? = .ok (some _) := rfl
      exact ⟨l, r, rfl, rfl, node_of_answer hcanonical hp rfl hn rfl hkey rfl huses⟩

theorem semijoin_of_answer {left right : Option NodeId} {expected : Bool} {joiners : List Joiner}
    (hcanonical : (declare (before ++ .semijoin left right expected joiners :: after) {}).Canonical fs)
    (huses : (Operator.semijoin expected joiners : Operator kind).Uses fs)
    (hp : ((Declaration.semijoin left right expected joiners).answer (declare before {})).1 = some p)
    (hn : (declare (before ++ .semijoin left right expected joiners :: after) {}).prune.nodes.get? p = some n) :
    ∃ l r, left = some l ∧ right = some r ∧ n.parents = [l, r] ∧
      n.operator = .semijoin expected joiners := by
  cases right with
  | none => cases hp
  | some r =>
    cases left with
    | none => cases hp
    | some l =>
      let semijoin : Node kind :=
        { operator := .semijoin expected joiners, parents := [l, r], arity := 1, layer := 0 }
      have hkey : semijoin.key? = .ok (some _) := rfl
      exact ⟨l, r, rfl, rfl, node_of_answer hcanonical hp rfl hn rfl hkey rfl huses⟩

end Blueprint

open Blueprint

/-! ## Drafts on the way to a blueprint -/

/-- A draft was carried out and answered on the way to a blueprint: after some declarations on a blank
one, and before others. -/
def Drafted {α : Type} (draft : Draft kind α) (a : α) (b : Blueprint kind) : Prop :=
  ∃ before after, (draft (declare before {})).1 = a ∧ declare after (draft (declare before {})).2 = b

namespace Drafted

variable {b : Blueprint kind} {type : FactType} {includeUnassigned expected : Bool}
  {joiners : List Joiner} {p q : NodeId} {n m : Node kind}

/-- The source of a type, all of whose facts it shows or those that are visible. -/
theorem source (h : Drafted (Blueprint.forEach type includeUnassigned) (some p) b)
    (hcanonical : b.Canonical fs) (hn : b.prune.nodes.get? p = some n) :
    n.operator = b.resolve (.source type includeUnassigned none) := by
  obtain ⟨before, after, hp, hb⟩ := h
  have hrun : declare (before ++ .forEach type includeUnassigned :: after) {} = b := by
    rw [← hb, declare, List.foldl_append]
    rfl
  subst hrun
  exact source_of_answer hcanonical hp hn

/-- What comes of a draft that declares the source of a type, and one more node on it. -/
theorem onSource {α : Type} {draft : Draft kind α} {a : α} (h : Drafted draft a b)
    (hcanonical : b.Canonical fs) {d : Option NodeId → Declaration kind} (answer : α → Option NodeId)
    (hdraft : ∀ b₀, (draft b₀).2 = declare [.forEach type includeUnassigned,
      d ((Declaration.forEach type includeUnassigned).answer b₀).1] b₀)
    (hanswer : ∀ b₀, answer (draft b₀).1 =
      ((d ((Declaration.forEach type includeUnassigned).answer b₀).1).answer
        ((Declaration.forEach type includeUnassigned).run b₀)).1) :
    ∃ source before after, ((d source).answer (declare before {})).1 = answer a ∧
      b = declare (before ++ d source :: after) {} ∧
      ∀ q m, source = some q → b.prune.nodes.get? q = some m →
        m.operator = b.resolve (.source type includeUnassigned none) := by
  obtain ⟨before, after, rfl, hb⟩ := h
  rw [hdraft] at hb
  obtain ⟨source, hsource⟩ : ∃ source,
      ((Declaration.forEach type includeUnassigned).answer (declare before {})).1 = source := ⟨_, rfl⟩
  have hrun : declare (before ++ .forEach type includeUnassigned :: d source :: after) {} = b := by
    rw [← hb, hsource, declare, List.foldl_append]
    rfl
  subst hrun
  refine ⟨source, before ++ [.forEach type includeUnassigned], after, ?_, ?_, ?_⟩
  · rw [hanswer, hsource, declare, List.foldl_append]
    rfl
  · rw [List.append_assoc]
    rfl
  · rintro q m rfl hm
    exact source_of_answer hcanonical hsource hm

/-- A stream of pairs has a join of the source of their type with itself. -/
theorem pair {stream : TupleStream 2} (h : Drafted (TupleStream.forEachUniquePair type joiners) stream b)
    (hcanonical : b.Canonical fs) (hjoiners : ∀ j ∈ joiners ++ [Joiner.uniquePair type], j.Uses fs)
    (hp : stream.node = some p) (hn : b.prune.nodes.get? p = some n) :
    ∃ q, n.parents = [q, q] ∧ n.operator = .join (joiners ++ [Joiner.uniquePair type]) ∧
      ∀ m, b.prune.nodes.get? q = some m → m.operator = b.resolve (.source type false none) := by
  obtain ⟨source, before, after, hanswer, rfl, hsource⟩ := h.onSource hcanonical
    (d := fun source => .join source source (joiners ++ [Joiner.uniquePair type])) TupleStream.node
    (fun _ => rfl) fun _ => rfl
  obtain ⟨l, r, rfl, hr, hparents, hop⟩ := join_of_answer hcanonical hjoiners (hanswer.trans hp) hn
  cases hr
  exact ⟨l, hparents, hop, fun m hm => hsource l m rfl hm⟩

/-- The tuples of a stream that have or lack a match among other facts of a type come of a semijoin with
a source of the type. -/
theorem other {size : Nat} {s stream : TupleStream size}
    (h : Drafted (s.semijoinOther type expected includeUnassigned joiners) stream b)
    (hcanonical : b.Canonical fs) (hjoiners : ∀ j ∈ joiners ++ [Joiner.otherFact type], j.Uses fs)
    (hp : stream.node = some p) (hn : b.prune.nodes.get? p = some n) :
    ∃ l q, s.node = some l ∧ n.parents = [l, q] ∧
      n.operator = .semijoin expected (joiners ++ [Joiner.otherFact type]) ∧
      ∀ m, b.prune.nodes.get? q = some m → m.operator = b.resolve (.source type includeUnassigned none) := by
  obtain ⟨source, before, after, hanswer, rfl, hsource⟩ := h.onSource hcanonical
    (d := fun source => .semijoin s.node source expected (joiners ++ [Joiner.otherFact type]))
    TupleStream.node (fun _ => rfl) fun _ => rfl
  obtain ⟨l, r, hl, rfl, hparents, hop⟩ := semijoin_of_answer hcanonical hjoiners (hanswer.trans hp) hn
  exact ⟨l, r, hl, hparents, hop, fun m hm => hsource r m rfl hm⟩

end Drafted

end ConstraintStreams
