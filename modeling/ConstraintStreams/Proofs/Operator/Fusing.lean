import Mathlib.Data.List.Nodup
import ConstraintStreams.Handle
import ConstraintStreams.Operator.Filter
import ConstraintStreams.Proofs.Action
import ConstraintStreams.Proofs.Tuple.Lifecycle

/-!
# Filters in a row

What a filter answers to a signal depends on whether its predicate holds of the tuple and on whether the
tuple passed before. Of two filters in a row the second lets pass some of what the first does, and then
both together answer like one filter with both predicates. The memory of that filter is the memory of the
second.
-/

namespace ConstraintStreams

/-- The predicate of a filter. -/
abbrev TuplePredicate := Handle (Facts → Except Error Bool)

/-- Predicates asked one after the other, up to the first that does not hold. -/
def conjunction (ps : List TuplePredicate) (facts : Facts) : Except Error Bool :=
  ps.allM fun p => p.run facts

section Conjunction

variable {p : TuplePredicate} {ps : List TuplePredicate} {facts : Facts}

theorem conjunction_cons {passes passes' : Bool} (hp : p.run facts = .ok passes)
    (hps : conjunction ps facts = .ok passes') :
    conjunction (p :: ps) facts = .ok (passes && passes') := by
  unfold conjunction at hps ⊢
  rw [List.allM, hp]
  cases passes
  · rfl
  · exact hps

/-- The conjunction of one predicate is the predicate. -/
theorem conjunction_singleton {passes passes' : Bool} (hp : p.run facts = .ok passes)
    (hps : conjunction [p] facts = .ok passes') : passes = passes' := by
  have hnil : conjunction [] facts = .ok true := rfl
  have hone := (conjunction_cons hp hnil).symm.trans hps
  simpa using hone

/-- Predicates that do not fail have a conjunction that does not. -/
theorem conjunction_total (hps : ∀ p ∈ ps, ∃ passes, p.run facts = .ok passes) :
    ∃ passes, conjunction ps facts = .ok passes := by
  induction ps with
  | nil => exact ⟨true, rfl⟩
  | cons p ps ih =>
    obtain ⟨passes, hp⟩ := hps p List.mem_cons_self
    obtain ⟨passes', hps'⟩ := ih fun q hq => hps q (List.mem_cons_of_mem p hq)
    exact ⟨passes && passes', conjunction_cons hp hps'⟩

/-- The conjunction holds exactly if all predicates do. -/
theorem conjunction_true : conjunction ps facts = .ok true ↔ ∀ p ∈ ps, p.run facts = .ok true := by
  induction ps with
  | nil => simp [conjunction, List.allM, pure, Except.pure]
  | cons p ps ih =>
    rw [List.forall_mem_cons, ← ih]
    unfold conjunction
    rw [List.allM, except_bind_eq_ok]
    constructor
    · rintro ⟨passes, hp, hps⟩
      cases passes with
      | true => exact ⟨hp, hps⟩
      | false => cases hps
    · exact fun ⟨hp, hps⟩ => ⟨true, hp, hps⟩

end Conjunction

namespace FilterMemory

/-- What a filter does on a signal about a tuple that satisfies its predicate, or does not. -/
def turn (m : FilterMemory) (signal : Signal) (input : TupleId) (passes : Bool) :
    FilterMemory × Option Signal :=
  match signal, m.passed.contains input, passes with
  | .insert, _, true => (⟨m.passed.insert input⟩, some .insert)
  | .insert, _, false => (m, none)
  | .update, true, true => (m, some .update)
  | .update, false, true => (⟨m.passed.insert input⟩, some .insert)
  | .update, true, false => (⟨m.passed.erase input⟩, some .retract)
  | .update, false, false => (m, none)
  | .retract, true, _ => (⟨m.passed.erase input⟩, some .retract)
  | .retract, false, _ => (m, none)

/-- What a filter does if it is told something of a tuple, or nothing. -/
def follow (m : FilterMemory) (signal : Option Signal) (input : TupleId) (passes : Bool) :
    FilterMemory × Option Signal :=
  match signal with
  | some signal => m.turn signal input passes
  | none => (m, none)

variable {predicate : Facts → Except Error Bool} {m m' : FilterMemory} {g : Agenda} {signal : Signal}
  {input u : TupleId} {facts : Facts} {passes : Bool}

theorem accept_eq (hfacts : g.facts input = .ok facts) (hp : predicate facts = .ok passes) :
    accept predicate signal input ⟨m, g⟩ =
      .ok (m.turn signal input passes).2 ⟨(m.turn signal input passes).1, g⟩ := by
  have hmemory : Work.memory (⟨m, g⟩ : Workbench FilterMemory) = .ok m ⟨m, g⟩ := rfl
  have hread : (Work.facts input : Work FilterMemory Facts) ⟨m, g⟩ = .ok facts ⟨m, g⟩ := by
    unfold Work.facts
    rw [Action.bind_ok (Action.get_eq _), hfacts]
    rfl
  have hasked : (liftM (predicate facts) : Work FilterMemory Bool) ⟨m, g⟩ = .ok passes ⟨m, g⟩ :=
    Action.lift_eq_ok.2 ⟨hp, rfl⟩
  unfold accept turn
  rw [Action.bind_ok hmemory]
  cases signal with
  | insert =>
    dsimp only
    rw [Action.bind_ok hread, Action.bind_ok hasked]
    cases passes <;> rfl
  | update =>
    dsimp only
    rw [Action.bind_ok hread, Action.bind_ok hasked]
    cases m.passed.contains input <;> cases passes <;> rfl
  | retract =>
    dsimp only
    cases m.passed.contains input <;> rfl

/-- Another tuple passes after a signal if it did before. -/
theorem mem_turn_of_ne (hne : u ≠ input) : u ∈ (m.turn signal input passes).1.passed ↔ u ∈ m.passed := by
  unfold turn
  split <;> simp [hne, List.mem_erase_of_ne hne]

theorem nodup_turn (h : m.passed.Nodup) : (m.turn signal input passes).1.passed.Nodup := by
  unfold turn
  split <;> first | exact h.insert | exact h.erase input | exact h

/-- What the second of two filters in a row does is what it would do without the first, were both
predicates its own. -/
theorem turn_and (h : m'.passed ⊆ m.passed) (signal : Signal) (input : TupleId) (passes passes' : Bool) :
    m'.turn signal input (passes && passes') =
      m'.follow (m.turn signal input passes).2 input passes' := by
  by_cases hm : input ∈ m.passed
  · by_cases hm' : input ∈ m'.passed
    · cases signal <;> cases passes <;> cases passes' <;> simp [follow, turn, hm, hm']
    · cases signal <;> cases passes <;> cases passes' <;> simp [follow, turn, hm, hm']
  · have hm' : input ∉ m'.passed := fun hin => hm (h hin)
    cases signal <;> cases passes <;> cases passes' <;> simp [follow, turn, hm, hm']

/-- Whether the tuple passes after a signal about it. -/
theorem mem_turn_self (h : m.passed.Nodup) : input ∈ (m.turn signal input passes).1.passed ↔
    signal = .insert ∧ (passes = true ∨ input ∈ m.passed) ∨ signal = .update ∧ passes = true := by
  by_cases hm : input ∈ m.passed
  · cases signal <;> cases passes <;> simp [turn, hm, h.not_mem_erase]
  · cases signal <;> cases passes <;> simp [turn, hm]

/-- The second of two filters in a row goes on letting pass some of what the first does. -/
theorem turn_subset (h : m'.passed ⊆ m.passed) (hm : m.passed.Nodup) (hm' : m'.passed.Nodup)
    (signal : Signal) (input : TupleId) (passes passes' : Bool) :
    (m'.turn signal input (passes && passes')).1.passed ⊆ (m.turn signal input passes).1.passed := by
  intro x hx
  by_cases he : x = input
  · subst he
    rw [mem_turn_self hm'] at hx
    rw [mem_turn_self hm]
    simp only [Bool.and_eq_true] at hx
    exact hx.imp (fun ⟨hs, hp⟩ => ⟨hs, hp.imp And.left (@h x)⟩) fun ⟨hs, hp⟩ => ⟨hs, hp.1⟩
  · rw [mem_turn_of_ne he] at hx ⊢
    exact h hx

/-- A filter answers how a tuple came to pass, or ceased to, as long as it is told of no tuple as new that
passes already. -/
theorem hears_turn {log : List Signal} (h : Hears (decide (input ∈ m.passed)) log)
    (hm : m.passed.Nodup) (hnew : signal = .insert → input ∉ m.passed) :
    Hears (decide (input ∈ (m.turn signal input passes).1.passed))
      (log ++ (m.turn signal input passes).2.toList) := by
  by_cases hin : input ∈ m.passed
  · have hgone : input ∉ m.passed.erase input := hm.not_mem_erase
    rw [decide_eq_true hin] at h
    cases signal with
    | insert => exact absurd hin (hnew rfl)
    | update => cases passes <;> simp [turn, hin, hgone, h.update, h.retract]
    | retract => cases passes <;> simp [turn, hin, hgone, h.retract]
  · rw [decide_eq_false hin] at h
    cases signal with
    | insert => cases passes <;> simp [turn, hin, h, h.insert]
    | update => cases passes <;> simp [turn, hin, h, h.insert]
    | retract => cases passes <;> simp [turn, hin, h]

end FilterMemory

end ConstraintStreams
