import ConstraintStreams.Proofs.Tuple.Requests

/-!
# The life of a tuple

A child of a node hears of a tuple that it is there, any number of times that it changed, and that it is
gone, in this order, and nothing after that. `Agenda.Life` ties what a child has heard so far to what the
agenda holds when nothing is left to tell. Each time more is told, the life of the tuple goes on. A child
of a filter may hear all that more than once, and `Hears` says what it knows then.
-/

namespace ConstraintStreams

/-- The beginning of `insert update* retract`. -/
def Lifecycle (log : List Signal) : Prop :=
  ∃ k, log <+: .insert :: (List.replicate k .update ++ [.retract])

namespace Lifecycle

theorem nil : Lifecycle [] := ⟨0, List.nil_prefix⟩

theorem lasting (k : Nat) : Lifecycle (.insert :: List.replicate k .update) :=
  ⟨k, List.prefix_append (Signal.insert :: List.replicate k Signal.update) [Signal.retract]⟩

theorem ended (k : Nat) : Lifecycle (.insert :: (List.replicate k .update ++ [.retract])) :=
  ⟨k, List.prefix_rfl⟩

end Lifecycle

/-- A tuple comes, changes any number of times, and goes. -/
def lifetime (k : Nat) : List Signal := .insert :: (List.replicate k .update ++ [.retract])

/-- The beginning of `(insert update* retract)*`. -/
def Lifecycles (log : List Signal) : Prop := ∃ ks : List Nat, log <+: ks.flatMap lifetime

theorem Lifecycle.lifecycles {log : List Signal} (h : Lifecycle log) : Lifecycles log := by
  obtain ⟨k, hk⟩ := h
  exact ⟨[k], by rwa [List.flatMap_singleton]⟩

theorem Lifecycles.of_beginning {log log' : List Signal} (h : Lifecycles log) (hlog : log' <+: log) :
    Lifecycles log' := by
  obtain ⟨ks, hks⟩ := h
  exact ⟨ks, hlog.trans hks⟩

/-- The child was told of a tuple, and not that it is gone. -/
def Holding (log : List Signal) : Prop := ∃ signal, log.getLast? = some signal ∧ signal ≠ .retract

/-- What a child has heard of a tuple that comes and goes, and whether the tuple is there. -/
inductive Hears : Bool → List Signal → Prop
  | nil : Hears false []
  | insert {log : List Signal} : Hears false log → Hears true (log ++ [.insert])
  | update {log : List Signal} : Hears true log → Hears true (log ++ [.update])
  | retract {log : List Signal} : Hears true log → Hears false (log ++ [.retract])

namespace Hears

variable {there : Bool} {log log' : List Signal}

/-- What was heard last says whether the tuple is there. -/
theorem holding_iff (h : Hears there log) : Holding log ↔ there = true := by
  cases h <;> simp [Holding]

/-- A tuple that is heard to be there was not there before. -/
theorem of_insert (h : Hears there (log ++ [.insert])) : Hears false log := by
  generalize he : log ++ [.insert] = log' at h
  cases h with
  | nil => simp at he
  | insert h => exact (List.append_inj_left' he rfl) ▸ h
  | update | retract => simp at he

/-- A child that has heard so much had heard the beginning of it before. -/
theorem of_beginning (h : Hears there log) (hlog : log' <+: log) : ∃ there', Hears there' log' := by
  induction h with
  | nil => exact ⟨false, List.prefix_nil.1 hlog ▸ nil⟩
  | insert h ih =>
    rcases List.prefix_concat_iff.1 hlog with rfl | hlog
    · exact ⟨true, h.insert⟩
    · exact ih hlog
  | update h ih =>
    rcases List.prefix_concat_iff.1 hlog with rfl | hlog
    · exact ⟨true, h.update⟩
    · exact ih hlog
  | retract h ih =>
    rcases List.prefix_concat_iff.1 hlog with rfl | hlog
    · exact ⟨false, h.retract⟩
    · exact ih hlog

theorem lasting (h : Hears false log) (k : Nat) :
    Hears true (log ++ .insert :: List.replicate k .update) := by
  induction k with
  | zero => exact h.insert
  | succ k ih =>
    rw [List.replicate_succ', ← List.cons_append, ← List.append_assoc]
    exact ih.update

theorem append_lifetime (h : Hears false log) (k : Nat) : Hears false (log ++ lifetime k) := by
  unfold lifetime
  rw [← List.cons_append, ← List.append_assoc]
  exact (h.lasting k).retract

theorem lifetimes (h : Hears false log) (ks : List Nat) : Hears false (log ++ ks.flatMap lifetime) := by
  induction ks generalizing log with
  | nil => rwa [List.flatMap_nil, List.append_nil]
  | cons k ks ih =>
    rw [List.flatMap_cons, ← List.append_assoc]
    exact ih (h.append_lifetime k)

/-- A tuple that is not there has come and gone some times, and one that is there has come again. -/
theorem spelled (h : Hears there log) : ∃ ks : List Nat,
    there = false ∧ log = ks.flatMap lifetime ∨
      there = true ∧ ∃ k, log = ks.flatMap lifetime ++ .insert :: List.replicate k .update := by
  induction h with
  | nil => exact ⟨[], .inl ⟨rfl, rfl⟩⟩
  | insert _ ih =>
    obtain ⟨ks, ⟨-, rfl⟩ | ⟨hthere, -⟩⟩ := ih
    · exact ⟨ks, .inr ⟨rfl, 0, rfl⟩⟩
    · cases hthere
  | update _ ih =>
    obtain ⟨ks, ⟨hthere, -⟩ | ⟨-, k, rfl⟩⟩ := ih
    · cases hthere
    · refine ⟨ks, .inr ⟨rfl, k + 1, ?_⟩⟩
      rw [List.replicate_succ', List.append_assoc, List.cons_append]
  | retract _ ih =>
    obtain ⟨ks, ⟨hthere, -⟩ | ⟨-, k, rfl⟩⟩ := ih
    · cases hthere
    · refine ⟨ks ++ [k], .inl ⟨rfl, ?_⟩⟩
      rw [List.flatMap_append, List.flatMap_singleton, List.append_assoc]
      rfl

end Hears

theorem lifecycles_iff {log : List Signal} : Lifecycles log ↔ ∃ there, Hears there log := by
  constructor
  · rintro ⟨ks, hlog⟩
    exact (Hears.nil.lifetimes ks).of_beginning hlog
  · rintro ⟨there, h⟩
    obtain ⟨ks, ⟨-, rfl⟩ | ⟨-, k, rfl⟩⟩ := h.spelled
    · exact ⟨ks, List.prefix_rfl⟩
    · refine ⟨ks ++ [k], ?_⟩
      rw [List.flatMap_append, List.flatMap_singleton, List.prefix_append_right_inj]
      exact List.prefix_append (Signal.insert :: List.replicate k Signal.update) [Signal.retract]

namespace Agenda

/-- What a child of a node has heard of a tuple, as far as it has heard all there was to tell: it knows
that the tuple is there, or has heard that it is gone for good, or nothing yet. -/
structure Life (p : NodeId) (u : TupleId) (g : Agenda) (log : List Signal) : Prop where
  lasting : (g.stageAt p u).isSome = true → ∃ k, log = .insert :: List.replicate k .update
  absent : g.stageAt p u = none →
    log = [] ∨ Lifecycle log ∧ g.find? u = none ∧ u.generation < g.tuples.generation

variable {g g₀ : Agenda} {p : NodeId} {u : TupleId} {log : List Signal} {requests : List Request}

/-- A tuple that is not withdrawn is shown. -/
theorem isSome_openAt (g : Agenda) (p : NodeId) (u : TupleId) :
    (g.openAt p u).isSome = (g.stageAt p u).any Stage.isOpen := by
  unfold openAt stageAt
  cases g.find? u with
  | none => rfl
  | some t =>
    by_cases hnode : t.node = p
    · cases hopen : t.stage.isOpen <;> simp [hnode, hopen]
    · simp [hnode]

/-- A tuple that was there and is not at its node any more, is gone for good. -/
theorem Continues.gone (h : Continues g₀ g) (hbefore : (g₀.stageAt p u).isSome = true)
    (hnow : g.stageAt p u = none) : g.find? u = none ∧ u.generation < g.tuples.generation := by
  obtain ⟨stage, hstage⟩ := Option.isSome_iff_exists.1 hbefore
  obtain ⟨t₀, ht₀, hnode₀, -⟩ := stageAt_eq_some_iff.1 hstage
  rcases h.old ht₀ with ⟨t, ht, hnode⟩ | hgone
  · rw [stageAt_of_find ht, if_pos (hnode.trans hnode₀)] at hnow
    cases hnow
  · exact hgone

/-- A tuple that is gone for good stays so. -/
theorem Continues.stays_gone (h : Continues g₀ g)
    (hgone : g₀.find? u = none ∧ u.generation < g₀.tuples.generation) :
    g.find? u = none ∧ u.generation < g.tuples.generation := by
  have hle := h.generation
  refine ⟨?_, by omega⟩
  cases hu : g.find? u with
  | none => rfl
  | some t =>
    have hnew := h.fresh hgone.1 hu
    omega

namespace Life

theorem blank (hnone : g.find? u = none) : Life p u g [] where
  lasting h := by rw [stageAt_of_none hnone] at h; cases h
  absent _ := .inl rfl

theorem lifecycle (h : Life p u g log) : Lifecycle log := by
  cases hstage : g.stageAt p u with
  | some stage =>
    obtain ⟨k, rfl⟩ := h.lasting (by rw [hstage]; rfl)
    exact .lasting k
  | none =>
    rcases h.absent hstage with rfl | ⟨hlog, -⟩
    · exact .nil
    · exact hlog

/-- What a child has heard to be gone, is gone for good. -/
theorem retracted (h : Life p u g log) (hlog : .retract ∈ log) :
    g.find? u = none ∧ u.generation < g.tuples.generation := by
  cases hstage : g.stageAt p u with
  | some stage =>
    obtain ⟨k, rfl⟩ := h.lasting (by rw [hstage]; rfl)
    simp at hlog
  | none =>
    rcases h.absent hstage with rfl | ⟨-, hgone⟩
    · cases hlog
    · exact hgone

/-- Nothing is told while a tuple stays, or goes unheard. -/
theorem silent (h : Life p u g₀ log) (hg : Continues g₀ g)
    (hstays : (g.stageAt p u).isSome = true → (g₀.stageAt p u).isSome = true) : Life p u g log where
  lasting hnow := h.lasting (hstays hnow)
  absent hnow := by
    cases hbefore : g₀.stageAt p u with
    | some stage =>
      have hsome : (g₀.stageAt p u).isSome = true := by rw [hbefore]; rfl
      obtain ⟨k, rfl⟩ := h.lasting hsome
      exact .inr ⟨.lasting k, hg.gone hsome hnow⟩
    | none =>
      refine (h.absent hbefore).imp_right fun hover => ?_
      exact ⟨hover.1, hg.stays_gone hover.2⟩

/-- A child hears of a tuple that it knew nothing of. -/
theorem inserted (h : Life p u g₀ log) (hg : Continues g₀ g) (hbefore : g₀.stageAt p u = none)
    (hnow : (g.stageAt p u).isSome = true) : Life p u g (log ++ [.insert]) where
  lasting _ := by
    obtain rfl : log = [] := by
      rcases h.absent hbefore with hlog | ⟨-, hgone⟩
      · exact hlog
      · -- The name of a tuple that is gone is not given to another one.
        rw [stageAt_of_none (hg.stays_gone hgone).1] at hnow
        cases hnow
    exact ⟨0, rfl⟩
  absent hnone := by rw [hnone] at hnow; cases hnow

/-- A child hears that a tuple changed. -/
theorem updated (h : Life p u g₀ log) (hbefore : (g₀.stageAt p u).isSome = true)
    (hnow : (g.stageAt p u).isSome = true) : Life p u g (log ++ [.update]) where
  lasting _ := by
    obtain ⟨k, rfl⟩ := h.lasting hbefore
    exact ⟨k + 1, by rw [List.replicate_succ', List.cons_append]⟩
  absent hnone := by rw [hnone] at hnow; cases hnow

/-- A child hears that a tuple is gone. -/
theorem ended (h : Life p u g₀ log) (hg : Continues g₀ g) (hbefore : (g₀.stageAt p u).isSome = true)
    (hnow : g.stageAt p u = none) : Life p u g (log ++ [.retract]) where
  lasting hsome := by rw [hnow] at hsome; cases hsome
  absent _ := by
    obtain ⟨k, rfl⟩ := h.lasting hbefore
    exact .inr ⟨.ended k, hg.gone hbefore hnow⟩

/-- Once what was asked for is told, the life of the tuple has gone on. -/
theorem told (h : Life p u g₀ log) (hg : Continues g₀ g)
    (hnow : (g.stageAt p u).isSome =
      (fate p u (g₀.stageAt p u).isSome requests).any Stage.isOpen) :
    Life p u g (log ++ (due p u (g₀.stageAt p u).isSome requests).toList) := by
  cases hbefore : (g₀.stageAt p u).isSome with
  | true =>
    rw [hbefore] at hnow
    by_cases hr : .retract u ∈ requests
    · have hgone : g.stageAt p u = none := by simpa [fate, hr, Stage.isOpen] using hnow
      simpa [due, hr] using h.ended hg hbefore hgone
    · by_cases hu : .update u ∈ requests
      · have hstays : (g.stageAt p u).isSome = true := by
          simpa [fate, hr, hu, Stage.isOpen] using hnow
        simpa [due, hr, hu] using h.updated hbefore hstays
      · simpa [due, hr, hu] using h.silent hg fun _ => hbefore
  | false =>
    rw [hbefore] at hnow
    by_cases hc : .create p u ∈ requests ∧ .retract u ∉ requests
    · have hmade : (g.stageAt p u).isSome = true := by simpa [fate, hc, Stage.isOpen] using hnow
      simpa [due, hc] using h.inserted hg (by simpa using hbefore) hmade
    · have hnone : (g.stageAt p u).isSome = false := by
        by_cases hcreated : .create p u ∈ requests
        · have hr : .retract u ∈ requests := by simpa [hcreated] using hc
          simpa [fate, hcreated, hr, Stage.isOpen] using hnow
        · simpa [fate, hcreated] using hnow
      simpa [due, hc] using h.silent hg fun hsome => absurd hsome (by simp [hnone])

end Life

end Agenda

end ConstraintStreams
