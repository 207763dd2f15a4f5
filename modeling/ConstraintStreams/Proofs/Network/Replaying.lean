import Mathlib.Data.List.Induction
import ConstraintStreams.Proofs.Network.Moments
import ConstraintStreams.Proofs.Operator.Fusing

/-!
# One filter, told what went over a link

A filter of its own that is told, one after the other, all that went over a link in a network, each time
as things were then. What it answers about a tuple that comes and goes is again one that comes and goes,
and its children know of the tuple exactly while its facts satisfy the predicate.
-/

namespace ConstraintStreams

variable {kind : ScoreKind}

namespace Moment

/-- The link that the signal goes over. -/
def link (m : Moment kind) : Link := ⟨m.node, m.side⟩

def message (m : Moment kind) : Signal × TupleId := (m.signal, m.tuple)

/-- The facts of the tuple at the moment. -/
def facts (m : Moment kind) : Except Error Facts := m.net.agenda.facts m.tuple

/-- A predicate that is asked about the tuple at the moment answers. -/
def Asked (predicate : Facts → Except Error Bool) (m : Moment kind) (passes : Bool) : Prop :=
  ∃ facts, m.facts = .ok facts ∧ predicate facts = .ok passes

end Moment

/-- The signals about a tuple. -/
def signalsAbout (u : TupleId) (log : List (Signal × TupleId)) : List Signal :=
  (log.filter fun message => message.2 = u).map Prod.fst

/-- The last moment at which something is said about a tuple. -/
def latest (u : TupleId) (ms : List (Moment kind)) : Option (Moment kind) :=
  (ms.filter fun m => m.tuple = u).getLast?

theorem signalsAbout_append (u : TupleId) (log log' : List (Signal × TupleId)) :
    signalsAbout u (log ++ log') = signalsAbout u log ++ signalsAbout u log' := by
  simp [signalsAbout]

theorem latest_append_of_ne {u : TupleId} {m : Moment kind} (hne : u ≠ m.tuple)
    (ms : List (Moment kind)) : latest u (ms ++ [m]) = latest u ms := by
  simp [latest, List.filter_append, Ne.symm hne]

theorem latest_append_self (ms : List (Moment kind)) (m : Moment kind) :
    latest m.tuple (ms ++ [m]) = some m := by
  simp [latest, List.filter_append]

/-- The tuple is there if the last that was said about it is not that it is gone. -/
theorem holding_signalsAbout {u : TupleId} {ms : List (Moment kind)} :
    Holding (signalsAbout u (ms.map Moment.message)) ↔
      ∃ m, latest u ms = some m ∧ m.signal ≠ .retract := by
  have hsignals : signalsAbout u (ms.map Moment.message) =
      (ms.filter fun m => m.tuple = u).map Moment.signal := by
    simp only [signalsAbout, List.filter_map, List.map_map]
    rfl
  rw [Holding, hsignals, List.getLast?_map]
  simp [latest, Option.map_eq_some_iff]

namespace FilterMemory

/-- A filter is told something. With its memory goes what it has passed on so far. -/
def hear (predicate : Facts → Except Error Bool) (s : FilterMemory × List (Signal × TupleId))
    (m : Moment kind) : FilterMemory × List (Signal × TupleId) :=
  match accept predicate m.signal m.tuple ⟨s.1, m.net.agenda⟩ with
  | .ok next w => (w.memory, s.2 ++ (next.map (·, m.tuple)).toList)
  | .error _ w => (w.memory, s.2)

/-- A new filter is told one thing after the other. -/
def replay (predicate : Facts → Except Error Bool) (ms : List (Moment kind)) :
    FilterMemory × List (Signal × TupleId) :=
  ms.foldl (hear predicate) ({}, [])

variable {predicate : Facts → Except Error Bool} {s : FilterMemory × List (Signal × TupleId)}
  {ms : List (Moment kind)} {m : Moment kind} {passes : Bool} {u : TupleId}

theorem hear_eq (h : m.Asked predicate passes) : hear predicate s m =
    ((s.1.turn m.signal m.tuple passes).1,
      s.2 ++ ((s.1.turn m.signal m.tuple passes).2.map (·, m.tuple)).toList) := by
  obtain ⟨facts, hfacts, hp⟩ := h
  unfold hear
  rw [accept_eq hfacts hp]

@[simp] theorem replay_nil (predicate : Facts → Except Error Bool) :
    replay predicate ([] : List (Moment kind)) = ({}, []) := rfl

theorem replay_append_singleton (predicate : Facts → Except Error Bool) (ms : List (Moment kind))
    (m : Moment kind) : replay predicate (ms ++ [m]) = hear predicate (replay predicate ms) m := by
  simp [replay]

theorem nodup_replay (hms : ∀ m ∈ ms, ∃ passes, m.Asked predicate passes) :
    (replay predicate ms).1.passed.Nodup := by
  induction ms using List.reverseRecOn with
  | nil => exact List.nodup_nil
  | append_singleton ms m ih =>
    obtain ⟨passes, hasked⟩ := hms m (by simp)
    rw [replay_append_singleton, hear_eq hasked]
    exact nodup_turn (ih fun x hx => hms x (by simp [hx]))

/-- What a filter has answered about a tuple accords with what it was told: its children know of the
tuple exactly if it passes, and it passes if it is there and satisfies the predicate. -/
structure Accords (predicate : Facts → Except Error Bool) (u : TupleId) (ms : List (Moment kind))
    (s : FilterMemory × List (Signal × TupleId)) : Prop where
  hears : Hears (decide (u ∈ s.1.passed)) (signalsAbout u s.2)
  passes_iff : u ∈ s.1.passed ↔
    ∃ m, latest u ms = some m ∧ m.signal ≠ .retract ∧ m.Asked predicate true

namespace Accords

/-- What is said of another tuple changes nothing. -/
theorem other (h : Accords predicate u ms s) (hne : u ≠ m.tuple) (hasked : m.Asked predicate passes) :
    Accords predicate u (ms ++ [m]) (hear predicate s m) := by
  rw [hear_eq hasked]
  constructor
  · have hsame : signalsAbout u ((s.1.turn m.signal m.tuple passes).2.map (·, m.tuple)).toList = [] := by
      cases (s.1.turn m.signal m.tuple passes).2 <;> simp [signalsAbout, Ne.symm hne]
    rw [signalsAbout_append, hsame, List.append_nil, decide_eq_decide.2 (mem_turn_of_ne hne)]
    exact h.hears
  · rw [mem_turn_of_ne hne, latest_append_of_ne hne, h.passes_iff]

theorem self (h : Accords predicate m.tuple ms s) (hnodup : s.1.passed.Nodup)
    (hnew : m.signal = .insert → m.tuple ∉ s.1.passed) (hasked : m.Asked predicate passes) :
    Accords predicate m.tuple (ms ++ [m]) (hear predicate s m) := by
  rw [hear_eq hasked]
  constructor
  · have hnext : signalsAbout m.tuple ((s.1.turn m.signal m.tuple passes).2.map (·, m.tuple)).toList =
        (s.1.turn m.signal m.tuple passes).2.toList := by
      cases (s.1.turn m.signal m.tuple passes).2 <;> simp [signalsAbout]
    rw [signalsAbout_append, hnext]
    exact hears_turn h.hears hnodup hnew
  · rw [mem_turn_self hnodup, latest_append_self]
    have hiff : m.Asked predicate true ↔ passes = true := by
      obtain ⟨facts, hfacts, hp⟩ := hasked
      simp [Moment.Asked, hfacts, hp]
    simp only [Option.some.injEq, exists_eq_left', hiff]
    cases hs : m.signal with
    | insert => simp [hnew hs]
    | update => simp
    | retract => simp

end Accords

/-- A filter that is told of a tuple that comes and goes tells of one that comes and goes, too. The tuple
passes while it is there and its facts, as they were told last, satisfy the predicate. -/
theorem replay_accords (hms : ∀ m ∈ ms, ∃ passes, m.Asked predicate passes)
    (hproper : Lifecycles (signalsAbout u (ms.map Moment.message))) :
    Accords predicate u ms (replay predicate ms) := by
  induction ms using List.reverseRecOn with
  | nil => exact ⟨.nil, by simp [latest]⟩
  | append_singleton ms m ih =>
    obtain ⟨passes, hasked⟩ := hms m (by simp)
    have hbefore : ∀ x ∈ ms, ∃ passes, x.Asked predicate passes := fun x hx => hms x (by simp [hx])
    rw [List.map_append, signalsAbout_append] at hproper
    have h := ih hbefore (hproper.of_beginning (List.prefix_append _ _))
    rw [replay_append_singleton]
    by_cases hu : u = m.tuple
    · subst hu
      refine h.self (nodup_replay hbefore) (fun hs => ?_) hasked
      -- Before it is told as new, the tuple was not there.
      obtain ⟨there, hhears⟩ := lifecycles_iff.1 hproper
      have hinsert : signalsAbout m.tuple ([m].map Moment.message) = [.insert] := by
        simp [signalsAbout, Moment.message, hs]
      rw [hinsert] at hhears
      rw [h.passes_iff]
      rintro ⟨x, hx, hthere, -⟩
      have hfalse := hhears.of_insert.holding_iff.1 (holding_signalsAbout.2 ⟨x, hx, hthere⟩)
      cases hfalse
    · exact h.other hu hasked

end FilterMemory

end ConstraintStreams
