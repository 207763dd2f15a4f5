import Mathlib.Data.List.Nodup
import ConstraintStreams.Network.Basic
import ConstraintStreams.Proofs.Operator.Bench

/-!
# Filters know what passes

A filter remembers some of the inputs that it was told about, and of those that it knows as they
are, exactly the ones that satisfy its predicate. What it passes on tells its children how the
input came to pass, or ceased to.
-/

namespace ConstraintStreams

namespace FilterMemory

/-- What holds of the memory of a filter between signals. -/
structure Valid (predicate : Facts → Except Error Bool) (v : View) (m : FilterMemory) : Prop where
  held : ∀ {input}, input ∈ m.passed → v.Held .only input
  passed_iff : ∀ {input facts}, v.Known .only input facts →
    (input ∈ m.passed ↔ predicate facts = .ok true)
  nodup : m.passed.Nodup

/-- The signal tells how an input came to pass, or ceased to. The other inputs pass as before. -/
structure Tells (input : TupleId) (passed passed' : List TupleId) (next : Option Signal) : Prop where
  before : input ∈ passed ↔ ∃ signal, next = some signal ∧ signal ≠ .insert
  after : input ∈ passed' ↔ ∃ signal, next = some signal ∧ signal ≠ .retract
  other : ∀ x, x ≠ input → (x ∈ passed' ↔ x ∈ passed)

variable {E : Error → Prop} {predicate : Facts → Except Error Bool} {v v' : View}
  {m : FilterMemory} {g : Agenda} {input : TupleId} {t : Tuple} {facts : Facts}

theorem Valid.fades (h : Valid predicate v m) (hv : View.Fades v v') : Valid predicate v' m where
  held hm := hv.held.2 (h.held hm)
  passed_iff hk := h.passed_iff (hv.known hk)
  nodup := h.nodup

theorem Valid.empty (hv : ∀ side input, v.told side input = none) : Valid predicate v {} where
  held h := by cases h
  passed_iff h := by simp [View.Known, hv] at h
  nodup := List.nodup_nil

/-- A filter that was told nothing lets nothing pass. -/
theorem Valid.blank (h : Valid predicate v m) (hv : ∀ side input, v.told side input = none) :
    m.passed = [] := by
  rw [List.eq_nil_iff_forall_not_mem]
  intro input hm
  have := h.held hm
  simp [View.Held, hv] at this

/-- An input that satisfies the predicate is noted. -/
theorem Valid.pass (h : Valid predicate v m) (input : TupleId)
    (hp : predicate facts = .ok true) :
    Valid predicate (v.tell .only input facts) ⟨m.passed.insert input⟩ where
  held := by
    intro x hx
    rw [View.held_tell]
    rcases List.mem_insert_iff.1 hx with rfl | hx
    · exact .inl ⟨rfl, rfl⟩
    · exact .inr (h.held hx)
  passed_iff := by
    intro x f hk
    rw [List.mem_insert_iff]
    by_cases he : input = x
    · subst he
      rw [View.known_tell_self] at hk
      subst hk
      simp [hp]
    · rw [View.known_tell_of_ne (by simp [he])] at hk
      simpa [Ne.symm he] using h.passed_iff hk
  nodup := h.nodup.insert

/-- An input that does not satisfy the predicate is struck out. -/
theorem Valid.stop (h : Valid predicate v m) (input : TupleId)
    (hp : predicate facts = .ok false) :
    Valid predicate (v.tell .only input facts) ⟨m.passed.erase input⟩ where
  held := by
    intro x hx
    rw [View.held_tell]
    exact .inr (h.held (List.mem_of_mem_erase hx))
  passed_iff := by
    intro x f hk
    rw [h.nodup.mem_erase_iff]
    by_cases he : input = x
    · subst he
      rw [View.known_tell_self] at hk
      subst hk
      simp [hp]
    · rw [View.known_tell_of_ne (by simp [he])] at hk
      simpa [Ne.symm he] using h.passed_iff hk
  nodup := h.nodup.erase input

theorem Valid.drop (h : Valid predicate v m) (input : TupleId) :
    Valid predicate (v.drop .only input) ⟨m.passed.erase input⟩ where
  held := by
    intro x hx
    rw [h.nodup.mem_erase_iff] at hx
    rw [View.held_drop]
    exact ⟨fun he => hx.1 he.2.symm, h.held hx.2⟩
  passed_iff := by
    intro x f hk
    rw [View.known_drop] at hk
    rw [h.nodup.mem_erase_iff, h.passed_iff hk.2]
    exact ⟨And.right, fun hp => ⟨fun he => hk.1 ⟨rfl, he.symm⟩, hp⟩⟩
  nodup := h.nodup.erase input

/-- On each signal, a filter notes whether the input passes, and tells what came of that. -/
theorem signal_spec (hv : Valid predicate v m) {signal : Signal}
    (hexpects : v.Expects signal .only input) (ht : g.find? input = some t)
    (hpredicate : ∀ facts e, predicate facts = .error e → E e) :
    Action.Ensures E (accept predicate signal input) ⟨m, g⟩ fun next w' =>
      w'.agenda = g ∧ Valid predicate (v.after signal .only input t.facts) w'.memory ∧
        Tells input m.passed w'.memory.passed next := by
  have entered (h : input ∉ m.passed) :
      Tells input m.passed (m.passed.insert input) (some .insert) :=
    ⟨by simp [h], by simp, fun x hx => by simp [List.mem_insert_iff, hx]⟩
  have left (h : input ∈ m.passed) : Tells input m.passed (m.passed.erase input) (some .retract) :=
    ⟨by simp [h], by simp [hv.nodup.mem_erase_iff], fun x hx => by simp [hv.nodup.mem_erase_iff, hx]⟩
  have stayed (h : input ∈ m.passed) : Tells input m.passed m.passed (some .update) :=
    ⟨by simp [h], by simp [h], fun _ _ => Iff.rfl⟩
  have missed (h : input ∉ m.passed) : Tells input m.passed m.passed none :=
    ⟨by simp [h], by simp [h], fun _ _ => Iff.rfl⟩
  unfold accept
  rw [Action.ensures_bind, Bench.ensures_memory]
  cases signal with
  | insert =>
    have hnew : input ∉ m.passed := fun h => hexpects.1 (hv.held h) rfl
    simp only [Action.ensures_bind, Bench.ensures_facts ht, Action.ensures_lift]
    refine ⟨fun passes hp => ?_, hpredicate t.facts⟩
    split
    · next h =>
      subst h
      exact ⟨rfl, hv.pass input hp, entered hnew⟩
    · next h =>
      rw [Bool.not_eq_true] at h
      subst h
      have hsame := hv.stop input hp
      rw [List.erase_of_not_mem hnew] at hsame
      exact ⟨rfl, hsame, missed hnew⟩
  | update =>
    simp only [Action.ensures_bind, Bench.ensures_facts ht, Action.ensures_lift]
    refine ⟨fun passes hp => ?_, hpredicate t.facts⟩
    cases hc : m.passed.contains input with
    | true =>
      have hmem : input ∈ m.passed := List.contains_iff_mem.1 hc
      cases passes with
      | true =>
        have hsame := hv.pass input hp
        rw [List.insert_of_mem hmem] at hsame
        exact ⟨rfl, hsame, stayed hmem⟩
      | false => exact ⟨rfl, hv.stop input hp, left hmem⟩
    | false =>
      have hnew : input ∉ m.passed := fun h => by
        rw [List.contains_iff_mem.2 h] at hc; cases hc
      cases passes with
      | true => exact ⟨rfl, hv.pass input hp, entered hnew⟩
      | false =>
        have hsame := hv.stop input hp
        rw [List.erase_of_not_mem hnew] at hsame
        exact ⟨rfl, hsame, missed hnew⟩
  | retract =>
    dsimp only
    split
    · next hc => exact ⟨rfl, hv.drop input, left (List.contains_iff_mem.1 hc)⟩
    · next hc =>
      have hnew : input ∉ m.passed := fun h => hc (List.contains_iff_mem.2 h)
      have hsame := hv.drop input
      rw [List.erase_of_not_mem hnew] at hsame
      exact ⟨rfl, hsame, missed hnew⟩

end FilterMemory

end ConstraintStreams
