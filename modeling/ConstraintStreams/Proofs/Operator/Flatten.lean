import Mathlib.Data.List.Nodup
import ConstraintStreams.Network.Basic
import ConstraintStreams.Proofs.Operator.Bench

/-!
# Flattening lists the items of its inputs

Flattening has a list of outputs for each input that it holds, one for each item. The outputs of an
input that it knows carry the items of the last fact, in their order.
-/

namespace ConstraintStreams

namespace FlattenMemory

/-- What the outputs of an input show: one item each, behind the other facts of the input. -/
def IsExpansion (items : Fact → Except Error (List Fact)) (input : TupleId) (told : Facts)
    (shown : List (Option (Facts × Sources))) : Prop :=
  ∃ last expanded n, told.last? = .ok last ∧ items last = .ok expanded ∧
    shown = (Fact.numberItemsFrom n expanded).1.map fun item =>
      some (told.dropLast ++ [item], .single input)

/-- What holds of the memory of flattening between signals. -/
structure Valid (items : Fact → Except Error (List Fact)) (v : View)
    (out : TupleId → Option (Facts × Sources)) (m : FlattenMemory) : Prop where
  held : v.Lists .only m.outputs
  opened : ∀ {input os}, m.outputs.get? input = some os →
    os.Nodup ∧ ∀ o ∈ os, ∃ e, out o = some e
  owned : ∀ {o e}, out o = some e → ∃ input os, m.outputs.get? input = some os ∧ o ∈ os
  inj : ∀ {input input' os os' o}, m.outputs.get? input = some os →
    m.outputs.get? input' = some os' → o ∈ os → o ∈ os' → input = input'
  expands : ∀ {input os told}, m.outputs.get? input = some os → v.Known .only input told →
    IsExpansion items input told (os.map out)

variable {E : Error → Prop} {node : NodeId} {away : List TupleId} {g₀ g : Agenda}
  {m : FlattenMemory} {out out' : TupleId → Option (Facts × Sources)} {v v' : View}
  {items : Fact → Except Error (List Fact)} {input : TupleId} {os : List TupleId} {t : Tuple}
  {facts : Facts}

theorem Valid.fades (h : Valid items v out m) (hv : View.Fades v v') : Valid items v' out m where
  held := h.held.fades hv
  opened := h.opened
  owned := h.owned
  inj := h.inj
  expands ho hk := h.expands ho (hv.known hk)

theorem Valid.empty (hout : ∀ o, out o = none) (hv : ∀ side input, v.told side input = none) :
    Valid items v out {} where
  held := .empty hv
  opened h := by simp [EmptyCollection.emptyCollection] at h
  owned h := by simp [hout] at h
  inj h := by simp [EmptyCollection.emptyCollection] at h
  expands h := by simp [EmptyCollection.emptyCollection] at h

/-- A flattening that was told nothing remembers nothing and has no outputs. -/
theorem Valid.blank (h : Valid items v out m) (hv : ∀ side input, v.told side input = none) :
    m = {} ∧ ∀ o, out o = none := by
  have houtputs : m.outputs = ∅ := h.held.eq_empty hv
  refine ⟨?_, fun o => ?_⟩
  · obtain ⟨outputs⟩ := m
    cases houtputs
    rfl
  · cases ho : out o with
    | none => rfl
    | some e =>
      obtain ⟨input, os, hos, -⟩ := h.owned ho
      rw [houtputs] at hos
      cases hos

/-- The outputs of one input say nothing about those of the others. -/
theorem map_out_of_disjoint {os : List TupleId} (h : ∀ o ∈ os, out' o = out o) :
    os.map out' = os.map out :=
  List.map_congr_left h

theorem Valid.insert (h : Valid items v out m) (hnew : ¬ v.Held .only input) (hnodup : os.Nodup)
    (hfresh : ∀ o ∈ os, out o = none) (hopen : ∀ o ∈ os, ∃ e, out' o = some e)
    (hout : ∀ x, x ∉ os → out' x = out x) (hshown : IsExpansion items input facts (os.map out')) :
    Valid items (v.tell .only input facts) out' ⟨m.outputs.insert input os⟩ := by
  have hnone := h.held.get?_none hnew
  have apart : ∀ {x os' o}, m.outputs.get? x = some os' → o ∈ os' → o ∉ os := by
    intro x os' o hx ho hmem
    obtain ⟨e, he⟩ := (h.opened hx).2 o ho
    rw [hfresh o hmem] at he
    cases he
  constructor
  · exact h.held.insert facts os
  · intro x os' hx
    rw [Table.get?_insert] at hx
    split at hx
    · cases hx; exact ⟨hnodup, hopen⟩
    · obtain ⟨hn, ho⟩ := h.opened hx
      exact ⟨hn, fun o hmem => by rw [hout o (apart hx hmem)]; exact ho o hmem⟩
  · intro o e ho
    by_cases hmem : o ∈ os
    · exact ⟨input, os, by simp, hmem⟩
    · rw [hout o hmem] at ho
      obtain ⟨x, os', hx, hmem'⟩ := h.owned ho
      have hne : input ≠ x := fun he => by rw [← he, hnone] at hx; cases hx
      exact ⟨x, os', by simp [hne, hx], hmem'⟩
  · intro x x' os₁ os₂ o hx hx' ho ho'
    rw [Table.get?_insert] at hx hx'
    split at hx <;> split at hx'
    · next he he' => exact he.symm.trans he'
    · cases hx; exact absurd ho (apart hx' ho')
    · cases hx'; exact absurd ho' (apart hx ho)
    · exact h.inj hx hx' ho ho'
  · intro x os' told hx hk
    rw [Table.get?_insert] at hx
    split at hx
    · next he =>
      subst he
      cases hx
      rw [View.known_tell_self] at hk
      exact hk ▸ hshown
    · next hne =>
      rw [View.known_tell_of_ne (by simp [hne])] at hk
      rw [map_out_of_disjoint fun o ho => hout o (apart hx ho)]
      exact h.expands hx hk

theorem Valid.erase (h : Valid items v out m) (hm : m.outputs.get? input = some os)
    (hout : ∀ x, out' x = if x ∈ os then none else out x) :
    Valid items (v.drop .only input) out' ⟨m.outputs.erase input⟩ := by
  have apart : ∀ {x os' o}, input ≠ x → m.outputs.get? x = some os' → o ∈ os' → o ∉ os :=
    fun hne hx ho hmem => hne (h.inj hm hx hmem ho)
  have same : ∀ {x os'}, input ≠ x → m.outputs.get? x = some os' → ∀ o ∈ os', out' o = out o :=
    fun hne hx o ho => by rw [hout, if_neg (apart hne hx ho)]
  constructor
  · exact h.held.erase
  · intro x os' hx
    rw [Table.get?_erase] at hx
    split at hx
    · cases hx
    · next hne =>
      obtain ⟨hn, ho⟩ := h.opened hx
      exact ⟨hn, fun o hmem => by rw [same hne hx o hmem]; exact ho o hmem⟩
  · intro o e ho
    rw [hout] at ho
    split at ho
    · cases ho
    · next hmem =>
      obtain ⟨x, os', hx, hmem'⟩ := h.owned ho
      have hne : input ≠ x := fun he => by
        rw [← he, hm] at hx
        cases hx
        exact hmem hmem'
      exact ⟨x, os', by simp [hne, hx], hmem'⟩
  · intro x x' os₁ os₂ o hx hx'
    rw [Table.get?_erase] at hx hx'
    split at hx
    · cases hx
    · split at hx'
      · cases hx'
      · exact h.inj hx hx'
  · intro x os' told hx hk
    rw [Table.get?_erase] at hx
    split at hx
    · cases hx
    · next hne =>
      rw [map_out_of_disjoint (same hne hx)]
      exact h.expands hx (View.known_drop.1 hk).2

/-! ## What flattening does on signals -/

/-- Making a list of outputs makes them one by one, each under a name of its own. -/
theorem createAll_spec (hb : Bench node away g₀ g) (rows : Fact → Facts) (sources : Sources)
    (hlimit : ∀ limit details, E (.resourceLimit limit details)) (expanded : List Fact)
    {Q : List TupleId → Workbench FlattenMemory → Prop}
    (hQ : ∀ os g', Bench node away g₀ g' → os.Nodup → (∀ o ∈ os, g.openAt node o = none) →
      os.map (g'.openAt node) = expanded.map (fun item => some (rows item, sources)) →
      (∀ x, x ∉ os → g'.openAt node x = g.openAt node x) → Q os ⟨m, g'⟩) :
    Action.Ensures E (expanded.mapM fun item =>
      (liftM (Agenda.create node (rows item) sources) : Work FlattenMemory TupleId)) ⟨m, g⟩ Q := by
  induction expanded generalizing g Q with
  | nil => exact hQ [] g hb List.nodup_nil (by simp) rfl fun _ _ => rfl
  | cons item rest ih =>
    rw [List.mapM_cons, Action.ensures_bind]
    refine hb.create hlimit fun o g' hb' hfree hout => ?_
    rw [Action.ensures_bind]
    refine ih hb' fun os g'' hb'' hnodup hfresh hmap hsame => ?_
    have ho : o ∉ os := fun hmem => by
      have := hfresh o hmem
      rw [hout, if_pos rfl] at this
      cases this
    refine hQ (o :: os) g'' hb'' (List.nodup_cons.2 ⟨ho, hnodup⟩) ?_ ?_ ?_
    · intro x hx
      rcases List.mem_cons.1 hx with rfl | hx
      · exact Agenda.openAt_of_none node hfree
      · have := hfresh x hx
        have hne : o ≠ x := fun he => ho (he ▸ hx)
        rwa [hout, if_neg hne] at this
    · rw [List.map_cons, List.map_cons, hmap, hsame o ho, hout, if_pos rfl]
    · intro x hx
      rw [List.mem_cons, not_or] at hx
      rw [hsame x hx.2, hout, if_neg (Ne.symm hx.1)]

/-- Withdrawing a list of different outputs withdraws them one by one. -/
theorem retractAll_spec (hb : Bench node away g₀ g) (hnodup : os.Nodup)
    (hopen : ∀ o ∈ os, ∃ e, g.openAt node o = some e)
    {Q : Unit → Workbench FlattenMemory → Prop}
    (hQ : ∀ g', Bench node away g₀ g' →
      (∀ x, g'.openAt node x = if x ∈ os then none else g.openAt node x) → Q () ⟨m, g'⟩) :
    Action.Ensures E (os.forM fun o => (liftM (Agenda.retract o) : Work FlattenMemory Unit))
      ⟨m, g⟩ Q := by
  induction os generalizing g with
  | nil => exact hQ g hb (by simp)
  | cons o rest ih =>
    rw [List.nodup_cons] at hnodup
    obtain ⟨⟨old, sources⟩, ho⟩ := hopen o (by simp)
    rw [Action.ensures_forM_cons]
    refine hb.retract ho fun g' hb' hout => ?_
    refine ih hb' hnodup.2 ?_ fun g'' hb'' hout' => hQ g'' hb'' fun x => ?_
    · intro x hx
      have hne : o ≠ x := fun he => hnodup.1 (he ▸ hx)
      rw [hout, if_neg hne]
      exact hopen x (List.mem_cons_of_mem _ hx)
    · rw [hout', hout]
      by_cases he : o = x
      · subst he; simp
      · simp [he, Ne.symm he]

theorem insert_spec (hb : Bench node away g₀ g) (hv : Valid items v (g.openAt node) m)
    (hnew : ¬ v.Held .only input) (ht : g₀.find? input = some t) (hne : t.node ≠ node)
    (hlimit : ∀ limit details, E (.resourceLimit limit details))
    (harity : ∀ m n, E (.invalidArity m n)) (hitems : ∀ fact e, items fact = .error e → E e) :
    Action.Ensures E (insert node items input) ⟨m, g⟩ fun _ w' =>
      Bench node away g₀ w'.agenda ∧
        Valid items (v.tell .only input t.facts) (w'.agenda.openAt node) w'.memory := by
  unfold insert
  simp only [Action.ensures_bind, hb.ensures_inputFacts ht hne, Action.ensures_lift]
  refine ⟨fun last hlast => ⟨fun expanded hexpanded => ?_, hitems last⟩, fun e he => ?_⟩
  · refine hb.number fun n g' hb' hsame => ?_
    refine createAll_spec hb' (fun item => t.facts.dropLast ++ [item]) (.single input) hlimit _ ?_
    intro os g'' hb'' hnodup hfresh hmap hkept
    have hshown : ∀ o ∈ os, ∃ e, g''.openAt node o = some e := by
      intro o ho
      have hmem : g''.openAt node o ∈ os.map (g''.openAt node) := List.mem_map_of_mem ho
      rw [hmap, List.mem_map] at hmem
      obtain ⟨item, -, hitem⟩ := hmem
      exact ⟨_, hitem.symm⟩
    refine ⟨hb'', hv.insert hnew hnodup (fun o ho => ?_) hshown (fun x hx => ?_) ?_⟩
    · rw [← hsame, hfresh o ho]
    · rw [hkept x hx, hsame]
    · exact ⟨last, expanded, n, hlast, hexpanded, hmap⟩
  · unfold Facts.last? at he
    split at he
    · cases he
    · cases he; exact harity _ _

theorem retract_spec (hb : Bench node away g₀ g) (hv : Valid items v (g.openAt node) m)
    (hheld : v.Held .only input) :
    Action.Ensures E (retract input) ⟨m, g⟩ fun _ w' =>
      Bench node away g₀ w'.agenda ∧
        Valid items (v.drop .only input) (w'.agenda.openAt node) w'.memory := by
  obtain ⟨os, hm⟩ := hv.held.get?_some hheld
  obtain ⟨hnodup, hopen⟩ := hv.opened hm
  unfold retract
  simp only [Action.ensures_bind, Bench.ensures_memory, hm, Bench.ensures_setMemory]
  exact retractAll_spec hb hnodup hopen fun g' hb' hout => ⟨hb', hv.erase hm hout⟩

/-- On each signal, flattening brings the outputs of the input up to date. -/
theorem signal_spec (hb : Bench node away g₀ g) (hv : Valid items v (g.openAt node) m)
    {signal : Signal} (hexpects : v.Expects signal .only input) (ht : g₀.find? input = some t)
    (hne : t.node ≠ node) (hlimit : ∀ limit details, E (.resourceLimit limit details))
    (harity : ∀ m n, E (.invalidArity m n)) (hitems : ∀ fact e, items fact = .error e → E e) :
    Action.Ensures E (Network.signalFlatten node items input signal) ⟨m, g⟩ fun _ w' =>
      Bench node away g₀ w'.agenda ∧
        Valid items (v.after signal .only input t.facts) (w'.agenda.openAt node) w'.memory := by
  cases signal with
  | insert =>
    exact insert_spec hb hv (fun h => hexpects.1 h rfl) ht hne hlimit harity hitems
  | update =>
    show Action.Ensures E (update node items input) ⟨m, g⟩ _
    unfold update
    rw [Action.ensures_bind]
    refine (retract_spec hb hv (hexpects.2 (by simp))).mono fun _ w' ⟨hb', hv'⟩ => ?_
    refine (insert_spec hb' hv' (by simp) ht hne hlimit harity hitems).mono fun _ w'' h => ?_
    rwa [View.tell_drop] at h
  | retract => exact retract_spec hb hv (hexpects.2 (by simp))

end FlattenMemory

end ConstraintStreams
