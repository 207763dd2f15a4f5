import ConstraintStreams.Proofs.Tuple.Agenda

/-!
# Names are never used twice

What each operation of the agenda leaves, whichever way it ends: one tuple was made, or one was replaced,
or none moved. From that follows what all work on the agenda keeps, however it is put together:
`Agenda.Continues` says that a name that is gone is gone for good.
-/

namespace ConstraintStreams

/-- The stage of a tuple after it was withdrawn. -/
def Stage.withdrawn : Stage → Stage
  | .creating => .aborting
  | .settled | .updating => .dying
  | stage => stage

namespace Agenda

/-- One tuple is replaced by another one of the same node, and nothing else happens to the tuples. -/
structure Replaces (g g' : Agenda) (id : TupleId) (t t' : Tuple) : Prop where
  found : g.find? id = some t
  node : t'.node = t.node
  find : ∀ x, g'.find? x = if id = x then some t' else g.find? x
  store : g.tuples.Sound → g'.tuples.Sound
  generation : g'.tuples.generation = g.tuples.generation
  registered : ∀ p, (g'.queues.get? p).isSome = (g.queues.get? p).isSome

/-- Every tuple is of a node that has a queue. -/
def Registered (g : Agenda) : Prop :=
  ∀ ⦃id t⦄, g.find? id = some t → ∃ queue, g.queues.get? t.node = some queue

/-- A tuple was made, of a name that is of the current generation. -/
structure Makes (g g' : Agenda) (id : TupleId) (t : Tuple) : Prop where
  free : g.tuples.Sound → g.find? id = none
  current : id.generation = g.tuples.generation
  find : ∀ x, g'.find? x = if id = x then some t else g.find? x
  store : g.tuples.Sound → g'.tuples.Sound
  generation : g'.tuples.generation = g.tuples.generation
  queue : ∃ queue, g'.queues.get? t.node = some queue
  registered : ∀ p, (g'.queues.get? p).isSome = (g.queues.get? p).isSome

/-- No tuple came, went or changed. -/
structure Unmoved (g g' : Agenda) : Prop where
  find : ∀ x, g'.find? x = g.find? x
  store : g.tuples.Sound → g'.tuples.Sound
  generation : g.tuples.generation ≤ g'.tuples.generation
  registered : ∀ p, (g'.queues.get? p).isSome = (g.queues.get? p).isSome

variable {g g' g₀ : Agenda} {id : TupleId} {t t' : Tuple}

/-! ## What each operation leaves -/

theorem Replaces.of_set (ht : g.find? id = some t) (hnode : t'.node = t.node) :
    Replaces g { g with tuples := g.tuples.set id t' } id t t' where
  found := ht
  node := hnode
  find x := g.tuples.find?_set id x t'
  store h := h.set ht t'
  generation := rfl
  registered _ := rfl

/-- A tuple is replaced by itself. -/
theorem Replaces.refl (ht : g.find? id = some t) : Replaces g g id t t where
  found := ht
  node := rfl
  find x := by
    split
    · next hx => exact hx ▸ ht
    · rfl
  store h := h
  generation := rfl
  registered _ := rfl

theorem Unmoved.refl (g : Agenda) : Unmoved g g := ⟨fun _ => rfl, id, Nat.le_refl _, fun _ => rfl⟩

/-- A tuple moves to another stage and is put in the queue of its node. -/
theorem requeue_ends (ht : g.find? id = some t) (stage : Stage) :
    Action.Ends (do setTuple id { t with stage }; enqueue t.node id) g
      (fun _ g' => Replaces g g' id t { t with stage }) fun _ => ¬ g.Registered := by
  have hset : Replaces g { g with tuples := g.tuples.set id { t with stage } } id t { t with stage } :=
    .of_set ht rfl
  unfold setTuple enqueue
  rw [Action.ends_bind, Action.ends_modify, Action.ends_bind, Action.ends_get]
  split
  · next hq =>
    intro hreg
    obtain ⟨queue, hq'⟩ := hreg ht
    rw [show _ = _ from hq] at hq'
    cases hq'
  · next queue hq =>
    refine { hset with registered := fun p => ?_ }
    show ((g.queues.insert t.node (queue ++ [id])).get? p).isSome = _
    rw [Table.get?_insert]
    split
    · next hp => rw [← hp, show _ = _ from hq]; rfl
    · rfl

/-- Changing a tuple moves its stage on, or is refused. -/
theorem update_ends (g : Agenda) (id : TupleId) :
    Action.Ends (update id) g
      (fun _ g' => ∃ t, t.stage.isOpen = true ∧ Replaces g g' id t { t with stage := t.stage.changed })
      fun g' => g.Registered → g' = g := by
  unfold update
  rw [Action.ends_bind, Action.ends_get, Action.ends_bind, Action.ends_lift]
  refine ⟨fun t ht => ?_, fun _ _ _ => rfl⟩
  have hfound : g.find? id = some t := TupleStore.find?_of_get ht
  have hsame := Replaces.refl hfound
  obtain ⟨facts, node, stage, sources⟩ := t
  cases stage with
  | creating => exact ⟨_, rfl, hsame⟩
  | updating => exact ⟨_, rfl, hsame⟩
  | settled =>
    exact (requeue_ends hfound _).mono (fun _ _ h => ⟨_, rfl, h⟩) fun _ hn hreg => absurd hreg hn
  | dying => exact fun _ => rfl
  | aborting => exact fun _ => rfl
  | dead => exact fun _ => rfl

/-- Withdrawing a tuple moves it to its last stage, or is refused. -/
theorem retract_ends (g : Agenda) (id : TupleId) :
    Action.Ends (retract id) g
      (fun _ g' => ∃ t, t.stage.isOpen = true ∧ Replaces g g' id t { t with stage := t.stage.withdrawn })
      fun g' => g.Registered → g' = g := by
  unfold retract
  rw [Action.ends_bind, Action.ends_get, Action.ends_bind, Action.ends_lift]
  refine ⟨fun t ht => ?_, fun _ _ _ => rfl⟩
  have hfound : g.find? id = some t := TupleStore.find?_of_get ht
  obtain ⟨facts, node, stage, sources⟩ := t
  cases stage with
  | creating => exact ⟨_, rfl, .of_set hfound rfl⟩
  | updating => exact ⟨_, rfl, .of_set hfound rfl⟩
  | settled =>
    exact (requeue_ends hfound _).mono (fun _ _ h => ⟨_, rfl, h⟩) fun _ hn hreg => absurd hreg hn
  | dying => exact fun _ => rfl
  | aborting => exact fun _ => rfl
  | dead => exact fun _ => rfl

theorem setFacts_ends (g : Agenda) (id : TupleId) (facts : Facts) :
    Action.Ends (setFacts id facts) g (fun _ g' => ∃ t, Replaces g g' id t { t with facts })
      (· = g) := by
  unfold setFacts setTuple
  rw [Action.ends_bind, Action.ends_get, Action.ends_bind, Action.ends_lift]
  exact ⟨fun t ht => ⟨t, .of_set (TupleStore.find?_of_get ht) rfl⟩, fun _ _ => rfl⟩

theorem setStage_ends (g : Agenda) (id : TupleId) (stage : Stage) :
    Action.Ends (setStage id stage) g (fun _ g' => ∃ t, Replaces g g' id t { t with stage })
      (· = g) := by
  unfold setStage setTuple
  rw [Action.ends_bind, Action.ends_get, Action.ends_bind, Action.ends_lift]
  exact ⟨fun t ht => ⟨t, .of_set (TupleStore.find?_of_get ht) rfl⟩, fun _ _ => rfl⟩

/-- Making a tuple makes one, or leaves none behind. -/
theorem create_ends (g : Agenda) (node : NodeId) (facts : Facts) (sources : Sources) :
    Action.Ends (create node facts sources) g
      (fun id g' => Makes g g' id (Tuple.new node facts sources))
      fun g' => g.tuples.Sound → Unmoved g g' := by
  unfold create
  rw [Action.ends_bind, Action.ends_get, Action.ends_bind, Action.ends_lift]
  refine ⟨fun made hmade => ?_, fun _ _ _ => .refl g⟩
  obtain rfl : g.tuples.insert (Tuple.new node facts sources) = made := by
    obtain ⟨-, -, hmade⟩ := except_bind_eq_ok.1 hmade
    exact Except.ok.inj hmade
  have hfree := fun h : g.tuples.Sound => h.find?_new (Tuple.new node facts sources)
  obtain ⟨hcurrent, hgeneration⟩ := g.tuples.generation_insert (Tuple.new node facts sources)
  have hfind := g.tuples.find?_insert (Tuple.new node facts sources)
  have hsound := fun h : g.tuples.Sound => h.insert (Tuple.new node facts sources)
  generalize g.tuples.insert (Tuple.new node facts sources) = made at *
  obtain ⟨id, tuples⟩ := made
  rw [Action.ends_bind, Action.ends_set, Action.ends_bind]
  refine Action.Ends.handle (S := fun g' => g' = { g with tuples }) ?_ ?_
  · unfold enqueue
    rw [Action.ends_bind, Action.ends_get]
    split
    · rfl
    · next queue hq =>
      refine ⟨hfree, hcurrent, hfind, hsound, hgeneration, ?_, fun p => ?_⟩
      · exact ⟨_, (Table.get?_insert ..).trans (if_pos rfl)⟩
      · show ((g.queues.insert node (queue ++ [id])).get? p).isSome = _
        rw [Table.get?_insert]
        split
        · next hp => rw [← hp, show _ = _ from hq]; rfl
        · rfl
  · rintro e _ rfl
    unfold release
    rw [Action.ends_bind, Action.ends_modify, Action.ends_throw]
    intro hstore
    refine ⟨fun x => ?_, fun _ => (hsound hstore).erase id, ?_, fun _ => rfl⟩
    · refine (tuples.find?_erase id x).trans ?_
      split
      · next hx => exact hx ▸ (hfree hstore).symm
      · next hx => exact (hfind x).trans (if_neg hx)
    · have herased : (tuples.erase id).generation = tuples.generation + 1 :=
        TupleStore.generation_erase ((hfind id).trans (if_pos rfl))
      have hsame : tuples.generation = g.tuples.generation := hgeneration
      show g.tuples.generation ≤ (tuples.erase id).generation
      omega

theorem Unmoved.keeps_registered (h : Unmoved g g') (hreg : g.Registered) : g'.Registered := by
  intro x u hu
  rw [h.find] at hu
  rw [← Option.isSome_iff_exists, h.registered, Option.isSome_iff_exists]
  exact hreg hu

theorem Makes.keeps_registered (h : Makes g g' id t) (hreg : g.Registered) : g'.Registered := by
  intro x u hu
  rw [h.find] at hu
  split at hu
  · cases hu
    exact h.queue
  · rw [← Option.isSome_iff_exists, h.registered, Option.isSome_iff_exists]
    exact hreg hu

theorem Replaces.keeps_registered (h : Replaces g g' id t t') (hreg : g.Registered) :
    g'.Registered := by
  intro x u hu
  rw [← Option.isSome_iff_exists, h.registered, Option.isSome_iff_exists]
  rw [h.find] at hu
  split at hu
  · cases hu
    rw [h.node]
    exact hreg h.found
  · exact hreg hu

/-- Taking the queue of a node answers it, and moves no tuple. -/
theorem takeQueue_ends (g : Agenda) (node : NodeId) :
    Action.Ends (takeQueue node) g
      (fun queue g' => queue = (g.queues.get? node).getD [] ∧ Unmoved g g') (· = g) := by
  unfold takeQueue
  rw [Action.ends_bind, Action.ends_get]
  split
  · next hq => exact ⟨by rw [hq]; rfl, .refl g⟩
  · next queue hq =>
    rw [Action.ends_bind, Action.ends_lift]
    refine ⟨fun pending _ => ?_, fun _ _ => rfl⟩
    refine ⟨by rw [hq]; rfl, fun _ => rfl, fun h => h, Nat.le_refl _, fun p => ?_⟩
    show ((g.queues.insert node []).get? p).isSome = _
    rw [Table.get?_insert]
    split
    · next hp => rw [← hp, hq]; rfl
    · rfl

/-! ## What lasts -/

/-- Changing and withdrawing tuples does not end the property, even where it fails. -/
structure Alters (I : Agenda → Prop) : Prop where
  update : ∀ id, Action.Keeps I (update id)
  retract : ∀ id, Action.Keeps I (retract id)
  setFacts : ∀ id facts, Action.Keeps I (setFacts id facts)

/-- What operators do to an agenda does not end the property, even where it fails. -/
structure Outlasts (I : Agenda → Prop) : Prop extends Alters I where
  create : ∀ node facts sources, Action.Keeps I (create node facts sources)
  number : ∀ g nextVersion, I g → I { g with nextVersion }

/-- It is enough to know what becomes of one tuple at a time. -/
theorem Outlasts.of_steps {I : Agenda → Prop} (hsound : ∀ g, I g → g.tuples.Sound ∧ g.Registered)
    (hunmoved : ∀ {g g'}, I g → Unmoved g g' → I g')
    (hmakes : ∀ {g g' id t}, I g → Makes g g' id t → I g')
    (hreplaces : ∀ {g g' id t t'}, I g → Replaces g g' id t t' → I g') : Outlasts I where
  create node facts sources := fun g h => (create_ends g node facts sources).mono
    (fun _ _ hm => hmakes h hm) fun _ hsame => hunmoved h (hsame (hsound g h).1)
  update id := fun g h => (update_ends g id).mono
    (fun _ _ ⟨_, _, hr⟩ => hreplaces h hr) fun _ hsame => hsame (hsound g h).2 ▸ h
  retract id := fun g h => (retract_ends g id).mono
    (fun _ _ ⟨_, _, hr⟩ => hreplaces h hr) fun _ hsame => hsame (hsound g h).2 ▸ h
  setFacts id facts := fun g h => (setFacts_ends g id facts).mono
    (fun _ _ ⟨_, hr⟩ => hreplaces h hr) fun _ hsame => hsame ▸ h
  number _ _ h := hunmoved h ⟨fun _ => rfl, fun hs => hs, Nat.le_refl _, fun _ => rfl⟩

theorem Outlasts.and {I J : Agenda → Prop} (hI : Outlasts I) (hJ : Outlasts J) :
    Outlasts fun g => I g ∧ J g where
  create node facts sources := (hI.create node facts sources).and (hJ.create node facts sources)
  update id := (hI.update id).and (hJ.update id)
  retract id := (hI.retract id).and (hJ.retract id)
  setFacts id facts := (hI.setFacts id facts).and (hJ.setFacts id facts)
  number g nextVersion h := ⟨hI.number g nextVersion h.1, hJ.number g nextVersion h.2⟩

theorem Outlasts.all {ι : Type} {I : ι → Agenda → Prop} (hI : ∀ i, Outlasts (I i)) :
    Outlasts fun g => ∀ i, I i g where
  create node facts sources := .all fun i => (hI i).create node facts sources
  update id := .all fun i => (hI i).update id
  retract id := .all fun i => (hI i).retract id
  setFacts id facts := .all fun i => (hI i).setFacts id facts
  number g nextVersion h i := (hI i).number g nextVersion (h i)

/-- A name is that of a tuple of a node. -/
structure Owns (p : NodeId) (u : TupleId) (g : Agenda) : Prop where
  store : g.tuples.Sound
  registered : g.Registered
  owned : ∃ t, g.find? u = some t ∧ t.node = p

/-- What is left of an agenda after any work: no name was used twice, and what was made is of a later
generation than what is gone. -/
structure Continues (g₀ g : Agenda) : Prop where
  store : g.tuples.Sound
  registered : g.Registered
  generation : g₀.tuples.generation ≤ g.tuples.generation
  old : ∀ {id t₀}, g₀.find? id = some t₀ → (∃ t, g.find? id = some t ∧ t.node = t₀.node) ∨
    g.find? id = none ∧ id.generation < g.tuples.generation
  fresh : ∀ {id t}, g₀.find? id = none → g.find? id = some t →
    g₀.tuples.generation ≤ id.generation

namespace Continues

theorem start (hstore : g.tuples.Sound) (hreg : g.Registered) : Continues g g where
  store := hstore
  registered := hreg
  generation := Nat.le_refl _
  old ht := .inl ⟨_, ht, rfl⟩
  fresh hnone ht := by rw [hnone] at ht; cases ht

theorem unmoved (h : Continues g₀ g) (hsame : Unmoved g g') : Continues g₀ g' where
  store := hsame.store h.store
  registered := hsame.keeps_registered h.registered
  generation := Nat.le_trans h.generation hsame.generation
  old := by
    intro id t₀ ht₀
    rw [hsame.find]
    refine (h.old ht₀).imp_right fun hgone => ?_
    exact ⟨hgone.1, Nat.lt_of_lt_of_le hgone.2 hsame.generation⟩
  fresh hnone ht := h.fresh hnone ((hsame.find _).symm.trans ht)

theorem makes (h : Continues g₀ g) (hmakes : Makes g g' id t) : Continues g₀ g' where
  store := hmakes.store h.store
  registered := hmakes.keeps_registered h.registered
  generation := by rw [hmakes.generation]; exact h.generation
  old := by
    intro x t₀ ht₀
    rw [hmakes.find, hmakes.generation]
    rcases h.old ht₀ with ⟨u, hu, hnode⟩ | ⟨hgone, hlt⟩
    · have hne : id ≠ x := by
        rintro rfl
        rw [hmakes.free h.store] at hu
        cases hu
      exact .inl ⟨u, (if_neg hne).trans hu, hnode⟩
    · -- The new name is of the current generation, so it is not one of those that are gone.
      have hne : id ≠ x := by
        rintro rfl
        have := hmakes.current
        omega
      exact .inr ⟨(if_neg hne).trans hgone, hlt⟩
  fresh := by
    intro x u hnone hu
    rw [hmakes.find] at hu
    split at hu
    · next hx =>
      rw [← hx, hmakes.current]
      exact h.generation
    · exact h.fresh hnone hu

theorem replaces (h : Continues g₀ g) (hreplaces : Replaces g g' id t t') : Continues g₀ g' where
  store := hreplaces.store h.store
  registered := hreplaces.keeps_registered h.registered
  generation := by rw [hreplaces.generation]; exact h.generation
  old := by
    intro x t₀ ht₀
    rw [hreplaces.find, hreplaces.generation]
    by_cases hx : id = x
    · subst hx
      rw [if_pos rfl]
      rcases h.old ht₀ with ⟨u, hu, hnode⟩ | ⟨hgone, -⟩
      · rw [hreplaces.found] at hu
        cases hu
        exact .inl ⟨t', rfl, hreplaces.node.trans hnode⟩
      · rw [hreplaces.found] at hgone
        cases hgone
    · rw [if_neg hx]
      exact h.old ht₀
  fresh := by
    intro x u hnone hu
    rw [hreplaces.find] at hu
    split at hu
    · next hx => exact h.fresh hnone (hx ▸ hreplaces.found)
    · exact h.fresh hnone hu

/-- A name that is released is gone for good. -/
theorem release (h : Continues g₀ g) (id : TupleId) :
    Continues g₀ { g with tuples := g.tuples.erase id } := by
  have hfind : ∀ x, find? { g with tuples := g.tuples.erase id } x = if id = x then none else g.find? x :=
    g.tuples.find?_erase id
  cases hid : g.find? id with
  | none =>
    refine h.unmoved ⟨fun x => (hfind x).trans ?_, fun hs => hs.erase id, ?_, fun _ => rfl⟩
    · split
      · next hx => rw [← hx, hid]
      · rfl
    · have hfree : g.tuples.contains id = false := by
        rw [← Bool.not_eq_true]
        intro hc
        obtain ⟨t, ht⟩ := Option.isSome_iff_exists.1 hc
        rw [show g.find? id = some t from ht] at hid
        cases hid
      simp [TupleStore.erase, hfree]
  | some t =>
    have hgeneration : (g.tuples.erase id).generation = g.tuples.generation + 1 :=
      TupleStore.generation_erase hid
    refine ⟨h.store.erase id, fun {x u} hu => ?_, ?_, fun {x t₀} ht₀ => ?_, fun {x u} hnone hu => ?_⟩
    · rw [hfind] at hu
      split at hu
      · cases hu
      · exact h.registered hu
    · have := h.generation
      show g₀.tuples.generation ≤ (g.tuples.erase id).generation
      omega
    · rw [hfind]
      show _ ∨ _ ∧ x.generation < (g.tuples.erase id).generation
      by_cases hx : id = x
      · subst hx
        have := h.store.generation_le hid
        exact .inr ⟨if_pos rfl, by omega⟩
      · rw [if_neg hx]
        refine (h.old ht₀).imp_right fun hgone => ?_
        have hlt := hgone.2
        exact ⟨hgone.1, by omega⟩
    · rw [hfind] at hu
      split at hu
      · cases hu
      · exact h.fresh hnone hu

/-- All names are released at once. -/
theorem cleared (h : Continues g₀ g) (hnone : ∀ x, g'.find? x = none)
    (hstore : g'.tuples.Sound) (hle : g.tuples.generation ≤ g'.tuples.generation)
    (hlt : ∀ {x t}, g.find? x = some t → x.generation < g'.tuples.generation) : Continues g₀ g' where
  store := hstore
  registered _ _ hx := by rw [hnone] at hx; cases hx
  generation := Nat.le_trans h.generation hle
  old := by
    intro x t₀ ht₀
    refine .inr ⟨hnone x, ?_⟩
    rcases h.old ht₀ with ⟨t, ht, -⟩ | ⟨-, hgone⟩
    · exact hlt ht
    · omega
  fresh _ hx := by rw [hnone] at hx; cases hx

/-- Work goes on whatever operators do. -/
theorem outlasts (g₀ : Agenda) : Outlasts (Continues g₀) :=
  .of_steps (fun _ h => ⟨h.store, h.registered⟩) unmoved makes replaces

end Continues

namespace Owns

variable {p : NodeId} {u : TupleId}

theorem unmoved (h : Owns p u g) (hsame : Unmoved g g') : Owns p u g' where
  store := hsame.store h.store
  registered := hsame.keeps_registered h.registered
  owned := by rw [hsame.find]; exact h.owned

theorem makes (h : Owns p u g) (hmakes : Makes g g' id t) : Owns p u g' where
  store := hmakes.store h.store
  registered := hmakes.keeps_registered h.registered
  owned := by
    obtain ⟨tu, hu, hnode⟩ := h.owned
    have hne : id ≠ u := by
      intro he
      rw [← he, hmakes.free h.store] at hu
      cases hu
    exact ⟨tu, (hmakes.find u).trans ((if_neg hne).trans hu), hnode⟩

theorem replaces (h : Owns p u g) (hreplaces : Replaces g g' id t t') : Owns p u g' where
  store := hreplaces.store h.store
  registered := hreplaces.keeps_registered h.registered
  owned := by
    obtain ⟨tu, hu, hnode⟩ := h.owned
    rw [hreplaces.find]
    split
    · next hid =>
      subst hid
      rw [hreplaces.found] at hu
      cases hu
      exact ⟨t', rfl, hreplaces.node.trans hnode⟩
    · exact ⟨tu, hu, hnode⟩

/-- Operators take no name away. -/
theorem outlasts (p : NodeId) (u : TupleId) : Outlasts (Owns p u) :=
  .of_steps (fun _ h => ⟨h.store, h.registered⟩) unmoved makes replaces

end Owns

end Agenda

end ConstraintStreams
