import ConstraintStreams.Proofs.Tuple.Belonging
import ConstraintStreams.Proofs.Tuple.Drain

/-!
# What waits is dirty

A tuple in the queue of a node is one of the node, and has a dirty stage, whatever was done before and
whether or not it failed. That is less than that the agenda is sound: after a drain that was broken off,
there may be dirty tuples that are in no queue.
-/

namespace ConstraintStreams

open ConstraintStreams.Action (Ends Keeps)

namespace Agenda

variable {away rest : List TupleId} {g g' : Agenda} {p : NodeId} {u : TupleId} {t t' : Tuple}

/-- The queues hold dirty tuples of their nodes, each once. The tuples of `away` are dirty ones that were
taken out of their queue to be looked at. -/
structure Waiting (away : List TupleId) (g : Agenda) : Prop where
  orderly : g.Orderly
  dirty : ∀ {p u}, g.Queued p u → ∃ t, g.find? u = some t ∧ t.node = p ∧ t.stage.isDirty = true
  queue_nodup : ∀ {p queue}, g.queues.get? p = some queue → queue.Nodup
  away_dirty : ∀ {u}, u ∈ away → ∃ t, g.find? u = some t ∧ t.stage.isDirty = true
  away_nodup : away.Nodup
  away_queued : ∀ {u}, u ∈ away → ∀ p, ¬ g.Queued p u

namespace Waiting

/-- What was taken out of a queue may be lost sight of. -/
theorem lose (h : Waiting away g) (hrest : rest.Sublist away) : Waiting rest g where
  orderly := h.orderly
  dirty := h.dirty
  queue_nodup := h.queue_nodup
  away_dirty hu := h.away_dirty (hrest.mem hu)
  away_nodup := h.away_nodup.sublist hrest
  away_queued hu := h.away_queued (hrest.mem hu)

theorem forget (h : Waiting away g) : Waiting [] g := h.lose (List.nil_sublist away)

/-- A tuple that is queued, or was, is dirty. -/
theorem isDirty (h : Waiting away g) (ht : g.find? u = some t) (hu : u ∈ away ∨ ∃ p, g.Queued p u) :
    t.stage.isDirty = true := by
  rcases hu with hu | ⟨p, hu⟩
  · obtain ⟨t', ht', hdirty⟩ := h.away_dirty hu
    cases ht.symm.trans ht'
    exact hdirty
  · obtain ⟨t', ht', -, hdirty⟩ := h.dirty hu
    cases ht.symm.trans ht'
    exact hdirty

theorem unmoved (h : Waiting away g) (hsame : Unmoved g g') (hqueues : g'.queues = g.queues) :
    Waiting away g' := by
  have hqueued {p : NodeId} {x : TupleId} (hx : g'.Queued p x) : g.Queued p x := by
    unfold Queued at hx
    rwa [hqueues] at hx
  refine ⟨.of_continues (h.orderly.start.unmoved hsame), fun hx => ?_, fun hq => ?_, fun hx => ?_,
    h.away_nodup, fun hx p hp => h.away_queued hx p (hqueued hp)⟩
  · rw [hsame.find]
    exact h.dirty (hqueued hx)
  · exact h.queue_nodup (hqueues ▸ hq)
  · rw [hsame.find]
    exact h.away_dirty hx

/-- A tuple may be replaced by one of its node that is dirty if it was. -/
theorem put (h : Waiting away g) (ht : g.find? u = some t) (hnode : t'.node = t.node)
    (hdirty : t.stage.isDirty = true → t'.stage.isDirty = true) :
    Waiting away { g with tuples := g.tuples.set u t' } := by
  have hreplaces : Replaces g { g with tuples := g.tuples.set u t' } u t t' := .of_set ht hnode
  refine ⟨.of_continues (h.orderly.start.replaces hreplaces), fun {p x} hx => ?_, h.queue_nodup,
    fun {x} hx => ?_, h.away_nodup, h.away_queued⟩
  · obtain ⟨s, hs, hp, hstage⟩ := h.dirty hx
    rw [hreplaces.find]
    split
    · next hux =>
      subst hux
      cases ht.symm.trans hs
      exact ⟨t', rfl, hnode.trans hp, hdirty hstage⟩
    · exact ⟨s, hs, hp, hstage⟩
  · obtain ⟨s, hs, hstage⟩ := h.away_dirty hx
    rw [hreplaces.find]
    split
    · next hux =>
      subst hux
      cases ht.symm.trans hs
      exact ⟨t', rfl, hdirty hstage⟩
    · exact ⟨s, hs, hstage⟩

/-- A tuple that turns dirty, or is there from now on, may be put at the end of the queue of its node. -/
theorem push (h : Waiting away g) (t' : Tuple) {queue : List TupleId} {tuples : TupleStore} {pending : Nat}
    (hidle : ∀ t, g.find? u = some t → t.stage.isDirty = false) (hstore : tuples.Sound)
    (hfind : ∀ x, tuples.find? x = if u = x then some t' else g.find? x)
    (hdirty : t'.stage.isDirty = true) (hq : g.queues.get? t'.node = some queue) :
    Waiting away { g with tuples, pending, queues := g.queues.insert t'.node (queue ++ [u]) } := by
  have hqueued := queued_append hq u tuples pending
  have hnot : ¬ (u ∈ away ∨ ∃ p, g.Queued p u) := by
    intro hu
    have hlive : ∃ t, g.find? u = some t := by
      rcases hu with hu | ⟨p, hu⟩
      · obtain ⟨t, ht, -⟩ := h.away_dirty hu
        exact ⟨t, ht⟩
      · obtain ⟨t, ht, -⟩ := h.dirty hu
        exact ⟨t, ht⟩
    obtain ⟨t, ht⟩ := hlive
    have hclean := hidle t ht
    rw [h.isDirty ht hu] at hclean
    cases hclean
  obtain ⟨haway, hidle⟩ := not_or.1 hnot
  refine ⟨⟨hstore, fun x s hs => ?_⟩, fun {p x} hx => ?_, fun {p q} hget => ?_, fun {x} hx => ?_,
    h.away_nodup, fun {x} hx p hp => ?_⟩
  · replace hs := (hfind x).symm.trans hs
    simp only [Table.get?_insert]
    split
    · exact ⟨_, rfl⟩
    · next hne =>
      split at hs
      · cases hs
        exact absurd rfl hne
      · exact h.orderly.registered hs
  · rcases (hqueued p x).1 hx with ⟨rfl, rfl⟩ | hx
    · exact ⟨t', (hfind u).trans (if_pos rfl), rfl, hdirty⟩
    · obtain ⟨s, hs, hp⟩ := h.dirty hx
      have hne : u ≠ x := fun he => hidle ⟨p, he ▸ hx⟩
      exact ⟨s, (hfind x).trans ((if_neg hne).trans hs), hp⟩
  · replace hget := (Table.get?_insert ..).symm.trans hget
    split at hget
    · cases hget
      have hnew : u ∉ queue := fun hu => hidle ⟨_, queue, hq, hu⟩
      exact List.nodup_append.2 ⟨h.queue_nodup hq, List.pairwise_singleton _ _, fun a ha b hb he =>
        hnew (List.mem_singleton.1 hb ▸ he ▸ ha)⟩
    · exact h.queue_nodup hget
  · obtain ⟨s, hs, hstage⟩ := h.away_dirty hx
    have hne : u ≠ x := fun he => haway (he ▸ hx)
    exact ⟨s, (hfind x).trans ((if_neg hne).trans hs), hstage⟩
  · rcases (hqueued p x).1 hp with ⟨-, rfl⟩ | hp
    · exact haway hx
    · exact h.away_queued hx p hp

/-! ## Under the work of operators -/

/-- A tuple that is clean may turn dirty and be put into the queue of its node. -/
theorem requeue (h : Waiting away g) (ht : g.find? u = some t) (hclean : t.stage.isDirty = false)
    {stage : Stage} (hdirty : stage.isDirty = true) :
    Ends (do setTuple u { t with stage }; enqueue t.node u) g (fun _ => Waiting away)
      (Waiting away) := by
  obtain ⟨queue, hq⟩ := h.orderly.registered ht
  unfold setTuple enqueue
  rw [Action.ends_bind, Action.ends_modify, Action.ends_bind, Action.ends_get]
  simp only [hq]
  refine h.push { t with stage } (fun s hs => ?_) (h.orderly.store.set ht _)
    (fun x => g.tuples.find?_set u x _) hdirty hq
  cases ht.symm.trans hs
  exact hclean

/-- A tuple that is made waits in the queue of its node. -/
theorem create (h : Waiting away g) (p : NodeId) (facts : Facts) (sources : Sources) :
    Ends (create p facts sources) g (fun _ => Waiting away) (·.queues = g.queues) := by
  have hfree := h.orderly.store.find?_new (Tuple.new p facts sources)
  have hstore := h.orderly.store.insert (Tuple.new p facts sources)
  have hfind := g.tuples.find?_insert (Tuple.new p facts sources)
  unfold Agenda.create
  rw [Action.ends_bind, Action.ends_get, Action.ends_bind, Action.ends_lift]
  refine ⟨fun made hmade => ?_, fun _ _ => rfl⟩
  obtain rfl : g.tuples.insert (Tuple.new p facts sources) = made := by
    obtain ⟨-, -, hmade⟩ := except_bind_eq_ok.1 hmade
    exact Except.ok.inj hmade
  rw [Action.ends_bind, Action.ends_set, Action.ends_bind]
  refine Ends.handle (S := (·.queues = g.queues)) ?_ fun _ _ hsame => ?_
  · unfold enqueue
    rw [Action.ends_bind, Action.ends_get]
    split
    · rfl
    · next queue hq =>
      refine h.push (Tuple.new p facts sources) (fun s hs => ?_) hstore hfind rfl hq
      cases hs.symm.trans hfree
  · unfold release
    rw [Action.ends_bind, Action.ends_modify, Action.ends_throw]
    exact hsame

theorem keeps_create (p : NodeId) (facts : Facts) (sources : Sources) :
    Keeps (Waiting away) (Agenda.create p facts sources) := fun g h =>
  ((create_ends g p facts sources).and (h.create p facts sources)).mono (fun _ _ h' => h'.2)
    fun _ ⟨hsame, hqueues⟩ => h.unmoved (hsame h.orderly.store) hqueues

theorem keeps_update (u : TupleId) : Keeps (Waiting away) (update u) := by
  intro g h
  unfold update
  rw [Action.ends_bind, Action.ends_get, Action.ends_bind, Action.ends_lift]
  refine ⟨fun t ht => ?_, fun _ _ => h⟩
  split
  · next hstage => exact h.requeue (TupleStore.find?_of_get ht) (by rw [hstage]; rfl) rfl
  all_goals exact h

theorem keeps_retract (u : TupleId) : Keeps (Waiting away) (retract u) := by
  intro g h
  unfold retract
  rw [Action.ends_bind, Action.ends_get, Action.ends_bind, Action.ends_lift]
  refine ⟨fun t ht => ?_, fun _ _ => h⟩
  have hfound := TupleStore.find?_of_get ht
  split
  · exact h.put hfound rfl fun _ => rfl
  · next hstage => exact h.requeue hfound (by rw [hstage]; rfl) rfl
  · exact h.put hfound rfl fun _ => rfl
  · exact h

theorem keeps_setFacts (u : TupleId) (facts : Facts) : Keeps (Waiting away) (setFacts u facts) := by
  intro g h
  unfold setFacts setTuple
  rw [Action.ends_bind, Action.ends_get, Action.ends_bind, Action.ends_lift]
  exact ⟨fun t ht => h.put (TupleStore.find?_of_get ht) rfl id, fun _ _ => h⟩

/-- Operators do not touch what waits, other than by making it dirtier. -/
theorem outlasts (away : List TupleId) : Outlasts (Waiting away) where
  create := keeps_create
  update := keeps_update
  retract := keeps_retract
  setFacts := keeps_setFacts
  number _ _ h := h.unmoved ⟨fun _ => rfl, id, Nat.le_refl _, fun _ => rfl⟩ rfl

/-! ## Under a drain -/

/-- The first of the tuples that were taken out is settled, or goes. -/
theorem dealWith (h : Waiting (u :: rest) g) {tuples : TupleStore}
    (horderly : Orderly { g with tuples }) (hfind : ∀ x, u ≠ x → tuples.find? x = g.find? x) :
    Waiting rest { g with tuples } := by
  obtain ⟨hnot, hnodup⟩ := List.nodup_cons.1 h.away_nodup
  refine ⟨horderly, fun {p x} hx => ?_, h.queue_nodup, fun {x} hx => ?_, hnodup,
    fun hx => h.away_queued (List.mem_cons_of_mem u hx)⟩
  · have hne : u ≠ x := by
      rintro rfl
      exact h.away_queued List.mem_cons_self p hx
    show ∃ t, tuples.find? x = some t ∧ _
    rw [hfind x hne]
    exact h.dirty hx
  · have hne : u ≠ x := by
      rintro rfl
      exact hnot hx
    show ∃ t, tuples.find? x = some t ∧ _
    rw [hfind x hne]
    exact h.away_dirty (List.mem_cons_of_mem u hx)

theorem setStage (h : Waiting (u :: rest) g) (stage : Stage) :
    Ends (setStage u stage) g (fun _ => Waiting rest) (Waiting []) := by
  unfold Agenda.setStage setTuple
  rw [Action.ends_bind, Action.ends_get, Action.ends_bind, Action.ends_lift]
  refine ⟨fun t ht => ?_, fun _ _ => h.forget⟩
  have hreplaces : Replaces g _ u t { t with stage } := .of_set (TupleStore.find?_of_get ht) rfl
  refine h.dealWith (.of_continues (h.orderly.start.replaces hreplaces)) fun x hne => ?_
  exact (hreplaces.find x).trans (if_neg hne)

theorem release (h : Waiting (u :: rest) g) :
    Ends (release u) g (fun _ => Waiting rest) (Waiting []) :=
  h.dealWith (.of_continues (h.orderly.start.release u)) fun x hne =>
    (g.tuples.find?_erase u x).trans (if_neg hne)

/-- What is taken out of the queue of a node belongs to the node, is dirty, and is not queued any more. -/
theorem takeQueue (h : Waiting [] g) (p : NodeId) :
    Ends (takeQueue p) g (fun queue g' => Waiting queue g' ∧ ∀ u ∈ queue, Belongs p u g')
      (Waiting []) := by
  unfold Agenda.takeQueue
  rw [Action.ends_bind, Action.ends_get]
  split
  · exact ⟨h, nofun⟩
  · next queue hq =>
    rw [Action.ends_bind, Action.ends_lift]
    refine ⟨fun pending _ => ?_, fun _ _ => h⟩
    have hqueued {q : NodeId} {x : TupleId}
        (hx : Queued { g with queues := g.queues.insert p [], pending } q x) :
        p ≠ q ∧ g.Queued q x := by
      obtain ⟨queue', hq', hx⟩ := hx
      replace hq' := (Table.get?_insert ..).symm.trans hq'
      split at hq'
      · cases hq'
        cases hx
      · next hne => exact ⟨hne, queue', hq', hx⟩
    refine ⟨⟨⟨h.orderly.store, fun x t ht => ?_⟩, fun hx => h.dirty (hqueued hx).2,
      fun {q queue'} hq' => ?_, fun {x} hx => ?_, h.queue_nodup hq, fun {x} hx q hxq => ?_⟩,
      fun x hx => ?_⟩
    · simp only [Table.get?_insert]
      split
      · exact ⟨_, rfl⟩
      · exact h.orderly.registered ht
    · replace hq' := (Table.get?_insert ..).symm.trans hq'
      split at hq'
      · cases hq'
        exact List.nodup_nil
      · exact h.queue_nodup hq'
    · obtain ⟨t, ht, -, hdirty⟩ := h.dirty ⟨queue, hq, hx⟩
      exact ⟨t, ht, hdirty⟩
    · -- A tuple waits in the queue of its own node only.
      obtain ⟨hne, hxq⟩ := hqueued hxq
      obtain ⟨t, ht, hp, -⟩ := h.dirty ⟨queue, hq, hx⟩
      obtain ⟨t', ht', hq', -⟩ := h.dirty hxq
      cases ht.symm.trans ht'
      exact hne (hp.symm.trans hq')
    · obtain ⟨t, ht, hp, -⟩ := h.dirty ⟨queue, hq, hx⟩
      exact .inl ⟨t, ht, hp⟩

/-- Where no tuple lives, none waits. -/
theorem of_blank (h : g.Blank) : Waiting [] g where
  orderly := ⟨h.store, fun x t ht => by rw [h.find?_none] at ht; cases ht⟩
  dirty := by
    rintro p u ⟨queue, hq, hu⟩
    rw [h.queues hq] at hu
    cases hu
  queue_nodup hq := by
    rw [h.queues hq]
    exact List.nodup_nil
  away_dirty := nofun
  away_nodup := List.nodup_nil
  away_queued := nofun

end Waiting

end Agenda

end ConstraintStreams
