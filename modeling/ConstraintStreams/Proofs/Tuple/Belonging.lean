import ConstraintStreams.Proofs.Tuple.Continuity

/-!
# Names that belong to a node

A name belongs to a node if it is that of one of the node's tuples, or was and is out of use. A name
that belongs to a node belongs to it forever, and what is asked of it concerns the queue and the tuples
of that node and no other: `Agenda.Apart` says that those of all other nodes are as they were.
-/

namespace ConstraintStreams

namespace Agenda

variable {g g' g₀ : Agenda} {p : NodeId} {u id : TupleId} {t t' : Tuple}

/-- The name is that of a tuple of the node, or no tuple will have it again. -/
def Belongs (p : NodeId) (u : TupleId) (g : Agenda) : Prop :=
  (∃ t, g.find? u = some t ∧ t.node = p) ∨ g.find? u = none ∧ u.generation < g.tuples.generation

namespace Belongs

/-- Whatever is done to an agenda, names go on belonging to their nodes. -/
theorem continues (h : Belongs p u g₀) (hg : Continues g₀ g) : Belongs p u g := by
  rcases h with ⟨t, ht, hnode⟩ | ⟨hnone, hlt⟩
  · rcases hg.old ht with ⟨t', ht', hnode'⟩ | hgone
    · exact .inl ⟨t', ht', hnode'.trans hnode⟩
    · exact .inr hgone
  · have hle := hg.generation
    cases hu : g.find? u with
    | none => exact .inr ⟨hu, by omega⟩
    | some t =>
      have hfresh := hg.fresh hnone hu
      omega

/-- A tuple of the name is one of the node. -/
theorem node_eq (h : Belongs p u g) (ht : g.find? u = some t) : t.node = p := by
  rcases h with ⟨t', ht', hnode⟩ | ⟨hnone, -⟩
  · rw [ht] at ht'
    cases ht'
    exact hnode
  · rw [ht] at hnone
    cases hnone

/-- The name of a tuple that was just made belongs to its node. -/
theorem of_makes (h : Makes g g' u t) : Belongs t.node u g' :=
  .inl ⟨t, (h.find u).trans (if_pos rfl), rfl⟩

end Belongs

/-- No name is used twice, and every tuple is of a node with a queue. -/
structure Orderly (g : Agenda) : Prop where
  store : g.tuples.Sound
  registered : g.Registered

namespace Orderly

theorem start (h : Orderly g) : Continues g g := .start h.store h.registered

theorem of_continues (h : Continues g₀ g) : Orderly g := ⟨h.store, h.registered⟩

end Orderly

/-! ## Queues -/

/-- What is left of an agenda after any work: no name was used twice, and no queue came or went. -/
structure Later (g₀ g : Agenda) : Prop where
  continues : Continues g₀ g
  queued : ∀ p, (g.queues.get? p).isSome = (g₀.queues.get? p).isSome

namespace Later

theorem start (h : Orderly g) : Later g g := ⟨h.start, fun _ => rfl⟩

theorem orderly (h : Later g₀ g) : Orderly g := .of_continues h.continues

theorem unmoved (h : Later g₀ g) (hsame : Unmoved g g') : Later g₀ g' :=
  ⟨h.continues.unmoved hsame, fun p => (hsame.registered p).trans (h.queued p)⟩

theorem replaces (h : Later g₀ g) (hreplaces : Replaces g g' id t t') : Later g₀ g' :=
  ⟨h.continues.replaces hreplaces, fun p => (hreplaces.registered p).trans (h.queued p)⟩

theorem outlasts (g₀ : Agenda) : Outlasts (Later g₀) :=
  .of_steps (fun _ h => ⟨h.continues.store, h.continues.registered⟩) unmoved
    (fun h hmakes => ⟨h.continues.makes hmakes, fun p => (hmakes.registered p).trans (h.queued p)⟩)
    replaces

end Later

/-- The queues of all nodes but one are as they were. -/
def QueuesApart (p : NodeId) (g₀ g : Agenda) : Prop :=
  ∀ q, q ≠ p → g.queues.get? q = g₀.queues.get? q

theorem queuesApart_put (h : QueuesApart p g₀ g) (queue : List TupleId) (pending : Nat) :
    QueuesApart p g₀ { g with queues := g.queues.insert p queue, pending } := by
  intro q hq
  exact (Table.get?_insert ..).trans ((if_neg (Ne.symm hq)).trans (h q hq))

theorem keepsQueues_enqueue (u : TupleId) : Action.Keeps (QueuesApart p g₀) (enqueue p u) := by
  refine .get_bind fun g h => ?_
  split
  · exact .throw _
  · exact .set (queuesApart_put h _ _)

/-- The queues and the tuples of all nodes but one are as they were. -/
structure Apart (p : NodeId) (g₀ g : Agenda) : Prop where
  queues : QueuesApart p g₀ g
  tuples : ∀ {x t}, g₀.find? x = some t → t.node ≠ p → g.find? x = some t

theorem Apart.refl (p : NodeId) (g : Agenda) : Apart p g g := ⟨fun _ _ => rfl, fun ht _ => ht⟩

theorem keepsApart_enqueue (u : TupleId) : Action.Keeps (Apart p g₀) (enqueue p u) := by
  refine .get_bind fun g h => ?_
  split
  · exact .throw _
  · exact .set ⟨queuesApart_put h.queues _ _, h.tuples⟩

/-- A tuple of the node is replaced. -/
theorem Apart.set (h : Apart p g₀ g) (hu : Belongs p u g) (t : Tuple) :
    Apart p g₀ { g with tuples := g.tuples.set u t } where
  queues := h.queues
  tuples {x t'} ht' hnode := by
    have hne : u ≠ x := by
      rintro rfl
      exact hnode (hu.node_eq (h.tuples ht' hnode))
    exact (g.tuples.find?_set u x t).trans ((if_neg hne).trans (h.tuples ht' hnode))

theorem apart_create (ho : g.Orderly) (h : Apart p g₀ g) (facts : Facts) (sources : Sources) :
    Action.Ends (create p facts sources) g (fun _ => Apart p g₀) (Apart p g₀) := by
  have hqueues : Action.Keeps (QueuesApart p g₀) (create p facts sources) := by
    refine .get_bind fun g h => .bind (.lift _) fun made => ?_
    have hstored : QueuesApart p g₀ { g with tuples := made.2 } := h
    refine .bind (.set hstored) fun _ => ?_
    intro g h
    rw [Action.ends_bind]
    refine Action.Ends.handle (S := QueuesApart p g₀)
      ((keepsQueues_enqueue made.1 g h).mono (fun _ _ h => h) fun _ h => h) fun e g' h' => ?_
    exact h'
  refine ((hqueues g h.queues).and (create_ends g p facts sources)).mono ?_ ?_
  · rintro o g' ⟨hq, hmakes⟩
    refine ⟨hq, fun {x t} ht hnode => ?_⟩
    have hx := h.tuples ht hnode
    have hne : o ≠ x := by
      rintro rfl
      rw [hmakes.free ho.store] at hx
      cases hx
    exact (hmakes.find x).trans ((if_neg hne).trans hx)
  · rintro g' ⟨hq, hsame⟩
    exact ⟨hq, fun {x t} ht hnode => ((hsame ho.store).find x).trans (h.tuples ht hnode)⟩

theorem apart_setFacts (hu : Belongs p u g) (h : Apart p g₀ g) (facts : Facts) :
    Action.Ends (setFacts u facts) g (fun _ => Apart p g₀) (Apart p g₀) := by
  unfold setFacts setTuple
  rw [Action.ends_bind, Action.ends_get, Action.ends_bind, Action.ends_lift]
  exact ⟨fun t _ => h.set hu _, fun _ _ => h⟩

/-- Changing a tuple concerns the queue of its node. -/
theorem apart_update (hu : Belongs p u g) (h : Apart p g₀ g) :
    Action.Ends (update u) g (fun _ => Apart p g₀) (Apart p g₀) := by
  unfold update
  rw [Action.ends_bind, Action.ends_get, Action.ends_bind, Action.ends_lift]
  refine ⟨fun t ht => ?_, fun _ _ => h⟩
  have hnode := hu.node_eq (TupleStore.find?_of_get ht)
  split
  · rw [hnode]
    exact keepsApart_enqueue u _ (h.set hu _)
  · exact h
  · exact h
  · exact h

/-- Withdrawing a tuple concerns the queue of its node. -/
theorem apart_retract (hu : Belongs p u g) (h : Apart p g₀ g) :
    Action.Ends (retract u) g (fun _ => Apart p g₀) (Apart p g₀) := by
  unfold retract
  rw [Action.ends_bind, Action.ends_get, Action.ends_bind, Action.ends_lift]
  refine ⟨fun t ht => ?_, fun _ _ => h⟩
  have hnode := hu.node_eq (TupleStore.find?_of_get ht)
  split
  · exact h.set hu _
  · rw [hnode]
    exact keepsApart_enqueue u _ (h.set hu _)
  · exact h.set hu _
  · exact h

/-! ## What is in a queue belongs to its node -/

theorem queued_enqueue (g : Agenda) (p : NodeId) (u : TupleId) :
    Action.Ends (enqueue p u) g
      (fun _ g' => ∀ q x, g'.Queued q x → p = q ∧ u = x ∨ g.Queued q x) (· = g) := by
  unfold enqueue
  rw [Action.ends_bind, Action.ends_get]
  split
  · rfl
  · next queue hq => exact fun q x hx => (queued_append hq u g.tuples _ q x).1 hx

/-- A tuple that is replaced and put into the queue of its node belongs there. -/
theorem queued_requeue (ht : g.find? u = some t) (t' : Tuple) :
    Action.Ends (do setTuple u t'; enqueue t.node u) g
      (fun _ g' => ∀ q x, g'.Queued q x → Belongs q x g ∨ g.Queued q x) fun _ => True := by
  unfold setTuple
  rw [Action.ends_bind, Action.ends_modify]
  refine (queued_enqueue _ _ _).mono (fun _ g' h q x hx => ?_) fun _ _ => trivial
  refine (h q x hx).imp_left ?_
  rintro ⟨rfl, rfl⟩
  exact .inl ⟨t, ht, rfl⟩

theorem queued_update (g : Agenda) (u : TupleId) :
    Action.Ends (update u) g (fun _ g' => ∀ q x, g'.Queued q x → Belongs q x g ∨ g.Queued q x)
      fun _ => True := by
  unfold update
  rw [Action.ends_bind, Action.ends_get, Action.ends_bind, Action.ends_lift]
  refine ⟨fun t ht => ?_, fun _ _ => trivial⟩
  split
  · exact queued_requeue (TupleStore.find?_of_get ht) _
  · exact fun _ _ => .inr
  · exact fun _ _ => .inr
  · trivial

theorem queued_retract (g : Agenda) (u : TupleId) :
    Action.Ends (retract u) g (fun _ g' => ∀ q x, g'.Queued q x → Belongs q x g ∨ g.Queued q x)
      fun _ => True := by
  unfold retract
  rw [Action.ends_bind, Action.ends_get, Action.ends_bind, Action.ends_lift]
  refine ⟨fun t ht => ?_, fun _ _ => trivial⟩
  split
  · exact fun _ _ => .inr
  · exact queued_requeue (TupleStore.find?_of_get ht) _
  · exact fun _ _ => .inr
  · trivial

theorem queued_create (g : Agenda) (p : NodeId) (facts : Facts) (sources : Sources) :
    Action.Ends (create p facts sources) g
      (fun u g' => ∀ q x, g'.Queued q x → p = q ∧ u = x ∨ g.Queued q x)
      fun g' => ∀ q x, g'.Queued q x → g.Queued q x := by
  unfold create
  rw [Action.ends_bind, Action.ends_get, Action.ends_bind, Action.ends_lift]
  refine ⟨fun made _ => ?_, fun _ _ _ _ h => h⟩
  rw [Action.ends_bind, Action.ends_set, Action.ends_bind]
  refine Action.Ends.handle (S := fun g' => g' = { g with tuples := made.2 })
    (queued_enqueue _ _ _) ?_
  rintro e _ rfl
  exact fun _ _ h => h

/-- What is taken out of a queue was in it, and nothing is put into one. -/
theorem queued_takeQueue (g : Agenda) (p : NodeId) :
    Action.Ends (takeQueue p) g
      (fun queue g' => (∀ u ∈ queue, g.Queued p u) ∧ ∀ q x, g'.Queued q x → g.Queued q x)
      (· = g) := by
  unfold takeQueue
  rw [Action.ends_bind, Action.ends_get]
  split
  · exact ⟨fun u hu => (List.not_mem_nil hu).elim, fun _ _ h => h⟩
  · next queue hq =>
    rw [Action.ends_bind, Action.ends_lift]
    refine ⟨fun pending _ => ⟨fun u hu => ⟨queue, hq, hu⟩, ?_⟩, fun _ _ => rfl⟩
    rintro q x ⟨queue', hq', hx⟩
    replace hq' := (Table.get?_insert ..).symm.trans hq'
    split at hq'
    · cases hq'
      cases hx
    · exact ⟨queue', hq', hx⟩

/-- What is in the queue of a node belongs to the node. -/
structure Filed (g : Agenda) : Prop where
  orderly : g.Orderly
  belongs : ∀ {p u}, g.Queued p u → Belongs p u g

namespace Filed

theorem continues (h : Filed g) (hg : Continues g g')
    (hqueued : ∀ q x, g'.Queued q x → Belongs q x g' ∨ g.Queued q x) : Filed g' where
  orderly := .of_continues hg
  belongs hx := (hqueued _ _ hx).elim id fun hx => (h.belongs hx).continues hg

/-- Operators put tuples into the queues of their nodes only. -/
theorem outlasts : Outlasts Filed where
  create node facts sources g h := by
    refine ((create_ends g node facts sources).and (queued_create g node facts sources)).mono ?_ ?_
    · rintro u g' ⟨hmakes, hqueued⟩
      refine h.continues (h.orderly.start.makes hmakes) fun q x hx => ?_
      exact (hqueued q x hx).imp_left fun ⟨hq, hx⟩ => hq ▸ hx ▸ .of_makes hmakes
    · rintro g' ⟨hsame, hqueued⟩
      exact h.continues (h.orderly.start.unmoved (hsame h.orderly.store)) fun q x hx =>
        .inr (hqueued q x hx)
  update id g h := by
    refine ((update_ends g id).and (queued_update g id)).mono ?_ fun _ ⟨hsame, _⟩ =>
      hsame h.orderly.registered ▸ h
    rintro _ g' ⟨⟨t, -, hreplaces⟩, hqueued⟩
    have hg := h.orderly.start.replaces hreplaces
    exact h.continues hg fun q x hx => (hqueued q x hx).imp_left (·.continues hg)
  retract id g h := by
    refine ((retract_ends g id).and (queued_retract g id)).mono ?_ fun _ ⟨hsame, _⟩ =>
      hsame h.orderly.registered ▸ h
    rintro _ g' ⟨⟨t, -, hreplaces⟩, hqueued⟩
    have hg := h.orderly.start.replaces hreplaces
    exact h.continues hg fun q x hx => (hqueued q x hx).imp_left (·.continues hg)
  setFacts id facts g h := by
    unfold setFacts setTuple
    rw [Action.ends_bind, Action.ends_get, Action.ends_bind, Action.ends_lift]
    refine ⟨fun t ht => ?_, fun _ _ => h⟩
    exact h.continues (h.orderly.start.replaces (.of_set (TupleStore.find?_of_get ht) rfl))
      fun _ _ => .inr
  number g nextVersion h :=
    h.continues ((Continues.outlasts g).number g nextVersion h.orderly.start) fun _ _ => .inr

end Filed

end Agenda

end ConstraintStreams
