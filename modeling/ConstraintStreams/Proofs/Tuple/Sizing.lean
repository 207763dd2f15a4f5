import ConstraintStreams.Proofs.Tuple.Belonging

/-!
# Tuples of the sizes of their nodes

Given how many facts the tuples of each node carry, `Agenda.Sized` says that they do, and that the queue
of a node names tuples of this node only. A name carries so many facts if it belongs to a node of that
size: it does so forever, and a tuple of the name has that many facts.
-/

namespace ConstraintStreams

namespace Agenda

variable {sizeOf : NodeId → Option Nat} {g g' g₀ : Agenda} {p : NodeId} {u : TupleId} {t t' : Tuple}
  {k : Nat}

/-- The name is one for tuples of so many facts. -/
def Carries (sizeOf : NodeId → Option Nat) (k : Nat) (u : TupleId) (g : Agenda) : Prop :=
  ∃ p, sizeOf p = some k ∧ Belongs p u g

/-- Every tuple carries as many facts as its node says, and every queue names tuples of its node. -/
structure Sized (sizeOf : NodeId → Option Nat) (g : Agenda) : Prop where
  facts : ∀ {u t}, g.find? u = some t → sizeOf t.node = some t.facts.length
  queued : ∀ {p queue u}, g.queues.get? p = some queue → u ∈ queue → Belongs p u g

theorem Carries.continues (h : Carries sizeOf k u g₀) (hg : Continues g₀ g) : Carries sizeOf k u g := by
  obtain ⟨p, hp, hu⟩ := h
  exact ⟨p, hp, hu.continues hg⟩

theorem Carries.length_eq (h : Carries sizeOf k u g) (hg : g.Sized sizeOf)
    (ht : g.find? u = some t) : t.facts.length = k := by
  obtain ⟨p, hp, hu⟩ := h
  have hsize := hg.facts ht
  rw [hu.node_eq ht, hp] at hsize
  exact (Option.some.inj hsize).symm

/-- A tuple that is made is added to the queue of its node, and nothing else to any queue. -/
theorem create_queues (g : Agenda) (p : NodeId) (facts : Facts) (sources : Sources) :
    Action.Ends (Agenda.create p facts sources) g
      (fun id g' => ∀ {q queue x}, g'.queues.get? q = some queue → x ∈ queue →
        (∃ old, g.queues.get? q = some old ∧ x ∈ old) ∨ x = id ∧ q = p)
      (·.queues = g.queues) := by
  unfold Agenda.create
  rw [Action.ends_bind, Action.ends_get, Action.ends_bind, Action.ends_lift]
  refine ⟨fun made _ => ?_, fun _ _ => rfl⟩
  rw [Action.ends_bind, Action.ends_set, Action.ends_bind]
  refine Action.Ends.handle (S := (·.queues = g.queues)) ?_ fun _ _ hsame => ?_
  · unfold Agenda.enqueue
    rw [Action.ends_bind, Action.ends_get]
    split
    · rfl
    · next queue hq =>
      intro q queue' x hq' hx
      rw [Table.get?_insert] at hq'
      split at hq'
      · next he =>
        cases he
        cases hq'
        refine (List.mem_append.1 hx).imp (fun hx => ⟨queue, hq, hx⟩) fun hx => ?_
        exact ⟨List.mem_singleton.1 hx, rfl⟩
      · exact .inl ⟨queue', hq', hx⟩
  · unfold Agenda.release
    rw [Action.ends_bind, Action.ends_modify, Action.ends_throw]
    exact hsame

namespace Sized

/-- What was queued belongs to its node still, and so does what was queued since. -/
theorem move (h : g.Sized sizeOf) (hg : Continues g g')
    (hfacts : ∀ {u t}, g'.find? u = some t → sizeOf t.node = some t.facts.length)
    (hqueued : ∀ {p queue u}, g'.queues.get? p = some queue → u ∈ queue →
      (∃ old, g.queues.get? p = some old ∧ u ∈ old) ∨ Belongs p u g') : g'.Sized sizeOf where
  facts := hfacts
  queued hq hu := by
    rcases hqueued hq hu with ⟨old, hold, hu⟩ | hbelongs
    · exact (h.queued hold hu).continues hg
    · exact hbelongs

/-- A tuple may be replaced by one of its size. -/
theorem set (h : g.Sized sizeOf) (horderly : g.Orderly) (ht : g.find? u = some t)
    (hnode : t'.node = t.node) (hsize : sizeOf t.node = some t'.facts.length) :
    Sized sizeOf { g with tuples := g.tuples.set u t' } := by
  have hreplaces := Replaces.of_set ht hnode
  refine h.move (horderly.start.replaces hreplaces) (fun {x s} hs => ?_) fun hq hx => .inl ⟨_, hq, hx⟩
  rw [hreplaces.find] at hs
  split at hs
  · cases hs
    rw [hnode, hsize]
  · exact h.facts hs

/-- A name may be queued at its node. -/
theorem enqueue (h : g.Sized sizeOf) (hu : Belongs p u g) :
    Action.Ends (enqueue p u) g (fun _ => Sized sizeOf) (Sized sizeOf) := by
  unfold Agenda.enqueue
  rw [Action.ends_bind, Action.ends_get]
  split
  · exact h
  · next queue hq =>
    refine ⟨h.facts, fun {q queue' x} hq' hx => ?_⟩
    rw [Table.get?_insert] at hq'
    split at hq'
    · next he =>
      cases he
      cases hq'
      rcases List.mem_append.1 hx with hx | hx
      · exact h.queued hq hx
      · exact List.mem_singleton.1 hx ▸ hu
    · exact h.queued hq' hx

/-- A tuple may be moved to another stage and queued at its node. -/
theorem requeue (h : g.Sized sizeOf) (horderly : g.Orderly) (ht : g.find? u = some t) (stage : Stage) :
    Action.Ends (do setTuple u { t with stage }; Agenda.enqueue t.node u) g (fun _ => Sized sizeOf)
      (Sized sizeOf) := by
  unfold setTuple
  rw [Action.ends_bind, Action.ends_modify]
  have hreplaces : Replaces g _ u t { t with stage } := .of_set ht rfl
  have hset : Sized sizeOf { g with tuples := g.tuples.set u { t with stage } } :=
    h.set horderly ht rfl (h.facts ht)
  exact hset.enqueue (.inl ⟨_, (hreplaces.find u).trans (if_pos rfl), rfl⟩)

theorem update (h : g.Sized sizeOf) (horderly : g.Orderly) (u : TupleId) :
    Action.Ends (update u) g (fun _ => Sized sizeOf) (Sized sizeOf) := by
  unfold Agenda.update
  rw [Action.ends_bind, Action.ends_get, Action.ends_bind, Action.ends_lift]
  refine ⟨fun t ht => ?_, fun _ _ => h⟩
  split
  · exact h.requeue horderly (TupleStore.find?_of_get ht) .updating
  all_goals exact h

theorem retract (h : g.Sized sizeOf) (horderly : g.Orderly) (u : TupleId) :
    Action.Ends (retract u) g (fun _ => Sized sizeOf) (Sized sizeOf) := by
  unfold Agenda.retract
  rw [Action.ends_bind, Action.ends_get, Action.ends_bind, Action.ends_lift]
  refine ⟨fun t ht => ?_, fun _ _ => h⟩
  have hfound := TupleStore.find?_of_get ht
  split
  · exact h.set horderly hfound rfl (h.facts hfound)
  · exact h.requeue horderly hfound .dying
  · exact h.set horderly hfound rfl (h.facts hfound)
  · exact h

theorem setStage (h : g.Sized sizeOf) (horderly : g.Orderly) (u : TupleId) (stage : Stage) :
    Action.Ends (setStage u stage) g (fun _ => Sized sizeOf) (Sized sizeOf) := by
  unfold Agenda.setStage
  rw [Action.ends_bind, Action.ends_get, Action.ends_bind, Action.ends_lift]
  exact ⟨fun t ht => h.set horderly (TupleStore.find?_of_get ht) rfl
    (h.facts (TupleStore.find?_of_get ht)), fun _ _ => h⟩

/-- A tuple may be given other facts, as many as its name carries. -/
theorem setFacts {facts : Facts} (h : g.Sized sizeOf) (horderly : g.Orderly)
    (hu : Carries sizeOf facts.length u g) :
    Action.Ends (setFacts u facts) g (fun _ => Sized sizeOf) (Sized sizeOf) := by
  unfold Agenda.setFacts
  rw [Action.ends_bind, Action.ends_get, Action.ends_bind, Action.ends_lift]
  refine ⟨fun t ht => ?_, fun _ _ => h⟩
  have hfound := TupleStore.find?_of_get ht
  refine h.set horderly hfound rfl ?_
  rw [h.facts hfound, hu.length_eq h hfound]

/-- A node may make a tuple of its size. -/
theorem create {facts : Facts} (h : g.Sized sizeOf) (horderly : g.Orderly)
    (hp : sizeOf p = some facts.length) (sources : Sources) :
    Action.Ends (create p facts sources) g (fun _ => Sized sizeOf) (Sized sizeOf) := by
  refine ((create_ends g p facts sources).and (create_queues g p facts sources)).mono ?_ ?_
  · rintro id g' ⟨hmakes, hqueued⟩
    refine h.move (horderly.start.makes hmakes) (fun {x s} hs => ?_) fun hq hx => ?_
    · rw [hmakes.find] at hs
      split at hs
      · cases hs
        exact hp
      · exact h.facts hs
    · refine (hqueued hq hx).imp_right ?_
      rintro ⟨rfl, rfl⟩
      exact .of_makes hmakes
  · rintro g' ⟨hsame, hqueues⟩
    have hunmoved := hsame horderly.store
    refine h.move (horderly.start.unmoved hunmoved) (fun hs => h.facts (hunmoved.find _ ▸ hs)) ?_
    exact fun hq hx => .inl ⟨_, hqueues ▸ hq, hx⟩

/-- Forgetting a tuple changes no other. -/
theorem release (h : g.Sized sizeOf) (horderly : g.Orderly) (u : TupleId) :
    Sized sizeOf { g with tuples := g.tuples.erase u } := by
  refine h.move (horderly.start.release u) (fun {x s} hs => ?_) fun hq hx => .inl ⟨_, hq, hx⟩
  have hfind : (if u = x then none else g.find? x) = some s := (g.tuples.find?_erase u x).symm.trans hs
  split at hfind
  · cases hfind
  · exact h.facts hfind

/-- What the queue of a node answers, belongs to the node. -/
theorem takeQueue (h : g.Sized sizeOf) (p : NodeId) :
    Action.Ends (takeQueue p) g (fun queue g' => Sized sizeOf g' ∧ ∀ u ∈ queue, Belongs p u g')
      (Sized sizeOf) := by
  unfold Agenda.takeQueue
  rw [Action.ends_bind, Action.ends_get]
  split
  · exact ⟨h, fun _ hu => by cases hu⟩
  · next queue hq =>
    rw [Action.ends_bind, Action.ends_lift]
    refine ⟨fun pending _ => ⟨⟨h.facts, fun {q queue' x} hq' hx => ?_⟩, fun u hu => h.queued hq hu⟩,
      fun _ _ => h⟩
    rw [Table.get?_insert] at hq'
    split at hq'
    · cases hq'
      cases hx
    · exact h.queued hq' hx

end Sized

end Agenda

end ConstraintStreams
