import ConstraintStreams.Proofs.Tuple.Agenda

/-!
# Draining the agenda

What becomes of an agenda when a queue is taken out and the tuples in it are dealt with one after the
other: each is settled or released, and the rest of them stays to be looked at.
-/

namespace ConstraintStreams

namespace Agenda

variable {E : Error → Prop} {away rest : List TupleId} {g : Agenda} {node : NodeId}
  {id : TupleId} {t : Tuple} {queue : List TupleId}

theorem length_le_pending (h : Sound away g) (hq : g.queues.get? node = some queue) :
    queue.length ≤ g.pending := by
  have hlen := g.queues.length_values_insert node []
  have hpending := h.pending_eq
  rw [hq, Option.getD_some, List.length_nil] at hlen
  omega

theorem queued_take (g : Agenda) (node : NodeId) (pending : Nat) (other : NodeId) (id : TupleId) :
    Queued { g with queues := g.queues.insert node [], pending } other id ↔
      node ≠ other ∧ g.Queued other id := by
  unfold Queued
  simp only [Table.get?_insert]
  by_cases hn : node = other
  · simp [hn]
  · simp [hn]

/-- A live tuple can only be in the queue of its own node. -/
theorem Sound.mem_queue (h : Sound away g) (hq : g.queues.get? node = some queue)
    (ht : g.find? id = some t) : id ∈ queue ↔ node = t.node ∧ g.Queued t.node id := by
  constructor
  · intro hmem
    have hqueued : g.Queued node id := ⟨queue, hq, hmem⟩
    obtain ⟨t', ht', hn⟩ := h.queued hqueued
    rw [ht] at ht'
    cases ht'
    exact ⟨hn.symm, hn ▸ hqueued⟩
  · rintro ⟨rfl, queue', hq', hmem⟩
    rw [hq] at hq'
    cases hq'
    exact hmem

/-- The tuples of a queue are taken out of it all at once. -/
theorem Sound.take (h : Sound [] g) (hq : g.queues.get? node = some queue) :
    Sound queue { g with
      queues := g.queues.insert node []
      pending := g.pending - queue.length } := by
  have hqueued := queued_take g node (g.pending - queue.length)
  refine {
    store := h.store
    alive := h.alive
    registered := fun {x u} hu => ?registered
    dirty_iff := fun {x u} hu => ?dirty_iff
    queued := fun {other x} hx => h.queued ((hqueued other x).1 hx).2
    away_live := fun {x} hx => ?away_live
    queue_nodup := fun {other q} hget => ?queue_nodup
    away_nodup := h.queue_nodup hq
    away_queued := fun {x} hx other hqx => ?away_queued
    pending_eq := ?pending_eq }
  case registered =>
    simp only [Table.get?_insert]
    split
    · exact ⟨_, rfl⟩
    · exact h.registered hu
  case dirty_iff =>
    rw [hqueued, h.mem_queue hq hu, h.dirty_iff hu]
    by_cases hn : node = u.node
    · simp [hn]
    · simp [hn]
  case away_live =>
    obtain ⟨u, hu, -⟩ := h.queued ⟨queue, hq, hx⟩
    exact ⟨u, hu⟩
  case queue_nodup =>
    simp only [Table.get?_insert] at hget
    split at hget
    · cases hget; exact List.nodup_nil
    · exact h.queue_nodup hget
  case away_queued =>
    obtain ⟨hne, hqx⟩ := (hqueued other x).1 hqx
    obtain ⟨u, hu, rfl⟩ := h.queued hqx
    exact hne ((h.mem_queue hq hu).1 hx).1
  case pending_eq =>
    have hlen := g.queues.length_values_insert node []
    have hpending := h.pending_eq
    rw [hq, Option.getD_some, List.length_nil] at hlen
    show g.pending - queue.length = (g.queues.insert node []).values.flatten.length
    omega

/-- Taking a queue never fails. -/
theorem takeQueue_spec (h : Sound [] g) (hq : g.queues.get? node = some queue)
    {Q : List TupleId → Agenda → Prop}
    (hQ : ∀ g', Sound queue g' → (∀ x, g'.find? x = g.find? x) → g'.limits = g.limits →
      g'.tuples.generation = g.tuples.generation →
      (∀ other, g'.queues.get? other = if node = other then some [] else g.queues.get? other) →
      Q queue g') :
    Action.Ensures E (takeQueue node) g Q := by
  have hle := length_le_pending h hq
  unfold takeQueue
  simp only [Action.ensures_bind, Action.ensures_get, hq, countDown, if_neg (Nat.not_lt.2 hle)]
  rw [Action.ensures_lift_of_ok rfl]
  exact hQ _ (h.take hq) (fun _ => rfl) rfl rfl fun other => g.queues.get?_insert node other []

/-- The first of the tuples that were taken out is dealt with: it is settled or gone. -/
theorem Sound.dealWith (h : Sound (id :: rest) g) {tuples : TupleStore} (hstore : tuples.Sound)
    {e : Option Tuple} (hfind : ∀ x, tuples.find? x = if id = x then e else g.find? x)
    (he : ∀ t', e = some t' → t'.stage.isDirty = false ∧ t'.stage ≠ .dead ∧
      ∃ queue, g.queues.get? t'.node = some queue) :
    Sound rest { g with tuples } := by
  obtain ⟨hnot, hnodup⟩ := List.nodup_cons.1 h.away_nodup
  have hidle : ∀ node, ¬ g.Queued node id := h.away_queued List.mem_cons_self
  have hkeep : ∀ {x}, id ≠ x → tuples.find? x = g.find? x := fun hne => (hfind _).trans (if_neg hne)
  have hcases : ∀ {x u}, tuples.find? x = some u → id = x ∧ e = some u ∨ id ≠ x ∧ g.find? x = some u := by
    intro x u hu
    rw [hfind] at hu
    split at hu
    · next hx => exact .inl ⟨hx, hu⟩
    · next hx => exact .inr ⟨hx, hu⟩
  refine {
    store := hstore
    alive := fun {x u} hu => ?alive
    registered := fun {x u} hu => ?registered
    dirty_iff := fun {x u} hu => ?dirty_iff
    queued := fun {other x} hx => ?queued
    away_live := fun {x} hx => ?away_live
    queue_nodup := h.queue_nodup
    away_nodup := hnodup
    away_queued := fun hx => h.away_queued (List.mem_cons_of_mem id hx)
    pending_eq := h.pending_eq }
  case alive =>
    obtain ⟨-, hu⟩ | ⟨-, hu⟩ := hcases hu
    · exact (he u hu).2.1
    · exact h.alive hu
  case registered =>
    obtain ⟨-, hu⟩ | ⟨-, hu⟩ := hcases hu
    · exact (he u hu).2.2
    · exact h.registered hu
  case dirty_iff =>
    obtain ⟨rfl, hu'⟩ | ⟨hne, hu'⟩ := hcases hu
    · rw [(he u hu').1]
      simp only [Bool.false_eq_true, false_iff, not_or]
      exact ⟨hnot, hidle _⟩
    · rw [h.dirty_iff hu', List.mem_cons]
      exact or_congr_left (or_iff_right (Ne.symm hne))
  case queued =>
    obtain ⟨u, hu, hn⟩ := h.queued hx
    exact ⟨u, (hkeep fun he => hidle other (he ▸ hx)).trans hu, hn⟩
  case away_live =>
    obtain ⟨u, hu⟩ := h.away_live (List.mem_cons_of_mem id hx)
    exact ⟨u, (hkeep fun he => hnot (he ▸ hx)).trans hu⟩

/-- Settling a tuple that was taken out. -/
theorem settle_spec (h : Sound (id :: rest) g) (ht : g.find? id = some t)
    {Q : Unit → Agenda → Prop}
    (hQ : ∀ g', Sound rest g' →
      (∀ x, g'.find? x = if id = x then some { t with stage := .settled } else g.find? x) →
      g'.queues = g.queues → g'.limits = g.limits →
      g'.tuples.generation = g.tuples.generation → Q () g') :
    Action.Ensures E (setStage id .settled) g Q := by
  have hfind : ∀ x, (g.tuples.set id { t with stage := .settled }).find? x =
      if id = x then some { t with stage := .settled } else g.find? x :=
    fun x => g.tuples.find?_set id x _
  unfold setStage setTuple
  simp only [Action.ensures_bind, Action.ensures_get, Action.ensures_lift_of_ok (tuple_eq ht),
    Action.ensures_modify]
  refine hQ _ (h.dealWith (h.store.set ht _) hfind ?_) hfind rfl rfl rfl
  have hregistered := h.registered ht
  rintro t' ⟨⟩
  exact ⟨rfl, by simp, hregistered⟩

/-- Releasing a tuple that was taken out. -/
theorem release_spec (h : Sound (id :: rest) g) (ht : g.find? id = some t)
    {Q : Unit → Agenda → Prop}
    (hQ : ∀ g', Sound rest g' → (∀ x, g'.find? x = if id = x then none else g.find? x) →
      g'.queues = g.queues → g'.limits = g.limits →
      g'.tuples.generation = g.tuples.generation + 1 → Q () g') :
    Action.Ensures E (release id) g Q := by
  have hfind := g.tuples.find?_erase id
  unfold release
  rw [Action.ensures_modify]
  refine hQ _ (h.dealWith (h.store.erase id) hfind ?_) hfind rfl rfl
    (TupleStore.generation_erase ht)
  rintro t' ⟨⟩

/-- Settling an open tuple does not change which tuples are open. -/
theorem openAt_settle {g' : Agenda} (ht : g.find? id = some t) (hopen : t.stage.isOpen = true)
    (hfind : ∀ x, g'.find? x = if id = x then some { t with stage := .settled } else g.find? x)
    (node : NodeId) : g'.openAt node = g.openAt node := by
  funext x
  rw [openAt_of_find hfind]
  split
  · next he =>
    subst he
    have hsettled : Stage.isOpen .settled = true := rfl
    simp [openAt, ht, hopen, hsettled]
  · rfl

/-- Nor does releasing one that is not open. -/
theorem openAt_release {g' : Agenda} (ht : g.find? id = some t) (hclosed : t.stage.isOpen = false)
    (hfind : ∀ x, g'.find? x = if id = x then none else g.find? x) (node : NodeId) :
    g'.openAt node = g.openAt node := by
  funext x
  unfold openAt
  rw [hfind]
  by_cases he : id = x
  · subst he
    simp [ht, hclosed]
  · rw [if_neg he]

/-! ## Starting over -/

/-- No tuple lives, and all queues are empty. -/
structure Blank (g : Agenda) : Prop where
  store : g.tuples.Sound
  find?_none : ∀ id, g.find? id = none
  queues : ∀ {node queue}, g.queues.get? node = some queue → queue = []
  pending : g.pending = 0

theorem Blank.sound (h : Blank g) : Sound [] g where
  store := h.store
  alive hx := by rw [h.find?_none] at hx; cases hx
  registered hx := by rw [h.find?_none] at hx; cases hx
  dirty_iff hx := by rw [h.find?_none] at hx; cases hx
  queued := by
    rintro node id ⟨queue, hq, hx⟩
    rw [h.queues hq] at hx
    cases hx
  away_live hx := by cases hx
  queue_nodup hq := by rw [h.queues hq]; exact List.nodup_nil
  away_nodup := List.nodup_nil
  away_queued hx := by cases hx
  pending_eq := by
    rw [h.pending, eq_comm, List.length_eq_zero_iff, List.flatten_eq_nil_iff]
    intro queue hq
    obtain ⟨⟨node, q⟩, hm, rfl⟩ := List.mem_map.1 hq
    exact h.queues (Table.get?_eq_some_iff.2 hm)

theorem Blank.register (h : Blank g) (node : NodeId) : Blank (g.register node) where
  store := h.store
  find?_none := h.find?_none
  queues := by
    intro other queue hq
    have hq' : (g.queues.insert node []).get? other = some queue := hq
    rw [Table.get?_insert] at hq'
    split at hq'
    · cases hq'; rfl
    · exact h.queues hq'
  pending := h.pending

theorem blank_clear (g : Agenda) : Blank g.clear where
  store := .clear g.tuples
  find?_none := TupleStore.find?_clear g.tuples
  queues := by
    intro node queue hq
    obtain ⟨e, -, he⟩ := List.mem_map.1 (Table.get?_eq_some_iff.1 hq)
    cases he
    rfl
  pending := rfl

end Agenda

end ConstraintStreams
