import ConstraintStreams.Proofs.Action
import ConstraintStreams.Proofs.Tuple.Store
import ConstraintStreams.Tuple.Agenda

/-!
# The agenda keeps its queues

An agenda is sound when a tuple waits in the queue of its node exactly while its stage is dirty, and
once, and the number of queued tuples is counted. The changes that operators make keep an agenda
sound. They only touch tuples of one node: `Agenda.Evolves` says what everyone else may rely on, and
`Agenda.openAt` shows what the node itself has to know.
-/

namespace ConstraintStreams

namespace Stage

/-- The children of the node know of a tuple in this stage. -/
def isSeen : Stage → Bool
  | settled | updating | dying => true
  | creating | aborting | dead => false

/-- A tuple in this stage has not been withdrawn. -/
def isOpen : Stage → Bool
  | creating | settled | updating => true
  | dying | aborting | dead => false

/-- The stage of an open tuple that was changed. -/
def changed : Stage → Stage
  | settled => updating
  | stage => stage

end Stage

namespace Agenda

/-- The live tuple of a name. -/
def find? (g : Agenda) (id : TupleId) : Option Tuple := g.tuples.find? id

/-- The tuple waits in the queue of a node. -/
def Queued (g : Agenda) (node : NodeId) (id : TupleId) : Prop :=
  ∃ queue, g.queues.get? node = some queue ∧ id ∈ queue

/-- The queues hold the dirty tuples, each once. The tuples of `away` are dirty ones that were taken
out of their queue to be looked at. -/
structure Sound (away : List TupleId) (g : Agenda) : Prop where
  store : g.tuples.Sound
  alive : ∀ {id t}, g.find? id = some t → t.stage ≠ .dead
  registered : ∀ {id t}, g.find? id = some t → ∃ queue, g.queues.get? t.node = some queue
  dirty_iff : ∀ {id t}, g.find? id = some t →
    (t.stage.isDirty = true ↔ id ∈ away ∨ g.Queued t.node id)
  queued : ∀ {node id}, g.Queued node id → ∃ t, g.find? id = some t ∧ t.node = node
  away_live : ∀ {id}, id ∈ away → ∃ t, g.find? id = some t
  queue_nodup : ∀ {node queue}, g.queues.get? node = some queue → queue.Nodup
  away_nodup : away.Nodup
  away_queued : ∀ {id}, id ∈ away → ∀ node, ¬ g.Queued node id
  pending_eq : g.pending = g.queues.values.flatten.length

/-- What work on the tuples of some nodes leaves to all others: the tuples of other nodes are as
before, and a tuple that changed is dirty, and seen exactly if it was seen before. -/
structure Drifts (moving : NodeId → Prop) (g g' : Agenda) : Prop where
  limits : g'.limits = g.limits
  generation : g'.tuples.generation = g.tuples.generation
  queues : ∀ other, ¬ moving other → g'.queues.get? other = g.queues.get? other
  registered : ∀ other, (g'.queues.get? other).isSome = (g.queues.get? other).isSome
  old : ∀ {id t}, g.find? id = some t → ∃ t', g'.find? id = some t' ∧ t'.node = t.node ∧
    t'.sources = t.sources ∧
    (t' = t ∨ moving t.node ∧ t'.stage ≠ .settled ∧ t'.stage.isSeen = t.stage.isSeen)
  fresh : ∀ {id t'}, g.find? id = none → g'.find? id = some t' →
    moving t'.node ∧ t'.stage.isSeen = false ∧ id.generation = g.tuples.generation

/-- What work on the tuples of one node leaves. -/
abbrev Evolves (node : NodeId) : Agenda → Agenda → Prop := Drifts (· = node)

namespace Drifts

variable {moving moving' : NodeId → Prop} {g g' g'' : Agenda} {id : TupleId} {t : Tuple}

theorem refl (moving : NodeId → Prop) (g : Agenda) : Drifts moving g g where
  limits := rfl
  generation := rfl
  queues _ _ := rfl
  registered _ := rfl
  old h := ⟨_, h, rfl, rfl, .inl rfl⟩
  fresh h h' := by rw [h] at h'; cases h'

theorem trans (h : Drifts moving g g') (h' : Drifts moving g' g'') : Drifts moving g g'' where
  limits := h'.limits.trans h.limits
  generation := h'.generation.trans h.generation
  queues other hne := (h'.queues other hne).trans (h.queues other hne)
  registered other := (h'.registered other).trans (h.registered other)
  old := by
    intro id t ht
    obtain ⟨t', ht', hnode, hsources, hkept⟩ := h.old ht
    obtain ⟨t'', ht'', hnode', hsources', hkept'⟩ := h'.old ht'
    refine ⟨t'', ht'', hnode'.trans hnode, hsources'.trans hsources, ?_⟩
    rcases hkept' with rfl | ⟨hn, hs, hseen⟩
    · exact hkept
    · rcases hkept with rfl | ⟨hn', -, hseen'⟩
      · exact .inr ⟨hn, hs, hseen⟩
      · exact .inr ⟨hn', hs, hseen.trans hseen'⟩
  fresh := by
    intro id t'' hnone ht''
    cases hid : g'.find? id with
    | none => exact h.generation ▸ h'.fresh hid ht''
    | some t' =>
      obtain ⟨hnode, hseen, hgen⟩ := h.fresh hnone hid
      obtain ⟨u, hu, hnode', -, hkept⟩ := h'.old hid
      rw [ht''] at hu
      cases hu
      refine ⟨hnode' ▸ hnode, ?_, hgen⟩
      rcases hkept with rfl | ⟨-, -, hs⟩
      · exact hseen
      · exact hs.trans hseen

/-- Work on fewer nodes is work on more. -/
theorem mono (h : Drifts moving g g') (hle : ∀ p, moving p → moving' p) : Drifts moving' g g' where
  limits := h.limits
  generation := h.generation
  queues other hne := h.queues other fun hm => hne (hle other hm)
  registered := h.registered
  old := by
    intro id t ht
    obtain ⟨t', ht', hnode, hsources, hkept⟩ := h.old ht
    exact ⟨t', ht', hnode, hsources, hkept.imp_right fun hk => ⟨hle _ hk.1, hk.2⟩⟩
  fresh hnone ht := by
    obtain ⟨hm, h⟩ := h.fresh hnone ht
    exact ⟨hle _ hm, h⟩

/-- The tuples of other nodes are as before. -/
theorem other (h : Drifts moving g g') (ht : g.find? id = some t) (hne : ¬ moving t.node) :
    g'.find? id = some t := by
  obtain ⟨t', ht', -, -, rfl | ⟨hn, -⟩⟩ := h.old ht
  · exact ht'
  · exact absurd hn hne

/-- A tuple that is settled afterwards was so before, and has not changed. -/
theorem settled_inv (h : Drifts moving g g') (hold : ∃ u, g.find? id = some u)
    (ht : g'.find? id = some t) (hs : t.stage = .settled) : g.find? id = some t := by
  obtain ⟨u, hu⟩ := hold
  obtain ⟨t', ht', -, -, rfl | ⟨-, hs', -⟩⟩ := h.old hu
  · rw [ht] at ht'
    cases ht'
    exact hu
  · rw [ht] at ht'
    cases ht'
    exact absurd hs hs'

end Drifts

/-- The facts and the sources of the tuples that a node has not withdrawn. -/
def openAt (g : Agenda) (node : NodeId) (id : TupleId) : Option (Facts × Sources) :=
  match g.find? id with
  | some t => if t.node = node ∧ t.stage.isOpen = true then some (t.facts, t.sources) else none
  | none => none

theorem openAt_eq_some_iff {g : Agenda} {node : NodeId} {id : TupleId} {facts : Facts}
    {sources : Sources} :
    g.openAt node id = some (facts, sources) ↔ ∃ t, g.find? id = some t ∧ t.node = node ∧
      t.stage.isOpen = true ∧ t.facts = facts ∧ t.sources = sources := by
  unfold openAt
  cases g.find? id with
  | none => simp
  | some t => simp [and_assoc]

theorem openAt_of_none {g : Agenda} (node : NodeId) {id : TupleId} (h : g.find? id = none) :
    g.openAt node id = none := by
  simp [openAt, h]

/-! ## Soundness under changes of one tuple -/

variable {away : List TupleId} {g : Agenda} {E : Error → Prop}

theorem queued_append {node : NodeId} {queue : List TupleId} (hq : g.queues.get? node = some queue)
    (id : TupleId) (tuples : TupleStore) (pending : Nat) (node' : NodeId) (id' : TupleId) :
    Queued { g with tuples, pending, queues := g.queues.insert node (queue ++ [id]) } node' id' ↔
      node = node' ∧ id = id' ∨ g.Queued node' id' := by
  unfold Queued
  simp only [Table.get?_insert]
  by_cases hn : node = node'
  · subst hn
    simp only [if_pos, Option.some.injEq, exists_eq_left', List.mem_append, List.mem_singleton, hq,
      true_and]
    rw [or_comm, eq_comm]
  · simp [hn]

/-- A tuple that is not dirty is in no queue. -/
theorem Sound.not_queued (h : Sound away g) {id : TupleId}
    (hidle : ∀ t, g.find? id = some t → t.stage.isDirty = false) (node : NodeId) :
    ¬ g.Queued node id := by
  intro hqueued
  obtain ⟨t, ht, hn⟩ := h.queued hqueued
  have hdirty := (h.dirty_iff ht).2 (.inr (hn ▸ hqueued))
  rw [hidle t ht] at hdirty
  cases hdirty

/-- Nor was it taken out of one. -/
theorem Sound.not_away (h : Sound away g) {id : TupleId}
    (hidle : ∀ t, g.find? id = some t → t.stage.isDirty = false) : id ∉ away := by
  intro haway
  obtain ⟨t, ht⟩ := h.away_live haway
  have hdirty := (h.dirty_iff ht).2 (.inl haway)
  rw [hidle t ht] at hdirty
  cases hdirty

/-- A tuple that is not queued turns dirty and is put at the end of the queue of its node. -/
theorem Sound.push (h : Sound away g) {id : TupleId} {t' : Tuple} {queue : List TupleId}
    {tuples : TupleStore} (hstore : tuples.Sound)
    (hfind : ∀ x, tuples.find? x = if id = x then some t' else g.find? x)
    (hdirty : t'.stage.isDirty = true) (hq : g.queues.get? t'.node = some queue)
    (hidle : ∀ t, g.find? id = some t → t.stage.isDirty = false ∧ t.node = t'.node) :
    Sound away { g with
      tuples
      queues := g.queues.insert t'.node (queue ++ [id])
      pending := g.pending + 1 } := by
  have hqueued := queued_append hq id tuples (g.pending + 1)
  have hunqueued := h.not_queued fun t ht => (hidle t ht).1
  have hstays := h.not_away fun t ht => (hidle t ht).1
  have hother : ∀ {x t}, id ≠ x → g.find? x = some t → tuples.find? x = some t := by
    intro x t hne ht
    rw [hfind, if_neg hne, ht]
  refine {
    store := hstore
    alive := fun {x t} hx => ?alive
    registered := fun {x t} hx => ?registered
    dirty_iff := fun {x t} hx => ?dirty_iff
    queued := fun {node x} hx => ?queued
    away_live := fun {x} hx => ?away_live
    queue_nodup := fun {node q} hget => ?queue_nodup
    away_nodup := h.away_nodup
    away_queued := fun {x} hx node hqn => ?away_queued
    pending_eq := ?pending_eq }
  case alive =>
    simp only [find?, hfind] at hx
    split at hx
    · cases hx
      intro hd
      rw [hd] at hdirty
      cases hdirty
    · exact h.alive hx
  case registered =>
    simp only [find?, hfind] at hx
    simp only [Table.get?_insert]
    split
    · exact ⟨_, rfl⟩
    · next hn =>
      split at hx
      · cases hx; exact absurd rfl hn
      · exact h.registered hx
  case dirty_iff =>
    rw [hqueued]
    simp only [find?, hfind] at hx
    split at hx
    · next he =>
      subst he
      cases hx
      simp [hdirty]
    · next hne =>
      rw [h.dirty_iff hx]
      simp [hne]
  case queued =>
    rw [hqueued] at hx
    rcases hx with ⟨rfl, rfl⟩ | hx
    · exact ⟨t', (hfind id).trans (if_pos rfl), rfl⟩
    · obtain ⟨t, ht, hn⟩ := h.queued hx
      exact ⟨t, hother (fun he => hunqueued node (he ▸ hx)) ht, hn⟩
  case away_live =>
    obtain ⟨t, ht⟩ := h.away_live hx
    exact ⟨t, hother (fun he => hstays (he ▸ hx)) ht⟩
  case queue_nodup =>
    simp only [Table.get?_insert] at hget
    split at hget
    · cases hget
      rw [List.nodup_append]
      refine ⟨h.queue_nodup hq, List.pairwise_singleton _ _, ?_⟩
      intro a ha b hb
      rw [List.mem_singleton] at hb
      subst hb
      rintro rfl
      exact hunqueued _ ⟨queue, hq, ha⟩
    · exact h.queue_nodup hget
  case away_queued =>
    rw [hqueued] at hqn
    rcases hqn with ⟨-, rfl⟩ | hqn
    · exact hstays hx
    · exact h.away_queued hx node hqn
  case pending_eq =>
    have hlen := g.queues.length_values_insert t'.node (queue ++ [id])
    have hpending := h.pending_eq
    rw [hq, Option.getD_some, List.length_append, List.length_singleton] at hlen
    show g.pending + 1 = (g.queues.insert t'.node (queue ++ [id])).values.flatten.length
    omega

/-- A tuple is replaced by one of the same node that is as dirty as it was. -/
theorem Sound.put (h : Sound away g) {id : TupleId} {t t' : Tuple} (ht : g.find? id = some t)
    (hnode : t'.node = t.node) (hdirty : t'.stage.isDirty = t.stage.isDirty)
    (halive : t'.stage ≠ .dead) : Sound away { g with tuples := g.tuples.set id t' } := by
  have hfind : ∀ x, find? { g with tuples := g.tuples.set id t' } x
      = if id = x then some t' else g.find? x := fun x => g.tuples.find?_set id x t'
  refine {
    store := h.store.set ht t'
    alive := fun {x u} hx => ?alive
    registered := fun {x u} hx => ?registered
    dirty_iff := fun {x u} hx => ?dirty_iff
    queued := fun {node x} hx => ?queued
    away_live := fun {x} hx => ?away_live
    queue_nodup := h.queue_nodup
    away_nodup := h.away_nodup
    away_queued := h.away_queued
    pending_eq := h.pending_eq }
  case alive =>
    rw [hfind] at hx
    split at hx
    · cases hx; exact halive
    · exact h.alive hx
  case registered =>
    rw [hfind] at hx
    split at hx
    · cases hx; rw [hnode]; exact h.registered ht
    · exact h.registered hx
  case dirty_iff =>
    rw [hfind] at hx
    split at hx
    · next he =>
      subst he
      cases hx
      rw [hdirty, hnode]
      exact h.dirty_iff ht
    · exact h.dirty_iff hx
  case queued =>
    obtain ⟨u, hu, hn⟩ := h.queued hx
    rw [hfind]
    by_cases he : id = x
    · subst he
      rw [ht] at hu
      cases hu
      exact ⟨t', if_pos rfl, hnode.trans hn⟩
    · exact ⟨u, by rw [if_neg he, hu], hn⟩
  case away_live =>
    obtain ⟨u, hu⟩ := h.away_live hx
    rw [hfind]
    by_cases he : id = x
    · exact ⟨t', if_pos he⟩
    · exact ⟨u, by rw [if_neg he, hu]⟩

/-- One tuple of a node is replaced, or made, in a way that the others may not mind. -/
theorem Evolves.of_find {node : NodeId} {g' : Agenda} {id : TupleId} {t' : Tuple}
    (hlimits : g'.limits = g.limits) (hgen : g'.tuples.generation = g.tuples.generation)
    (hqueues : ∀ other, other ≠ node → g'.queues.get? other = g.queues.get? other)
    (hregistered : ∀ other, (g'.queues.get? other).isSome = (g.queues.get? other).isSome)
    (hfind : ∀ x, g'.find? x = if id = x then some t' else g.find? x) (hnode : t'.node = node)
    (hold : ∀ t, g.find? id = some t → t.node = node ∧ t'.sources = t.sources ∧
      t'.stage ≠ .settled ∧ t'.stage.isSeen = t.stage.isSeen)
    (hfresh : g.find? id = none → t'.stage.isSeen = false ∧ id.generation = g.tuples.generation) :
    Evolves node g g' where
  limits := hlimits
  generation := hgen
  queues := hqueues
  registered := hregistered
  old := by
    intro x t ht
    rw [hfind]
    by_cases he : id = x
    · subst he
      obtain ⟨hn, hsrc, hstage, hseen⟩ := hold t ht
      exact ⟨t', if_pos rfl, hnode.trans hn.symm, hsrc, .inr ⟨hn, hstage, hseen⟩⟩
    · exact ⟨t, by rw [if_neg he, ht], rfl, rfl, .inl rfl⟩
  fresh := by
    intro x u hnone hu
    rw [hfind] at hu
    split at hu
    · next he =>
      subst he
      cases hu
      exact ⟨hnode, hfresh hnone⟩
    · rw [hnone] at hu; cases hu

/-- The tuple that is replaced or made is also put at the end of the queue of the node. -/
theorem Evolves.push {id : TupleId} {t' : Tuple} {queue : List TupleId} {tuples : TupleStore}
    (hq : g.queues.get? t'.node = some queue) (hgen : tuples.generation = g.tuples.generation)
    (hfind : ∀ x, tuples.find? x = if id = x then some t' else g.find? x)
    (hold : ∀ t, g.find? id = some t → t.node = t'.node ∧ t'.sources = t.sources ∧
      t'.stage ≠ .settled ∧ t'.stage.isSeen = t.stage.isSeen)
    (hfresh : g.find? id = none → t'.stage.isSeen = false ∧ id.generation = g.tuples.generation) :
    Evolves t'.node g { g with
      tuples
      queues := g.queues.insert t'.node (queue ++ [id])
      pending := g.pending + 1 } := by
  refine .of_find rfl hgen (fun other hne => ?_) (fun other => ?_) hfind rfl hold hfresh
  · simp [hne.symm]
  · simp only [Table.get?_insert]
    split
    · next he => subst he; rw [hq]; rfl
    · rfl

theorem openAt_of_find {g' : Agenda} {node : NodeId} {id : TupleId} {t' : Tuple}
    (hfind : ∀ x, g'.find? x = if id = x then some t' else g.find? x) (x : TupleId) :
    g'.openAt node x = if id = x then
      (if t'.node = node ∧ t'.stage.isOpen = true then some (t'.facts, t'.sources) else none)
      else g.openAt node x := by
  unfold openAt
  rw [hfind]
  by_cases he : id = x
  · simp [he]
  · simp [he]

/-! ## What each operation does -/

theorem tuple_eq {id : TupleId} {t : Tuple} (ht : g.find? id = some t) : g.tuple id = .ok t :=
  TupleStore.get_eq_ok ht

theorem facts_eq {id : TupleId} {t : Tuple} (ht : g.find? id = some t) :
    g.facts id = .ok t.facts := by
  simp only [facts, tuple_eq ht]
  rfl

theorem sources_eq {id : TupleId} {t : Tuple} (ht : g.find? id = some t) :
    g.sources id = .ok t.sources := by
  simp only [sources, tuple_eq ht]
  rfl

theorem stage_eq {id : TupleId} {t : Tuple} (ht : g.find? id = some t) :
    g.stage id = .ok t.stage := by
  simp only [stage, tuple_eq ht]
  rfl

theorem enqueue_spec {node : NodeId} {id : TupleId} {queue : List TupleId} {tuples : TupleStore}
    (hq : g.queues.get? node = some queue) {Q : Unit → Agenda → Prop}
    (h : Q () { g with
      tuples
      queues := g.queues.insert node (queue ++ [id])
      pending := g.pending + 1 }) : Action.Ensures E (enqueue node id) { g with tuples } Q := by
  unfold enqueue
  simp only [Action.ensures_bind, Action.ensures_get, hq]
  exact h

/-- Making a tuple can only fail at the limit on tuples. -/
theorem create_spec {node : NodeId} (facts : Facts) (sources : Sources) (h : Sound away g)
    (hlimit : ∀ limit details, E (.resourceLimit limit details))
    (hreg : ∃ queue, g.queues.get? node = some queue) :
    Action.Ensures E (create node facts sources) g fun id g' =>
      Sound away g' ∧ Evolves node g g' ∧ g.find? id = none ∧
        ∀ x, g'.find? x = if id = x then some (Tuple.new node facts sources) else g.find? x := by
  obtain ⟨queue, hq⟩ := hreg
  let t := Tuple.new node facts sources
  have hnone : g.find? (g.tuples.insert t).1 = none := h.store.find?_new t
  have hfind := g.tuples.find?_insert t
  have hgeneration := g.tuples.generation_insert t
  unfold create
  simp only [Action.ensures_bind, Action.ensures_get, Action.ensures_lift, Action.ensures_set,
    TupleStore.acquire]
  constructor
  · intro made hok
    cases hcheck : g.limits.check .tuples (g.tuples.size + 1) with
    | error e => rw [hcheck] at hok; cases hok
    | ok u =>
      rw [hcheck] at hok
      obtain rfl : g.tuples.insert t = made := Except.ok.inj hok
      refine .tryCatch ?_
      refine enqueue_spec hq ?_
      simp only [Action.ensures_pure]
      have habsent {P : Tuple → Prop} (u : Tuple) (hu : g.find? (g.tuples.insert t).1 = some u) :
          P u := by
        rw [hnone] at hu
        cases hu
      exact ⟨h.push (h.store.insert t) hfind rfl hq habsent,
        .push hq hgeneration.2 hfind habsent fun _ => ⟨rfl, hgeneration.1⟩, hnone, hfind⟩
  · intro e he
    unfold Limits.check at he
    split at he
    · cases he; exact hlimit _ _
    · cases he

/-- A tuple that is not settled afterwards is replaced where it stands, as dirty as it was. -/
theorem put_spec {id : TupleId} {t : Tuple} (t' : Tuple) (h : Sound away g)
    (ht : g.find? id = some t) (hnode : t'.node = t.node) (hsources : t'.sources = t.sources)
    (hdirty : t'.stage.isDirty = t.stage.isDirty) (halive : t'.stage ≠ .dead)
    (hstage : t'.stage ≠ .settled) (hseen : t'.stage.isSeen = t.stage.isSeen) :
    Sound away { g with tuples := g.tuples.set id t' } ∧
      Evolves t.node g { g with tuples := g.tuples.set id t' } ∧
      ∀ x, find? { g with tuples := g.tuples.set id t' } x =
        if id = x then some t' else g.find? x := by
  have hfind : ∀ x, (g.tuples.set id t').find? x = if id = x then some t' else g.find? x :=
    fun x => g.tuples.find?_set id x t'
  refine ⟨h.put ht hnode hdirty halive,
    .of_find rfl rfl (fun _ _ => rfl) (fun _ => rfl) hfind hnode ?_ ?_, hfind⟩
  · intro u hu
    rw [ht] at hu
    cases hu
    exact ⟨rfl, hsources, hstage, hseen⟩
  · intro hnone
    rw [ht] at hnone
    cases hnone

/-- A settled tuple is replaced by a dirty one that is still seen, and that one is queued. -/
theorem push_spec {id : TupleId} {t : Tuple} {queue : List TupleId} {tuples : TupleStore}
    (t' : Tuple) (h : Sound away g) (ht : g.find? id = some t) (hsettled : t.stage = .settled)
    (hq : g.queues.get? t'.node = some queue) (hstore : tuples.Sound)
    (hgen : tuples.generation = g.tuples.generation)
    (hfind : ∀ x, tuples.find? x = if id = x then some t' else g.find? x) (hnode : t'.node = t.node)
    (hsources : t'.sources = t.sources) (hdirty : t'.stage.isDirty = true)
    (hstage : t'.stage ≠ .settled) (hseen : t'.stage.isSeen = true) :
    let g' := { g with
      tuples
      queues := g.queues.insert t'.node (queue ++ [id])
      pending := g.pending + 1 }
    Sound away g' ∧ Evolves t'.node g g' ∧ ∀ x, g'.find? x = if id = x then some t' else g.find? x := by
  refine ⟨h.push hstore hfind hdirty hq fun u hu => ?_, .push hq hgen hfind (fun u hu => ?_) ?_, hfind⟩
  · rw [ht] at hu
    cases hu
    exact ⟨by rw [hsettled]; rfl, hnode.symm⟩
  · rw [ht] at hu
    cases hu
    exact ⟨hnode.symm, hsources, hstage, by rw [hseen, hsettled]; rfl⟩
  · intro hnone
    rw [ht] at hnone
    cases hnone

/-- Giving an open tuple new facts never fails. -/
theorem change_spec {id : TupleId} {t : Tuple} (facts : Facts) (h : Sound away g)
    (ht : g.find? id = some t) (hopen : t.stage.isOpen = true) :
    Action.Ensures E (do setFacts id facts; update id) g fun _ g' =>
      Sound away g' ∧ Evolves t.node g g' ∧
        ∀ x, g'.find? x = if id = x then some { t with facts, stage := t.stage.changed }
          else g.find? x := by
  have hfind : (g.tuples.set id { t with facts }).find? id = some { t with facts } := by simp
  obtain ⟨queue, hq⟩ := h.registered ht
  unfold setFacts update setTuple
  simp only [Action.ensures_bind, Action.ensures_get, Action.ensures_lift_of_ok (tuple_eq ht),
    Action.ensures_modify,
    Action.ensures_lift_of_ok (tuple_eq (g := { g with tuples := g.tuples.set id { t with facts } })
      hfind)]
  -- A tuple that is still to be seen is as dirty as it was, and already queued.
  have absorbed (stage : Stage) (hstage : t.stage = stage) (hs : stage ≠ .settled)
      (hd : stage ≠ .dead) :=
    put_spec { t with facts, stage } h ht rfl rfl (by rw [hstage]) hd hs (by rw [hstage])
  cases hstage : t.stage with
  | creating => exact absorbed .creating hstage (by simp) (by simp)
  | updating => exact absorbed .updating hstage (by simp) (by simp)
  | settled =>
    have hfind' : ∀ x, ((g.tuples.set id { t with facts, stage := .settled }).set id
        { t with facts, stage := .updating }).find? x
        = if id = x then some { t with facts, stage := .updating } else g.tuples.find? x := by
      intro x
      simp only [TupleStore.find?_set]
      split <;> rfl
    have hstore := (h.store.set ht { t with facts, stage := .settled }).set
      ((g.tuples.find?_set id id _).trans (if_pos rfl)) { t with facts, stage := .updating }
    simp only [Action.ensures_bind, Action.ensures_modify]
    refine enqueue_spec hq ?_
    exact push_spec { t with facts, stage := .updating } h ht hstage hq hstore rfl hfind' rfl rfl rfl
      (by simp) rfl
  | dying => rw [hstage] at hopen; cases hopen
  | aborting => rw [hstage] at hopen; cases hopen
  | dead => rw [hstage] at hopen; cases hopen

/-- Withdrawing an open tuple never fails. -/
theorem retract_spec {id : TupleId} {t : Tuple} (h : Sound away g)
    (ht : g.find? id = some t) (hopen : t.stage.isOpen = true) :
    Action.Ensures E (retract id) g fun _ g' =>
      Sound away g' ∧ Evolves t.node g g' ∧ ∃ stage, Stage.isOpen stage = false ∧
        ∀ x, g'.find? x = if id = x then some { t with stage } else g.find? x := by
  obtain ⟨queue, hq⟩ := h.registered ht
  unfold retract setTuple
  simp only [Action.ensures_bind, Action.ensures_get, Action.ensures_lift_of_ok (tuple_eq ht)]
  cases hstage : t.stage with
  | creating =>
    obtain ⟨hsound, hevolves, hfind⟩ := put_spec { t with stage := .aborting } h ht rfl rfl
      (by rw [hstage]; rfl) (by simp) (by simp) (by rw [hstage]; rfl)
    exact ⟨hsound, hevolves, .aborting, rfl, hfind⟩
  | updating =>
    obtain ⟨hsound, hevolves, hfind⟩ := put_spec { t with stage := .dying } h ht rfl rfl
      (by rw [hstage]; rfl) (by simp) (by simp) (by rw [hstage]; rfl)
    exact ⟨hsound, hevolves, .dying, rfl, hfind⟩
  | settled =>
    simp only [Action.ensures_bind, Action.ensures_modify]
    refine enqueue_spec hq ?_
    obtain ⟨hsound, hevolves, hfind⟩ := push_spec { t with stage := .dying } h ht hstage hq
      (h.store.set ht _) rfl (fun x => g.tuples.find?_set id x _) rfl rfl rfl (by simp) rfl
    exact ⟨hsound, hevolves, .dying, rfl, hfind⟩
  | dying => rw [hstage] at hopen; cases hopen
  | aborting => rw [hstage] at hopen; cases hopen
  | dead => rw [hstage] at hopen; cases hopen

/-! ## What a node sees of its own tuples -/

variable {node : NodeId} {id : TupleId} {facts old : Facts} {sources : Sources}

/-- A new tuple is open, with the facts it was made of. -/
theorem openAt_create {g' : Agenda}
    (hfind : ∀ x, g'.find? x = if id = x then some (Tuple.new node facts sources) else g.find? x)
    (x : TupleId) :
    g'.openAt node x = if id = x then some (facts, sources) else g.openAt node x := by
  rw [openAt_of_find hfind]
  simp [Tuple.new, Stage.isOpen]

theorem ensures_change (h : Sound away g) (hopen : g.openAt node id = some (old, sources))
    (facts : Facts) :
    Action.Ensures E (do setFacts id facts; update id) g fun _ g' =>
      Sound away g' ∧ Evolves node g g' ∧
        ∀ x, g'.openAt node x = if id = x then some (facts, sources) else g.openAt node x := by
  obtain ⟨t, ht, rfl, hstage, rfl, rfl⟩ := openAt_eq_some_iff.1 hopen
  refine (change_spec facts h ht hstage).mono fun _ g' ⟨hsound, hevolves, hfind⟩ => ?_
  refine ⟨hsound, hevolves, fun x => ?_⟩
  have hchanged : t.stage.changed.isOpen = true := by
    cases hs : t.stage <;> simp_all [Stage.changed, Stage.isOpen]
  rw [openAt_of_find hfind, if_pos (show t.node = t.node ∧ _ from ⟨rfl, hchanged⟩)]

theorem ensures_retract (h : Sound away g) (hopen : g.openAt node id = some (old, sources)) :
    Action.Ensures E (retract id) g fun _ g' =>
      Sound away g' ∧ Evolves node g g' ∧
        ∀ x, g'.openAt node x = if id = x then none else g.openAt node x := by
  obtain ⟨t, ht, rfl, hstage, rfl, rfl⟩ := openAt_eq_some_iff.1 hopen
  refine (retract_spec h ht hstage).mono fun _ g' ⟨hsound, hevolves, stage, hclosed, hfind⟩ => ?_
  refine ⟨hsound, hevolves, fun x => ?_⟩
  rw [openAt_of_find hfind]
  simp [hclosed]

end Agenda

end ConstraintStreams
