import ConstraintStreams.Proofs.Network.Conserving
import ConstraintStreams.Proofs.Network.Weight

/-!
# Networks at rest

What a successful flush leaves: no tuple waits, every tuple is settled, no node has outputs left to
settle, and every ledger lists settled tuples and the exact sum of its entries. Flushing such a
network again delivers nothing and leaves everything as it is.
-/

namespace ConstraintStreams

namespace Network

variable {kind : ScoreKind} {g : Graph kind} {K : Knowledge} {net : Network kind} {p : NodeId}
  {n : Node kind}

/-! ## Memories are those of nodes -/

/-- Every memory is that of a node of the graph. -/
def Housed (g : Graph kind) (net : Network kind) : Prop :=
  ∀ p m, net.memories.get? p = some m → ∃ n, g.nodes.get? p = some n

theorem housed_reset (g : Graph kind) (net : Network kind) : Housed g (reset g net) := by
  intro p m hm
  obtain ⟨n, hn, -⟩ := Option.map_eq_some_iff.1 ((Table.get?_mapValues g.nodes _ p).symm.trans hm)
  exact ⟨n, hn⟩

theorem Housed.insert (h : Housed g net) (hn : g.nodes.get? p = some n) (m : NodeMemory kind) :
    Housed g { net with memories := net.memories.insert p m } := by
  intro q mq hq
  rw [show _ = _ from Table.get?_insert net.memories p q m] at hq
  split at hq
  · next he => exact ⟨n, he ▸ hn⟩
  · exact h q mq hq

theorem keepsHoused_onAgenda {α : Type} (x : Action Agenda α) :
    Action.Keeps (Housed g) (onAgenda x : NetworkAction kind α) := by
  intro net h
  refine Action.ends_within.2 ?_
  unfold Action.Ends
  split
  · exact h
  · exact h

theorem keepsHoused_onMemory {μ α : Type} (hn : g.nodes.get? p = some n) (m : μ)
    (wrap : μ → NodeMemory kind) (x : Work μ α) :
    Action.Keeps (Housed g) (onMemory p m wrap x) := by
  intro net h
  refine Action.ends_within.2 ?_
  unfold Action.Ends
  split
  · exact h.insert hn _
  · exact h.insert hn _

theorem keepsHoused_act (hn : g.nodes.get? p = some n) (side : Side) (id : TupleId)
    (signal : Signal) : Action.Keeps (Housed g) (act p n side id signal) := by
  unfold act
  refine .bind (keeps_memoryOf p) fun m => ?_
  split
  · exact keepsHoused_onMemory hn _ _ _
  all_goals first
    | exact .bind (keepsHoused_onMemory hn _ _ _) fun _ => .pure _
    | exact .throw _

theorem keepsHoused_refresh (g : Graph kind) (p : NodeId) :
    Action.Keeps (Housed g) (refresh g p) := by
  unfold refresh
  refine .lift_bind fun n hn => .get_bind fun net _ => ?_
  split
  · exact keepsHoused_onMemory (Graph.node_eq_ok.1 hn) _ _ _
  · exact keepsHoused_onMemory (Graph.node_eq_ok.1 hn) _ _ _
  · exact .pure _

theorem withstands_housed (g : Graph kind) : Withstands g (fun _ _ => False) (Housed g) where
  count _ h := h
  act hn _ _ _ := .of_keeps (keepsHoused_act hn _ _ _)
  refresh p := .of_keeps (keepsHoused_refresh g p)
  settle _ := keepsHoused_onAgenda _
  release _ := keepsHoused_onAgenda _
  takeQueue _ := keepsHoused_onAgenda _

theorem keepsHoused_flush (g : Graph kind) : Action.Keeps (Housed g) (flush g) :=
  (withstands_housed g).flush.keeps fun _ _ => False.elim

theorem keepsHoused_setWeight (p : NodeId) (weight : Score kind) :
    Action.Keeps (Housed g) (setWeight g p weight) := by
  unfold setWeight
  refine .lift_bind fun c hc => .get_bind fun net _ => ?_
  obtain ⟨n, hn, -⟩ := except_bind_eq_ok.1 hc
  split
  · intro net h
    refine Action.ends_within.2 ?_
    unfold Action.Ends
    split
    · exact h.insert (Graph.node_eq_ok.1 hn) _
    · exact h.insert (Graph.node_eq_ok.1 hn) _
  · exact .pure _

/-! ## Rest -/

/-- Nothing is left to do, and what the constraints list is what there is. -/
structure Settled (g : Graph kind) (net : Network kind) : Prop where
  queues : ∀ {p queue}, net.agenda.queues.get? p = some queue → queue = []
  pending : net.agenda.pending = 0
  stages : ∀ {id t}, net.agenda.find? id = some t → t.stage = .settled
  refreshed : ∀ {p m}, net.memories.get? p = some m → m.hasDirty = false
  matched : ∀ {p l id}, net.ledger? p = some l → l.entries.contains id = true →
    net.agenda.Settled id
  totals : ∀ {p l}, net.ledger? p = some l → ∀ i, l.total.level i = Ledger.exactSum l.entries.values i

/-- Only nodes that own tuples have outputs to settle. -/
theorem hasDirty_of_leaf {m : NodeMemory kind} {op : Operator kind} {v : View}
    {out : TupleId → Option (Facts × Sources)} (h : m.Valid op v out) (ho : op.ownsTuples = false) :
    m.hasDirty = false := by
  cases op with
  | filter => cases m <;> first | rfl | exact h.elim
  | constraint => cases m <;> first | rfl | exact h.elim
  | _ => cases ho

/-- In a network at rest everything is settled. -/
theorem Consistent.settled (h : Consistent g K net) (hrest : AtRest g net) (hhoused : Housed g net) :
    Settled g net := by
  have hqueues : ∀ {p queue}, net.agenda.queues.get? p = some queue → queue = [] := by
    intro p queue hq
    obtain ⟨n, hn, ho⟩ := (h.coherent.registered p).1 (by rw [hq]; rfl)
    rw [(hrest.calm hn ho).queue] at hq
    exact (Option.some.inj hq).symm
  have hledger : ∀ {p l}, net.ledger? p = some l → ∃ c, l.Valid c (K.view { net } p) := by
    intro p l hl
    obtain ⟨m, hm, hml⟩ := Option.bind_eq_some_iff.1 hl
    obtain ⟨n, hn⟩ := hhoused p m hm
    obtain ⟨m', -, hm', -, hvalid, -⟩ := h.coherent.memory hn
    cases hm.symm.trans hm'
    cases m <;> cases hml
    cases hop : n.operator <;> rw [hop] at hvalid <;> first | exact hvalid.elim | exact ⟨_, hvalid⟩
  refine ⟨hqueues, ?_, hrest.settled, ?_, ?_, ?_⟩
  · rw [h.coherent.sound.pending_eq, List.length_eq_zero_iff, List.flatten_eq_nil_iff]
    intro queue hm
    obtain ⟨⟨p, queue'⟩, hm', rfl⟩ := List.mem_map.1 hm
    exact hqueues (Table.get?_eq_some_iff.2 hm')
  · intro p m hm
    obtain ⟨n, hn⟩ := hhoused p m hm
    cases ho : n.operator.ownsTuples with
    | true => exact (hrest.calm hn ho).refreshed m hm
    | false =>
      obtain ⟨m', -, hm', -, hvalid, -⟩ := h.coherent.memory hn
      cases hm.symm.trans hm'
      exact hasDirty_of_leaf hvalid ho
  · intro p l id hl hid
    obtain ⟨c, hvalid⟩ := hledger hl
    obtain ⟨facts, htold⟩ := Option.isSome_iff_exists.1 ((hvalid.held id).1 hid)
    obtain ⟨t, ht, -⟩ := h.coherent.feeds htold
    exact ⟨t, ht, hrest.settled ht⟩
  · intro p l hl
    obtain ⟨c, hvalid⟩ := hledger hl
    exact hvalid.total_eq

/-! ## Flushing again -/

/-- Refreshing a node without outputs to settle changes nothing. -/
theorem refresh_of_calm (hn : g.nodes.get? p = some n) (hcalm : net.Calm p) :
    Action.Ensures (fun _ => False) (refresh g p) net fun _ net' => net' = net := by
  have hnode : g.node p = .ok n := by simp [Graph.node, hn]
  unfold refresh
  rw [Action.ensures_bind, Action.ensures_lift_of_ok hnode, Action.ensures_bind, Action.ensures_get]
  split
  · next key collector m hop hm =>
    have hdirty : m.dirty = [] := by
      simpa [NodeMemory.hasDirty, GroupMemory.hasDirty] using hcalm.refreshed _ hm
    refine Action.ensures_within.2 ?_
    unfold GroupMemory.refresh
    rw [Action.ensures_bind, Bench.ensures_memory, hdirty, Action.ensures_bind]
    refine Bench.ensures_inHashOrder fun dirty hperm => ?_
    rw [hperm.eq_nil, Action.ensures_bind, Bench.ensures_modifyMemory, Action.ensures_forM_nil, ← hdirty,
      Table.insert_eq_self hm]
  · next expected joiners m hop hm =>
    have hdirty : m.dirty = [] := by
      simpa [NodeMemory.hasDirty, SemijoinMemory.hasDirty] using hcalm.refreshed _ hm
    refine Action.ensures_within.2 ?_
    unfold SemijoinMemory.refresh
    rw [Action.ensures_bind, Bench.ensures_memory, hdirty, Action.ensures_bind]
    refine Bench.ensures_inHashOrder fun dirty hperm => ?_
    rw [hperm.eq_nil, Action.ensures_bind, Bench.ensures_modifyMemory, Action.ensures_forM_nil, ← hdirty,
      Table.insert_eq_self hm]
  · rfl

/-- Draining a calm node drains nothing and changes nothing. -/
theorem drain_of_calm (hn : g.nodes.get? p = some n) (hcalm : net.Calm p) :
    Action.Ensures (fun _ => False) (drain g p) net fun count net' => count = 0 ∧ net' = net := by
  unfold drain
  rw [Action.ensures_bind]
  refine (refresh_of_calm hn hcalm).mono ?_
  rintro _ net' rfl
  rw [Action.ensures_bind]
  refine Action.ensures_within.2 ?_
  unfold Agenda.takeQueue
  rw [Action.ensures_bind, Action.ensures_get, hcalm.queue, Action.ensures_bind,
    Action.ensures_lift_of_ok (a := net'.agenda.pending) (by simp [countDown]), Action.ensures_bind,
    Action.ensures_set, Table.insert_eq_self hcalm.queue]
  exact ⟨rfl, rfl⟩

/-- A flush of a network in which all is calm drains nothing, and changes nothing but the count of
deliveries. -/
theorem flush_of_calm (hcalm : ∀ {p n}, g.nodes.get? p = some n → n.operator.ownsTuples = true →
    net.Calm p) : flush g net = .ok 0 { net with operations := 0 } := by
  have hall : ∀ nodes : List NodeId, (∀ p ∈ nodes, p ∈ g.layers.flatten) →
      Action.Ensures (fun _ => False) (drainAll g nodes) { net with operations := 0 }
        fun count net' => count = 0 ∧ net' = { net with operations := 0 } := by
    intro nodes hnodes
    induction nodes with
    | nil => exact ⟨rfl, rfl⟩
    | cons p rest ih =>
      obtain ⟨n, hn, ho⟩ := Graph.mem_layers.1 (hnodes p List.mem_cons_self)
      have hp := hcalm hn ho
      unfold drainAll
      rw [Action.ensures_bind]
      have hp' : Calm { net with operations := 0 } p := ⟨hp.queue, hp.refreshed⟩
      refine (drain_of_calm hn hp').mono ?_
      rintro _ net' ⟨rfl, rfl⟩
      rw [Action.ensures_bind]
      refine (ih fun q hq => hnodes q (List.mem_cons_of_mem p hq)).mono ?_
      rintro _ net' ⟨rfl, rfl⟩
      exact ⟨rfl, rfl⟩
  refine Action.Ensures.eq_ok ?_
  unfold flush
  rw [Action.ensures_bind, Action.ensures_modify]
  exact hall _ fun p hp => hp

/-- So does one of a network at rest. -/
theorem flush_of_rest (hrest : AtRest g net) : flush g net = .ok 0 { net with operations := 0 } :=
  flush_of_calm hrest.calm

end Network

end ConstraintStreams
