import ConstraintStreams.Proofs.Network.Source

/-!
# New networks, flushes and weights

The other changes that a session makes to its network, beside those at the sources: it starts over
with a network without tuples, it flushes, and it puts other weights in force. All of them keep the
network consistent, and none of them changes what the sources show, unless it forgets everything.
-/

namespace ConstraintStreams

namespace Network

variable {kind : ScoreKind} {g : Graph kind} {E : Error → Prop} {K : Knowledge} {net : Network kind}
  {p q : NodeId} {n : Node kind} {m m' : NodeMemory kind} {shown : Shown} {c : Constraint kind}
  {weight : Score kind}

/-! ## Starting over -/

/-- Only nodes that own tuples have queues. -/
def Confined (g : Graph kind) (agenda : Agenda) : Prop :=
  ∀ p, (agenda.queues.get? p).isSome = true →
    ∃ n, g.nodes.get? p = some n ∧ n.operator.ownsTuples = true

theorem Sourced.confined (h : Sourced g shown net) : Confined g net.agenda := by
  obtain ⟨K, hK⟩ := h.consistent
  exact fun p => (hK.coherent.registered p).1

/-- Registering the owners among some nodes leaves a blank agenda blank, and queues just them. -/
theorem registerAll_spec (entries : List (NodeId × Node kind)) {agenda : Agenda}
    (hblank : agenda.Blank) :
    let agenda' := entries.foldl
      (fun agenda (id, n) => if n.operator.ownsTuples then agenda.register id else agenda) agenda
    agenda'.Blank ∧ ∀ p, (agenda'.queues.get? p).isSome = true ↔
      (agenda.queues.get? p).isSome = true ∨ ∃ n, (p, n) ∈ entries ∧ n.operator.ownsTuples = true := by
  induction entries generalizing agenda with
  | nil => exact ⟨hblank, fun p => by simp⟩
  | cons e rest ih =>
    obtain ⟨id, n⟩ := e
    rw [List.foldl_cons]
    by_cases ho : n.operator.ownsTuples = true
    · simp only [if_pos ho]
      obtain ⟨hblank', hqueues⟩ := ih (hblank.register id)
      refine ⟨hblank', fun p => (hqueues p).trans ?_⟩
      unfold Agenda.register
      rw [Table.get?_insert]
      by_cases he : id = p
      · subst he
        simp [ho]
      · simp [he, Ne.symm he]
    · simp only [if_neg ho]
      obtain ⟨hblank', hqueues⟩ := ih hblank
      refine ⟨hblank', fun p => (hqueues p).trans (or_congr_right ?_)⟩
      simp only [List.mem_cons, Prod.mk.injEq]
      constructor
      · rintro ⟨x, hx, hox⟩
        exact ⟨x, .inr hx, hox⟩
      · rintro ⟨x, ⟨-, rfl⟩ | hx, hox⟩
        · exact absurd hox ho
        · exact ⟨x, hx, hox⟩

/-- After a reset, all nodes that own tuples have a queue, and all queues are empty. -/
theorem reset_agenda (g : Graph kind) (net : Network kind) : (reset g net).agenda.Blank ∧
    ∀ p, ((reset g net).agenda.queues.get? p).isSome = true ↔
      (net.agenda.queues.get? p).isSome = true ∨
        ∃ n, g.nodes.get? p = some n ∧ n.operator.ownsTuples = true := by
  obtain ⟨hblank, hqueues⟩ := registerAll_spec g.nodes.entries (Agenda.blank_clear net.agenda)
  refine ⟨hblank, fun p => (hqueues p).trans (or_congr ?_ ?_)⟩
  · unfold Agenda.clear
    rw [Table.get?_mapValues, Option.isSome_map]
  · simp only [Table.get?_eq_some_iff]

/-- Registering nodes changes nothing but the queues. -/
theorem reset_eq {α : Type} {f : Agenda → α} (hf : ∀ p agenda, f (Agenda.register p agenda) = f agenda)
    (g : Graph kind) (net : Network kind) : f (reset g net).agenda = f net.agenda.clear := by
  have hregister : ∀ (entries : List (NodeId × Node kind)) (agenda : Agenda), f (entries.foldl
      (fun agenda (id, n) => if n.operator.ownsTuples then agenda.register id else agenda)
      agenda) = f agenda := by
    intro entries
    induction entries with
    | nil => exact fun _ => rfl
    | cons e rest ih =>
      intro agenda
      obtain ⟨id, n⟩ := e
      rw [List.foldl_cons, ih]
      dsimp only
      split
      · exact hf id agenda
      · rfl
  exact hregister g.nodes.entries net.agenda.clear

theorem reset_tuples (g : Graph kind) (net : Network kind) :
    (reset g net).agenda.tuples = net.agenda.tuples.clear := reset_eq (fun _ _ => rfl) g net

theorem reset_limits (g : Graph kind) (net : Network kind) :
    (reset g net).agenda.limits = net.agenda.limits := reset_eq (fun _ _ => rfl) g net

/-- After a reset, every node has an empty memory. -/
theorem reset_memory (hn : g.nodes.get? p = some n) :
    (reset g net).memories.get? p = some (.new n.operator) := by
  show (g.nodes.mapValues _).get? p = _
  rw [Table.get?_mapValues, hn]
  rfl

/-- A network that starts over is consistent, and shows nothing. -/
theorem reset_spec (hqueues : Confined g net.agenda) :
    Sourced g (fun _ _ => none) (reset g net) ∧
      ∀ {p n c}, g.nodes.get? p = some n → n.operator = .constraint c →
        (reset g net).weightAt p = some c.weight := by
  obtain ⟨hblank, hregistered⟩ := reset_agenda g net
  have hopen : ∀ p o, (reset g net).agenda.openAt p o = none := fun p o =>
    Agenda.openAt_of_none p (hblank.find?_none o)
  have hvalid : ∀ p (n : Node kind), (NodeMemory.new n.operator).Valid n.operator
      (Knowledge.blank.view { net := reset g net } p) ((reset g net).agenda.openAt p) :=
    fun p n => .new n.operator (hopen p) fun _ _ => rfl
  have hcoherent : Coherent g (reset g net) [] .blank { net := reset g net } :=
    { sound := hblank.sound
      registered := fun p => (hregistered p).trans (or_iff_right_of_imp (hqueues p))
      memory := fun {p n} hn => ⟨_, _, reset_memory hn, reset_memory hn, hvalid p n,
        .start (hvalid p n) fun _ _ hd => (nomatch hd)⟩
      feeds := fun htold => (nomatch htold) }
  refine ⟨⟨⟨.blank, hcoherent, fun {p l u} _ => ⟨?_, fun htold => (nomatch htold)⟩⟩,
    fun he => (nomatch he), fun _ _ => .of_none (fun _ => rfl) (hopen _), fun he => (nomatch he),
    fun {u t} ht _ => by rw [hblank.find?_none u] at ht; cases ht⟩, ?_⟩
  · refine iff_of_false (fun htold => (nomatch htold)) ?_
    rintro (⟨t, ht, -⟩ | hu)
    · rw [show _ = _ from hblank.find?_none u] at ht
      cases ht
    · unfold passedAt at hu
      cases hp : (reset g net).memories.get? p with
      | none => rw [hp] at hu; cases hu
      | some m =>
        rw [hp] at hu
        obtain ⟨n, -, rfl⟩ := Option.map_eq_some_iff.1 ((Table.get?_mapValues g.nodes _ p).symm.trans hp)
        cases hop : n.operator <;> rw [hop] at hu <;> cases hu
  · intro p n c hn hc
    unfold weightAt
    rw [reset_memory hn, hc]
    rfl

theorem new_spec (g : Graph kind) (limits : Limits) (order : TupleStore → HashOrder) :
    Sourced g (fun _ _ => none) (new g limits order) ∧
      ∀ {p n c}, g.nodes.get? p = some n → n.operator = .constraint c →
        (new g limits order).weightAt p = some c.weight :=
  reset_spec fun _ h => (nomatch h)

/-! ## Flushing -/

/-- A flush changes nothing that the sources show. -/
theorem Sourced.flushed {s : Traced kind} (hg : g.WellFormed) (h : Sourced g shown net)
    (hflushed : Flushed g net K s) : Sourced g shown s.net := by
  have hopens : ∀ {p n}, g.nodes.get? p = some n → n.operator.IsSource →
      s.net.agenda.openAt p = net.agenda.openAt p := by
    intro p n hn hop
    refine hflushed.opens p fun q l hl => hg.unlinked hn ?_ hl
    obtain ⟨type, includeUnassigned, visibility, hsource⟩ := hop
    rw [hsource]
    rfl
  refine ⟨⟨K, hflushed.consistent⟩, h.source, fun hn hop => ?_, fun he => ?_,
    fun ht hs => absurd (hflushed.atRest.settled ht) hs⟩
  · rw [hopens hn hop]
    exact h.listing hn hop
  · obtain ⟨n, hn, hop⟩ := h.source he
    rw [hopens hn hop]
    exact h.fact_eq he

/-! ## Weights -/

/-- A network stays consistent when a memory gives way to another valid one. -/
theorem Consistent.setMemory (h : Consistent g K net) (hn : g.nodes.get? p = some n)
    (hm : net.memories.get? p = some m)
    (hvalid : m'.Valid n.operator (K.view { net } p) (net.agenda.openAt p))
    (hpassed : m'.passed = m.passed) :
    Consistent g K { net with memories := net.memories.insert p m' } := by
  have hsame : ∀ q, ({ net with memories := net.memories.insert p m' } : Network kind).passedAt q
      = net.passedAt q := by
    intro q
    unfold passedAt
    rw [Table.get?_insert]
    split
    · next he => subst he; rw [hm]; simp [hpassed]
    · rfl
  constructor
  · refine ⟨h.coherent.sound, h.coherent.registered, fun {q nq} hq => ?_, h.coherent.feeds⟩
    by_cases hpq : p = q
    · subst hpq
      rw [hn] at hq
      cases hq
      exact ⟨m', m', by rw [Table.get?_insert, if_pos rfl], by rw [Table.get?_insert, if_pos rfl],
        hvalid, .start hvalid fun _ _ hd => (nomatch hd)⟩
    · obtain ⟨mq, -, hmq, -, hvalidq, -⟩ := h.coherent.memory hq
      exact ⟨mq, mq, by rw [Table.get?_insert, if_neg hpq, hmq],
        by rw [Table.get?_insert, if_neg hpq, hmq], hvalidq,
        .start hvalidq fun _ _ hd => (nomatch hd)⟩
  · intro q l u hl
    obtain ⟨hheld, hsynced⟩ := h.inStep hl
    exact ⟨hheld.trans (or_congr Iff.rfl (by rw [hsame])), hsynced⟩

/-- A constraint has a ledger. -/
theorem Consistent.ledger (h : Consistent g K net) (hn : g.nodes.get? p = some n)
    (hc : n.operator = .constraint c) : ∃ l, net.memories.get? p = some (.constraint l) ∧
      net.ledger? p = some l ∧ l.Valid c (K.view { net } p) := by
  obtain ⟨m, -, hm, -, hvalid, -⟩ := h.coherent.memory hn
  rw [hc] at hvalid
  cases m <;> try exact hvalid.elim
  next l => exact ⟨l, hm, by simp [ledger?, hm, NodeMemory.ledger?], hvalid⟩

/-- Putting another weight in force changes that weight and nothing else that can be seen. -/
theorem setWeight_spec (hE : Error.Tolerates E) (h : Sourced g shown net)
    (hn : g.nodes.get? p = some n) (hc : n.operator = .constraint c) :
    Action.Ensures E (setWeight g p weight) net fun _ net' => Sourced g shown net' ∧
      ∀ q, net'.weightAt q = if p = q then some weight else net.weightAt q := by
  obtain ⟨K, hK⟩ := h.consistent
  obtain ⟨l, hm, hl, hvalid⟩ := hK.ledger hn hc
  have hat : g.constraintAt p = .ok c := Graph.constraintAt_eq_ok.2 ⟨n, hn, hc⟩
  unfold setWeight
  rw [Action.ensures_bind, Action.ensures_lift_of_ok hat, Action.ensures_bind, Action.ensures_get, hl]
  refine Action.ensures_within.2 ((Ledger.setWeight_spec hvalid weight _ hE.overflow).mono ?_)
  rintro _ l' ⟨hweight, hvalid'⟩
  refine ⟨⟨⟨K, ?_⟩, h.source, h.listing, h.fact_eq, h.waiting⟩, fun q => ?_⟩
  · exact hK.setMemory hn hm (by rw [hc]; exact hvalid') rfl
  · unfold weightAt
    rw [Table.get?_insert]
    split
    · simp [NodeMemory.weight?, NodeMemory.ledger?, hweight]
    · rfl

end Network

end ConstraintStreams
