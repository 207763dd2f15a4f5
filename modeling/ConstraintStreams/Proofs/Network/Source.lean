import ConstraintStreams.Proofs.Network.Flush

/-!
# Changes at the sources

A session changes a network only at the sources, tuple by tuple. `Shown` is ghost state: which fact is
shown at which source, by which tuple. The changes of a session keep the network consistent, and the
open tuples of the sources those that are shown.
-/

namespace ConstraintStreams

/-- The operator shows facts that come from outside. -/
def Operator.IsSource {kind : ScoreKind} (op : Operator kind) : Prop :=
  ∃ type includeUnassigned visibility, op = .source type includeUnassigned visibility

/-- By the key of a fact and a source: the tuple that shows the fact there, and the fact as shown. -/
abbrev Shown := Fact.Key → NodeId → Option (TupleId × Fact)

namespace Shown

variable {shown : Shown} {k k' : Fact.Key} {p p' : NodeId} {e : Option (TupleId × Fact)}

/-- Something else is shown of one fact at one source. -/
def put (shown : Shown) (k : Fact.Key) (p : NodeId) (e : Option (TupleId × Fact)) : Shown :=
  fun k' p' => if k = k' ∧ p = p' then e else shown k' p'

@[simp] theorem put_self : shown.put k p e k p = e := if_pos ⟨rfl, rfl⟩

theorem put_of_ne (h : ¬ (k = k' ∧ p = p')) : shown.put k p e k' p' = shown k' p' := if_neg h

/-- Showing what is shown already changes nothing. -/
theorem put_eq_self (h : shown k p = e) : shown.put k p e = shown := by
  funext k' p'
  unfold put
  split
  · next he => rw [← he.1, ← he.2, h]
  · rfl

end Shown

namespace Network

variable {kind : ScoreKind} {g : Graph kind} {E : Error → Prop} {K : Knowledge} {net : Network kind}
  {p q : NodeId} {n : Node kind} {shown : Shown} {k : Fact.Key} {id : TupleId} {fact old : Fact}
  {agenda : Agenda}

/-- The network is consistent, its sources show what they are said to show, and nothing else waits to
be propagated. -/
structure Sourced (g : Graph kind) (shown : Shown) (net : Network kind) : Prop where
  consistent : ∃ K, Consistent g K net
  source : ∀ {k p e}, shown k p = some e → ∃ n, g.nodes.get? p = some n ∧ n.operator.IsSource
  listing : ∀ {p n}, g.nodes.get? p = some n → n.operator.IsSource →
    Listing (fun k => (shown k p).map Prod.fst) (net.agenda.openAt p)
  fact_eq : ∀ {k p id fact}, shown k p = some (id, fact) →
    net.agenda.openAt p id = some ([fact], .none)
  waiting : ∀ {u t}, net.agenda.find? u = some t → t.stage ≠ .settled →
    ∃ n, g.nodes.get? t.node = some n ∧ n.operator.IsSource

/-- A network was changed, but not its memories, and every change is still to be propagated. -/
structure Amends (net net' : Network kind) : Prop where
  memories : net'.memories = net.memories
  settled : ∀ {u t}, net'.agenda.find? u = some t → t.stage = .settled → net.agenda.find? u = some t

theorem Amends.refl (net : Network kind) : Amends net net := ⟨rfl, fun ht _ => ht⟩

theorem Amends.trans {net' net'' : Network kind} (h : Amends net net') (h' : Amends net' net'') :
    Amends net net'' :=
  ⟨h'.memories.trans h.memories, fun ht hs => h.settled (h'.settled ht hs) hs⟩

theorem Amends.of_evolves (h : Agenda.Evolves p net.agenda agenda) :
    Amends net { net with agenda } :=
  ⟨rfl, fun ht hs => h.settled_eq ht hs⟩

/-- A network stays consistent when a source changes its tuples. -/
theorem Consistent.atSource (h : Consistent g K net) (hn : g.nodes.get? p = some n)
    (hop : n.operator.IsSource) (hsound : agenda.Sound [])
    (hevolves : Agenda.Evolves p net.agenda agenda) : Consistent g K { net with agenda } := by
  obtain ⟨m, m₀, hm, hm₀, hvalid, hsince⟩ := h.coherent.memory hn
  have hacted : Acted p [] n.operator m₀ (net.agenda.openAt p) (K.view { net } p) m m net
      { net with agenda } := by
    refine ⟨fun q => ?_, hsound, hevolves, ?_, ?_, rfl⟩
    · split
      · next he => rw [← he, hm]
      · rfl
    · obtain ⟨type, includeUnassigned, visibility, hsource⟩ := hop
      rw [hsource] at hvalid ⊢
      cases m <;> trivial
    · obtain ⟨type, includeUnassigned, visibility, hsource⟩ := hop
      rw [hsource]
      trivial
  have hcoherent : Coherent g net [] K { net := { net with agenda } } :=
    h.coherent.act hn hm₀ hacted
      ⟨rfl, fun hf => ⟨hf.1, hevolves.settled hf.2⟩⟩ rfl (fun _ _ _ => ⟨rfl, id⟩)
      (fun _ _ _ => Iff.rfl) fun l u facts _ htold => h.coherent.feeds htold
  refine ⟨hcoherent.restart, fun hl => ?_⟩
  obtain ⟨hheld, hsynced⟩ := h.inStep hl
  exact ⟨hheld.trans (or_congr hevolves.seen_iff Iff.rfl).symm,
    fun hk hs => hsynced hk (hevolves.settled hs)⟩

theorem Sourced.registered (h : Sourced g shown net) (hn : g.nodes.get? p = some n)
    (hop : n.operator.IsSource) : ∃ queue, net.agenda.queues.get? p = some queue := by
  obtain ⟨K, hK⟩ := h.consistent
  obtain ⟨type, includeUnassigned, visibility, hsource⟩ := hop
  exact hK.coherent.queue_of_owns hn (by rw [hsource]; rfl)

/-- One fact is shown otherwise at one source. -/
theorem Sourced.put (h : Sourced g shown net) (hn : g.nodes.get? p = some n)
    (hop : n.operator.IsSource) (hsound : agenda.Sound [])
    (hevolves : Agenda.Evolves p net.agenda agenda) {e : Option (TupleId × Fact)}
    (hlisting : Listing (fun k' => (shown.put k p e k' p).map Prod.fst) (agenda.openAt p))
    (hself : ∀ id fact, e = some (id, fact) → agenda.openAt p id = some ([fact], .none))
    (hother : ∀ k' id fact, k ≠ k' → shown k' p = some (id, fact) →
      agenda.openAt p id = net.agenda.openAt p id) :
    Sourced g (shown.put k p e) { net with agenda } where
  consistent := by
    obtain ⟨K, hK⟩ := h.consistent
    exact ⟨K, hK.atSource hn hop hsound hevolves⟩
  source := by
    intro k' q e' he
    by_cases hk : k = k' ∧ p = q
    · exact ⟨n, hk.2 ▸ hn, hop⟩
    · rw [Shown.put_of_ne hk] at he
      exact h.source he
  listing := by
    intro q nq hq hopq
    by_cases hpq : p = q
    · exact hpq ▸ hlisting
    · have hsame : (fun k' => (shown.put k p e k' q).map Prod.fst)
          = fun k' => (shown k' q).map Prod.fst := by
        funext k'
        rw [Shown.put_of_ne fun he => hpq he.2]
      show Listing _ (agenda.openAt q)
      rw [hsame, hevolves.openAt_eq (Ne.symm hpq)]
      exact h.listing hq hopq
  fact_eq := by
    intro k' q id fact he
    by_cases hk : k = k' ∧ p = q
    · obtain ⟨rfl, rfl⟩ := hk
      rw [Shown.put_self] at he
      exact hself id fact he
    · rw [Shown.put_of_ne hk] at he
      show agenda.openAt q id = _
      by_cases hpq : p = q
      · subst hpq
        rw [hother k' id fact (fun hk' => hk ⟨hk', rfl⟩) he]
        exact h.fact_eq he
      · rw [hevolves.openAt_eq (Ne.symm hpq)]
        exact h.fact_eq he
  waiting := by
    intro u t ht hs
    rcases hevolves.moved_or_eq ht with hnode | ht
    · exact ⟨n, hnode ▸ hn, hop⟩
    · exact h.waiting ht hs

/-- Showing a fact at a source. -/
theorem insertSource_spec (hE : Error.Tolerates E) (h : Sourced g shown net)
    (hn : g.nodes.get? p = some n) (hop : n.operator.IsSource) (hnone : shown k p = none) :
    Action.Ensures E (insertSource p fact) net fun id net' =>
      Sourced g (shown.put k p (some (id, fact))) net' ∧ net.Amends net' := by
  obtain ⟨K, hK⟩ := h.consistent
  refine Action.ensures_within.2 ((Agenda.create_spec [fact] .none hK.coherent.sound hE.limit
    (h.registered hn hop)).mono fun id agenda ⟨hsound, hevolves, hfree, hfind⟩ =>
      ⟨?_, .of_evolves hevolves⟩)
  have hout := Agenda.openAt_create hfind
  have hclosed : net.agenda.openAt p id = none := Agenda.openAt_of_none p hfree
  refine h.put hn hop hsound hevolves ?_ ?_ ?_
  · refine (h.listing hn hop).create (k := k) hclosed (by rw [hnone]; rfl) (fun k' => ?_) hout
    unfold Shown.put
    by_cases hk : k = k' <;> simp [hk]
  · rintro _ _ ⟨⟩
    rw [hout, if_pos rfl]
  · intro k' id' fact' _ he
    rw [hout, if_neg]
    rintro rfl
    rw [h.fact_eq he] at hclosed
    cases hclosed

/-- Showing another version of a fact at a source. -/
theorem updateSource_spec (h : Sourced g shown net) (hold : shown k p = some (id, old)) :
    Action.Ensures E (updateSource id fact) net fun _ net' =>
      Sourced g (shown.put k p (some (id, fact))) net' ∧ net.Amends net' := by
  obtain ⟨K, hK⟩ := h.consistent
  obtain ⟨n, hn, hop⟩ := h.source hold
  refine Action.ensures_within.2 ((Agenda.ensures_change hK.coherent.sound (h.fact_eq hold)
    [fact]).mono fun _ agenda ⟨hsound, hevolves, hout⟩ => ⟨?_, .of_evolves hevolves⟩)
  have hlabel : (shown k p).map Prod.fst = some id := by rw [hold]; rfl
  refine h.put hn hop hsound hevolves ?_ ?_ ?_
  · have hsame : (fun k' => (shown.put k p (some (id, fact)) k' p).map Prod.fst)
        = fun k' => (shown k' p).map Prod.fst := by
      funext k'
      by_cases hk : k = k'
      · subst hk
        rw [Shown.put_self, hlabel]
        rfl
      · rw [Shown.put_of_ne fun he => hk he.1]
    rw [hsame]
    exact (h.listing hn hop).change (k := k) hlabel hout
  · rintro _ _ ⟨⟩
    rw [hout, if_pos rfl]
  · intro k' id' fact' hk he
    rw [hout, if_neg]
    rintro rfl
    have hlabel' : (shown k' p).map Prod.fst = some id := by rw [he]; rfl
    exact hk ((h.listing hn hop).inj hlabel hlabel')

/-- Showing a fact at a source no longer. -/
theorem retractSource_spec (h : Sourced g shown net) (hold : shown k p = some (id, old)) :
    Action.Ensures E (retractSource id) net fun _ net' =>
      Sourced g (shown.put k p none) net' ∧ net.Amends net' := by
  obtain ⟨K, hK⟩ := h.consistent
  obtain ⟨n, hn, hop⟩ := h.source hold
  refine Action.ensures_within.2 ((Agenda.ensures_retract hK.coherent.sound (h.fact_eq hold)).mono
    fun _ agenda ⟨hsound, hevolves, hout⟩ => ⟨?_, .of_evolves hevolves⟩)
  have hlabel : (shown k p).map Prod.fst = some id := by rw [hold]; rfl
  refine h.put hn hop hsound hevolves ?_ (by rintro _ _ ⟨⟩) ?_
  · refine (h.listing hn hop).erase (k := k) hlabel (fun k' => ?_) hout
    by_cases hk : k = k'
    · subst hk
      rw [Shown.put_self, if_pos rfl]
      rfl
    · rw [Shown.put_of_ne fun he => hk he.1, if_neg hk]
  · intro k' id' fact' hk he
    rw [hout, if_neg]
    rintro rfl
    have hlabel' : (shown k' p).map Prod.fst = some id := by rw [he]; rfl
    exact hk ((h.listing hn hop).inj hlabel hlabel')

end Network

end ConstraintStreams
