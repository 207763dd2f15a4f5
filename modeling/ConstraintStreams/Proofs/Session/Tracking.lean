import ConstraintStreams.Proofs.Network.Rest
import ConstraintStreams.Proofs.Session.Reach

/-!
# What failures leave

A call that is refused, or that fails before anything is propagated, may leave tuples behind that no
fact is listed with, and facts whose tuples show another version of them. `Session.Tracked` is what
still holds then: the network is consistent, and the tuples that are listed stand at their sources.
Every call keeps it, whichever way the call ends, unless a flush fails on the way.
-/

namespace ConstraintStreams

namespace Agenda

/-- A tuple that cannot be made leaves nothing behind. -/
theorem create_failed {g : Agenda} {node : NodeId} (facts : Facts) (sources : Sources)
    (hreg : ∃ queue, g.queues.get? node = some queue) :
    Action.Ends (create node facts sources) g (fun _ _ => True) (· = g) := by
  obtain ⟨queue, hq⟩ := hreg
  unfold create
  rw [Action.ends_bind, Action.ends_get, Action.ends_bind, Action.ends_lift]
  refine ⟨?_, fun _ _ => rfl⟩
  rintro ⟨id, tuples⟩ -
  rw [Action.ends_bind, Action.ends_set, Action.ends_bind]
  exact Action.Ensures.ends (E := fun _ => False) (.tryCatch (enqueue_spec hq trivial))
    fun _ _ h _ => h.elim

end Agenda

namespace Network

variable {kind : ScoreKind} {g : Graph kind} {K : Knowledge} {net net' : Network kind} {p q : NodeId}
  {n : Node kind} {id : TupleId} {fact : Fact} {tuple tuple' : Option TupleId}

/-- A tuple of a node that has not been withdrawn. -/
def Stands (net : Network kind) (p : NodeId) (id : TupleId) : Prop :=
  (net.agenda.openAt p id).isSome = true

/-- At a source, a tuple has given way to another one, which did not stand before; either may be
missing, and both may be the same. -/
structure Exchanges (net net' : Network kind) (p : NodeId) (tuple tuple' : Option TupleId) :
    Prop where
  memories : net'.memories = net.memories
  stands : ∀ {q id}, net'.Stands q id ↔
    q = p ∧ tuple' = some id ∨ net.Stands q id ∧ ¬ (q = p ∧ tuple = some id)
  fresh : ∀ {id}, tuple' = some id → tuple = some id ∨ ¬ net.Stands p id

/-- What stands at a source after one of its tuples has changed. -/
theorem stands_of_evolves {agenda : Agenda} (hevolves : Agenda.Evolves p net.agenda agenda)
    {now : Option (Facts × Sources)}
    (hout : ∀ x, agenda.openAt p x = if id = x then now else net.agenda.openAt p x) {x : TupleId} :
    ({ net with agenda } : Network kind).Stands q x ↔
      (if q = p ∧ id = x then now.isSome = true else net.Stands q x) := by
  unfold Stands
  by_cases hq : q = p
  · subst hq
    rw [show _ = _ from hout x]
    by_cases hx : id = x <;> simp [hx]
  · rw [show _ = _ from congrFun (hevolves.openAt_eq hq) x, if_neg fun h => hq h.1]

theorem insertSource_ends (h : Consistent g K net) (hn : g.nodes.get? p = some n)
    (hop : n.operator.IsSource) :
    Action.Ends (insertSource p fact) net
      (fun id net' => (∃ K, Consistent g K net') ∧ Exchanges net net' p none (some id))
      (· = net) := by
  have hreg : ∃ queue, net.agenda.queues.get? p = some queue := by
    obtain ⟨type, includeUnassigned, visibility, hsource⟩ := hop
    exact h.coherent.queue_of_owns hn (by rw [hsource]; rfl)
  refine Action.ends_within.2 (((Agenda.create_spec (E := fun _ => True) [fact] .none
    h.coherent.sound (fun _ _ => trivial) hreg).ends (R := (· = net.agenda)) fun e s' _ hx =>
      (Agenda.create_failed [fact] .none hreg).of_error hx).mono ?_ ?_)
  · rintro id agenda ⟨hsound, hevolves, hfree, hfind⟩
    have hclosed : ¬ net.Stands p id := by
      unfold Stands
      rw [Agenda.openAt_of_none p hfree]
      simp
    refine ⟨⟨K, h.atSource hn hop hsound hevolves⟩, rfl, fun {q x} => ?_, ?_⟩
    · rw [stands_of_evolves hevolves (Agenda.openAt_create hfind)]
      by_cases hx : q = p ∧ id = x
      · simp [hx]
      · rw [if_neg hx]
        simpa using fun hq he => absurd ⟨hq, he⟩ hx
    · rintro x ⟨⟩
      exact .inr hclosed
  · rintro _ rfl
    rfl

theorem updateSource_ends (h : Consistent g K net) (hn : g.nodes.get? p = some n)
    (hop : n.operator.IsSource) (hstands : net.Stands p id) :
    Action.Ends (updateSource id fact) net
      (fun _ net' => (∃ K, Consistent g K net') ∧ Exchanges net net' p (some id) (some id))
      fun _ => False := by
  obtain ⟨⟨old, sources⟩, hopen⟩ := Option.isSome_iff_exists.1 hstands
  refine Action.ends_within.2 (((Agenda.ensures_change (E := fun _ => False) h.coherent.sound hopen
    [fact]).ends fun _ _ he _ => he).mono ?_ fun _ he => he)
  rintro _ agenda ⟨hsound, hevolves, hout⟩
  refine ⟨⟨K, h.atSource hn hop hsound hevolves⟩, rfl, fun {q x} => ?_, fun hx => .inl hx⟩
  rw [stands_of_evolves hevolves hout]
  by_cases hx : q = p ∧ id = x
  · simp [hx]
  · rw [if_neg hx]
    simp [hx]

theorem retractSource_ends (h : Consistent g K net) (hn : g.nodes.get? p = some n)
    (hop : n.operator.IsSource) (hstands : net.Stands p id) :
    Action.Ends (retractSource id) net
      (fun _ net' => (∃ K, Consistent g K net') ∧ Exchanges net net' p (some id) none)
      fun _ => False := by
  obtain ⟨⟨old, sources⟩, hopen⟩ := Option.isSome_iff_exists.1 hstands
  refine Action.ends_within.2 (((Agenda.ensures_retract (E := fun _ => False) h.coherent.sound
    hopen).ends fun _ _ he _ => he).mono ?_ fun _ he => he)
  rintro _ agenda ⟨hsound, hevolves, hout⟩
  refine ⟨⟨K, h.atSource hn hop hsound hevolves⟩, rfl, fun {q x} => ?_, fun hx => by cases hx⟩
  rw [stands_of_evolves hevolves hout]
  by_cases hx : q = p ∧ id = x
  · simp [hx]
  · rw [if_neg hx]
    simp [hx]

end Network

/-- The network is consistent, and the tuples listed for the facts stand at the sources of their
type; no tuple is listed for two facts. -/
structure Tracks {kind : ScoreKind} (g : Graph kind) (facts : Table Fact.Key SourceFact)
    (net : Network kind) : Prop where
  consistent : ∃ K, Network.Consistent g K net
  housed : Network.Housed g net
  keyed : ∀ {k entry}, facts.get? k = some entry → entry.fact.key = k
  listed : ∀ {k entry}, facts.get? k = some entry →
    entry.tuples.map Prod.fst = g.sourcesOf entry.fact.type
  standing : ∀ {k entry p id}, facts.get? k = some entry → (p, some id) ∈ entry.tuples →
    net.Stands p id
  apart : ∀ {k k' entry entry' p id}, facts.get? k = some entry → (p, some id) ∈ entry.tuples →
    facts.get? k' = some entry' → (p, some id) ∈ entry'.tuples → k = k'

namespace Tracks

variable {kind : ScoreKind} {g : Graph kind} {facts facts' : Table Fact.Key SourceFact}
  {net net' : Network kind} {k : Fact.Key} {fact old : Fact} {p : NodeId}
  {tuple tuple' : Option TupleId} {done rest : List (NodeId × Option TupleId)}

theorem blank (h : ∃ K, Network.Consistent g K net) (hhoused : Network.Housed g net) :
    Tracks g ∅ net where
  consistent := h
  housed := hhoused
  keyed h := by cases h
  listed h := by cases h
  standing h := by cases h
  apart h := by cases h

/-- Fewer facts may be listed. -/
theorem fewer (h : Tracks g facts net)
    (hle : ∀ {k entry}, facts'.get? k = some entry → facts.get? k = some entry) :
    Tracks g facts' net where
  consistent := h.consistent
  housed := h.housed
  keyed he := h.keyed (hle he)
  listed he := h.listed (hle he)
  standing he := h.standing (hle he)
  apart he hm he' := h.apart (hle he) hm (hle he')

/-- A new fact may be listed without tuples. -/
theorem enter (h : Tracks g facts net) :
    Tracks g (facts.insert fact.key ⟨fact, (g.sourcesOf fact.type).map (·, none)⟩) net := by
  have hget := facts.get?_insert fact.key (a := ⟨fact, (g.sourcesOf fact.type).map (·, none)⟩)
  have hnone : ∀ {p id}, (p, some id) ∉
      (g.sourcesOf fact.type).map ((·, none) : NodeId → NodeId × Option TupleId) := by
    intro p id hm
    obtain ⟨q, -, he⟩ := List.mem_map.1 hm
    cases he
  refine ⟨h.consistent, h.housed, fun {k entry} he => ?_, fun {k entry} he => ?_,
    fun {k entry p id} he hm => ?_, fun {k k' entry entry' p id} he hm he' hm' => ?_⟩
  · rw [hget] at he
    split at he
    · next hk => cases he; exact hk
    · exact h.keyed he
  · rw [hget] at he
    split at he
    · cases he
      rw [List.map_map]
      exact List.map_id _
    · exact h.listed he
  · rw [hget] at he
    split at he
    · cases he; exact absurd hm hnone
    · exact h.standing he hm
  · rw [hget] at he he'
    split at he
    · cases he; exact absurd hm hnone
    · split at he'
      · cases he'; exact absurd hm' hnone
      · exact h.apart he hm he' hm'

/-- A listed tuple has given way to another one at its source. -/
theorem exchange (h : Tracks g facts net) (hentry : facts.get? k = some ⟨old, done ++ (p, tuple) :: rest⟩)
    (hK : ∃ K, Network.Consistent g K net') (hx : net.Exchanges net' p tuple tuple')
    (hfacts : ∀ k', facts'.get? k' =
      if k = k' then some ⟨old, done ++ (p, tuple') :: rest⟩ else facts.get? k') :
    Tracks g facts' net' := by
  have hnodup : ((done ++ (p, tuple) :: rest).map Prod.fst).Nodup := by
    rw [h.listed hentry]
    exact g.sourcesOf_nodup _
  -- The other tuples of the fact are at other sources.
  have hother : ∀ {q id}, (q, some id) ∈ done ++ (p, tuple') :: rest → ¬ (q = p ∧ tuple' = some id) →
      q ≠ p ∧ (q, some id) ∈ done ++ (p, tuple) :: rest := by
    intro q id hm hne
    have hm' : (q, some id) ∈ done ∨ (q, some id) ∈ rest := by
      rcases List.mem_append.1 hm with hm | hm
      · exact .inl hm
      · rcases List.mem_cons.1 hm with he | hm
        · cases he; exact absurd ⟨rfl, rfl⟩ hne
        · exact .inr hm
    rw [List.map_append, List.map_cons, List.nodup_middle, List.nodup_cons, ← List.map_append] at hnodup
    refine ⟨?_, List.mem_append.2 (hm'.imp_right (List.mem_cons_of_mem _))⟩
    rintro rfl
    exact hnodup.1 (List.mem_map.2 ⟨_, List.mem_append.2 hm', rfl⟩)
  -- Tuples of other facts stay as they are.
  have hforeign : ∀ {k' entry q id}, k ≠ k' → facts.get? k' = some entry →
      (q, some id) ∈ entry.tuples → ¬ (q = p ∧ tuple = some id) := by
    rintro k' entry q id hk he hm ⟨rfl, rfl⟩
    exact hk (h.apart hentry (List.mem_append_right _ List.mem_cons_self) he hm)
  have hnew : ∀ {k' entry id}, k ≠ k' → facts.get? k' = some entry →
      (p, some id) ∈ entry.tuples → tuple' ≠ some id := by
    intro k' entry id hk he hm ht
    rcases hx.fresh ht with ht | hstands
    · exact hforeign hk he hm ⟨rfl, ht⟩
    · exact hstands (h.standing he hm)
  have hcross : ∀ {k' entry' q id}, k ≠ k' → (q, some id) ∈ done ++ (p, tuple') :: rest →
      facts.get? k' = some entry' → (q, some id) ∉ entry'.tuples := by
    intro k' entry' q id hk hm he' hm'
    by_cases hq : q = p ∧ tuple' = some id
    · obtain ⟨rfl, ht⟩ := hq
      exact hnew hk he' hm' ht
    · exact hk (h.apart hentry (hother hm hq).2 he' hm')
  refine ⟨hK, fun q m hm => h.housed q m (hx.memories ▸ hm), fun {k' entry} he => ?_,
    fun {k' entry} he => ?_, fun {k' entry q id} he hm => ?_,
    fun {k₁ k₂ entry entry' q id} he hm he' hm' => ?_⟩
  · rw [hfacts] at he
    split at he
    · next hk => cases he; exact (show old.key = k from h.keyed hentry).trans hk
    · exact h.keyed he
  · rw [hfacts] at he
    split at he
    · cases he
      have hlisted := h.listed hentry
      simpa using hlisted
    · exact h.listed he
  · rw [hx.stands]
    rw [hfacts] at he
    split at he
    · cases he
      by_cases hq : q = p ∧ tuple' = some id
      · exact .inl hq
      · obtain ⟨hne, hold⟩ := hother hm hq
        exact .inr ⟨h.standing hentry hold, fun hq => hne hq.1⟩
    · next hk => exact .inr ⟨h.standing he hm, hforeign hk he hm⟩
  · rw [hfacts] at he he'
    split at he
    · next hk =>
      subst hk
      cases he
      split at he'
      · assumption
      · next hk' => exact absurd hm' (hcross hk' hm he')
    · next hk =>
      split at he'
      · next hk' =>
        subst hk'
        cases he'
        exact absurd hm (hcross hk hm' he)
      · exact h.apart he hm he' hm'

/-- A flush moves no tuple of a source. -/
theorem flushed (hg : g.WellFormed) (h : Tracks g facts net) {count : Nat}
    (hflush : Network.flush g net = .ok count net') :
    Tracks g facts net' ∧ Network.AtRest g net' := by
  obtain ⟨K, hK⟩ := h.consistent
  have hflushed := Traced.ensures_flush (s := { net })
    (Q := fun _ net' => ∃ s' : Traced kind, s'.net = net' ∧ ∃ K', Network.Flushed g net K' s')
    ((Network.flush_spec hg (.any g) (Error.Admits.any.toTolerates) hK).mono
      fun _ s' h' => ⟨s', rfl, h'⟩)
  obtain ⟨s', rfl, K', h'⟩ := hflushed.of_ok hflush
  have hhoused : Network.Housed g s'.net :=
    (Network.keepsHoused_flush g net h.housed).of_ok hflush
  refine ⟨⟨⟨K', h'.consistent⟩, hhoused, h.keyed, h.listed, fun {k entry p id} he hm => ?_,
    h.apart⟩, h'.atRest⟩
  have hp : p ∈ g.sourcesOf entry.fact.type := by
    rw [← h.listed he]
    exact List.mem_map.2 ⟨_, hm, rfl⟩
  obtain ⟨n, includeUnassigned, visibility, hn, hop⟩ := Graph.mem_sourcesOf.1 hp
  unfold Network.Stands
  rw [h'.opens p fun q l hl => hg.unlinked hn (by rw [hop]; rfl) hl]
  exact h.standing he hm

end Tracks

namespace Session

variable {kind : ScoreKind} {g : Graph kind} {s : Session kind} {fact old : Fact} {k : Fact.Key}
  {p : NodeId} {tuple : Option TupleId} {α : Type}

/-- What is listed stands in the network. -/
structure Tracked (g : Graph kind) (s : Session kind) : Prop where
  graph : s.graph = g
  tracks : Tracks g s.facts s.network

/-- A source is brought up to date with a fact, or nothing happens. -/
theorem refreshAt_ends (hgraph : s.graph = g) (hK : ∃ K, Network.Consistent g K s.network)
    (hp : p ∈ g.sourcesOf fact.type) (hold : ∀ id, tuple = some id → s.network.Stands p id) :
    Action.Ends (refreshAt fact p tuple) s
      (fun tuple' s' => ∃ net, s' = { s with network := net } ∧
        (∃ K, Network.Consistent g K net) ∧ s.network.Exchanges net p tuple tuple')
      (· = s) := by
  subst hgraph
  obtain ⟨K, hK⟩ := hK
  obtain ⟨n, includeUnassigned, visibility, hn, hop⟩ := Graph.mem_sourcesOf.1 hp
  have hsource : n.operator.IsSource := ⟨_, _, _, hop⟩
  unfold refreshAt
  rw [Action.ends_bind, Action.ends_get, Action.ends_bind, Action.ends_lift]
  refine ⟨fun visible _ => ?_, fun _ _ => rfl⟩
  cases tuple with
  | some id =>
    cases visible with
    | true =>
      rw [Action.ends_bind]
      refine Action.ends_within.2 ((Network.updateSource_ends hK hn hsource (hold id rfl)).mono ?_
        fun _ h => h.elim)
      exact fun _ net h => ⟨net, rfl, h⟩
    | false =>
      rw [Action.ends_bind]
      refine Action.ends_within.2 ((Network.retractSource_ends hK hn hsource (hold id rfl)).mono ?_
        fun _ h => h.elim)
      exact fun _ net h => ⟨net, rfl, h⟩
  | none =>
    cases visible with
    | true =>
      rw [Action.ends_bind]
      refine Action.ends_within.2 ((Network.insertSource_ends hK hn hsource).mono ?_ ?_)
      · exact fun id net h => ⟨net, rfl, h⟩
      · rintro _ rfl
        rfl
    | false =>
      refine ⟨s.network, rfl, ⟨K, hK⟩, rfl, fun {q id} => by simp, fun h => .inl h⟩

/-- The sources of a new fact are attached one by one. Up to a failure, it is as if the fact were
listed with the tuples made so far. -/
theorem attachAll_ends {facts : Table Fact.Key SourceFact} {nodes : List NodeId}
    (done : List (NodeId × Option TupleId)) (hgraph : s.graph = g)
    (hentry : facts.get? k = some ⟨fact, done ++ nodes.map (·, none)⟩)
    (h : Tracks g facts s.network) :
    Action.Ends (nodes.mapM (attachAt fact)) s
      (fun tuples s' => ∃ net facts', s' = { s with network := net } ∧ Tracks g facts' net ∧
        ∀ k', facts'.get? k' = if k = k' then some ⟨fact, done ++ tuples⟩ else facts.get? k')
      (fun s' => ∃ net facts', s' = { s with network := net } ∧ Tracks g facts' net ∧
        ∀ k', k ≠ k' → facts'.get? k' = facts.get? k') := by
  induction nodes generalizing s facts done with
  | nil =>
    refine ⟨s.network, facts, rfl, h, fun k' => ?_⟩
    split
    · next hk => rw [← hk, hentry]; rfl
    · rfl
  | cons p rest ih =>
    have hp : p ∈ g.sourcesOf fact.type := by
      rw [← h.listed hentry]
      simp
    rw [List.mapM_cons, Action.ends_bind, attachAt_eq, Action.ends_map]
    refine (refreshAt_ends hgraph h.consistent hp (by rintro _ ⟨⟩)).mono ?_ ?_
    · rintro tuple _ ⟨net, rfl, hK, hx⟩
      have hentry₁ := facts.get?_insert k (a := ⟨fact, done ++ (p, tuple) :: rest.map (·, none)⟩)
      have h₁ := h.exchange hentry hK hx hentry₁
      rw [Action.ends_bind]
      refine (ih (s := { s with network := net }) (done ++ [(p, tuple)]) hgraph ?_ h₁).mono ?_ ?_
      · rw [hentry₁, if_pos rfl, List.append_assoc]
        rfl
      · rintro tuples _ ⟨net₂, facts₂, rfl, h₂, hfacts₂⟩
        refine ⟨net₂, facts₂, rfl, h₂, fun k' => ?_⟩
        rw [hfacts₂, hentry₁]
        split
        · rw [List.append_assoc]
          rfl
        · rfl
      · rintro _ ⟨net₂, facts₂, rfl, h₂, hfacts₂⟩
        refine ⟨net₂, facts₂, rfl, h₂, fun k' hk => ?_⟩
        rw [hfacts₂ k' hk, hentry₁, if_neg hk]
    · rintro _ rfl
      exact ⟨_, facts, rfl, h, fun _ _ => rfl⟩

theorem attach_ends (h : Tracked g s) (hnew : s.facts.get? fact.key = none) :
    Action.Ends (attach fact) s
      (fun _ s' => Tracked g s' ∧
        ∀ k, (s'.facts.get? k).isSome = true ↔ fact.key = k ∨ (s.facts.get? k).isSome = true)
      (Tracked g) := by
  unfold attach
  rw [Action.ends_bind, Action.ends_get, Action.ends_bind, h.graph]
  have hentry := s.facts.get?_insert fact.key
    (a := ⟨fact, (g.sourcesOf fact.type).map (·, none)⟩)
  refine (attachAll_ends [] h.graph (by rw [hentry, if_pos rfl]; rfl) h.tracks.enter).mono
    ?_ ?_
  · rintro tuples _ ⟨net, facts', rfl, h', hfacts'⟩
    rw [Action.ends_modify]
    refine ⟨⟨h.graph, h'.fewer fun {k entry} he => ?_⟩, fun k => ?_⟩
    · rw [hfacts', hentry]
      rw [Table.get?_insert] at he
      split
      · next hk => rwa [if_pos hk] at he
      · next hk => rwa [if_neg hk] at he
    · rw [show _ = _ from Table.get?_insert s.facts fact.key k _]
      by_cases hk : fact.key = k <;> simp [hk]
  · rintro _ ⟨net, facts', rfl, h', hfacts'⟩
    refine ⟨h.graph, h'.fewer fun {k entry} he => ?_⟩
    have hk : fact.key ≠ k := by
      rintro rfl
      rw [show _ = _ from he] at hnew
      cases hnew
    rw [hfacts' k hk, hentry, if_neg hk]
    exact he

/-- However far a fact was brought up to date, its tuples are those that are noted. -/
theorem refreshTuples_ends (done : List (NodeId × Option TupleId))
    {rest : List (NodeId × Option TupleId)} (h : Tracked g s)
    (hkey : fact.key = k) (hentry : s.facts.get? k = some ⟨old, done ++ rest⟩) :
    Action.Ends (refreshTuples fact old done rest) s (fun _ => Tracked g) (Tracked g) := by
  induction rest generalizing s done with
  | nil => exact h
  | cons e rest ih =>
    obtain ⟨p, tuple⟩ := e
    have hmem : (p, tuple) ∈ done ++ (p, tuple) :: rest :=
      List.mem_append_right _ List.mem_cons_self
    have hp : p ∈ g.sourcesOf fact.type := by
      rw [type_eq_of_key hkey (h.tracks.keyed hentry), ← h.tracks.listed hentry]
      exact List.mem_map.2 ⟨_, hmem, rfl⟩
    unfold refreshTuples
    rw [Action.ends_bind]
    refine (refreshAt_ends h.graph h.tracks.consistent hp fun id hid =>
      h.tracks.standing hentry (hid ▸ hmem)).mono ?_ ?_
    · rintro tuple' _ ⟨net, rfl, hK, hx⟩
      rw [Action.ends_bind, Action.ends_modify, hkey]
      have hfacts := s.facts.get?_insert k (a := ⟨old, (done ++ [(p, tuple')]) ++ rest⟩)
      have happend : (done ++ [(p, tuple')]) ++ rest = done ++ (p, tuple') :: rest := by simp
      refine ih (s := { s with
        network := net, facts := s.facts.insert k ⟨old, (done ++ [(p, tuple')]) ++ rest⟩ }) _
        ⟨h.graph, h.tracks.exchange hentry hK hx fun k' => ?_⟩ ?_
      · rw [hfacts, happend]
      · rw [hfacts, if_pos rfl]
    · rintro _ rfl
      exact h

theorem refresh_ends (h : Tracked g s) :
    Action.Ends (refresh fact) s (fun _ => Tracked g) (Tracked g) := by
  unfold refresh
  rw [Action.ends_bind, Action.ends_get]
  split
  · exact h
  · next entry he =>
    rw [Action.ends_bind]
    refine (refreshTuples_ends [] h rfl he).mono (fun _ s' h' => ?_) fun _ => id
    rw [Action.ends_modify]
    have hget : ∀ {k now}, (s'.facts.modify fact.key ({ · with fact })).get? k = some now →
        ∃ entry, s'.facts.get? k = some entry ∧ now.tuples = entry.tuples ∧
          now.fact.key = entry.fact.key := by
      intro k now hnow
      rw [Table.get?_modify] at hnow
      split at hnow
      · next hk =>
        obtain ⟨entry, hentry, rfl⟩ := Option.map_eq_some_iff.1 hnow
        exact ⟨entry, hk ▸ hentry, rfl, (h'.tracks.keyed hentry).symm⟩
      · exact ⟨now, hnow, rfl, rfl⟩
    refine ⟨h'.graph, h'.tracks.consistent, h'.tracks.housed, fun {k now} hnow => ?_,
      fun {k now} hnow => ?_, fun {k now p id} hnow hm => ?_,
      fun {k k' now now' p id} hnow hm hnow' hm' => ?_⟩
    · obtain ⟨entry, hentry, -, hkey⟩ := hget hnow
      exact hkey.trans (h'.tracks.keyed hentry)
    · obtain ⟨entry, hentry, htuples, hkey⟩ := hget hnow
      rw [htuples, h'.tracks.listed hentry]
      exact congrArg (fun key => g.sourcesOf key.type) hkey.symm
    · obtain ⟨entry, hentry, htuples, -⟩ := hget hnow
      exact h'.tracks.standing hentry (htuples ▸ hm)
    · obtain ⟨entry, hentry, htuples, -⟩ := hget hnow
      obtain ⟨entry', hentry', htuples', -⟩ := hget hnow'
      exact h'.tracks.apart hentry (htuples ▸ hm) hentry' (htuples' ▸ hm')

/-- The tuples of a fact are withdrawn one by one, which never fails. -/
theorem withdrawAll_ends {facts : Table Fact.Key SourceFact}
    (done : List (NodeId × Option TupleId)) {rest : List (NodeId × Option TupleId)}
    (hgraph : s.graph = g)
    (hentry : facts.get? k = some ⟨old, done ++ rest⟩) (h : Tracks g facts s.network) :
    Action.Ends ((rest.filterMap Prod.snd).forM fun id => onNetwork (Network.retractSource id)) s
      (fun _ s' => ∃ net facts', s' = { s with network := net } ∧ Tracks g facts' net ∧
        ∀ k', k ≠ k' → facts'.get? k' = facts.get? k')
      fun _ => False := by
  induction rest generalizing s facts done with
  | nil => exact ⟨s.network, facts, rfl, h, fun _ _ => rfl⟩
  | cons e rest ih =>
    obtain ⟨p, tuple⟩ := e
    cases tuple with
    | none =>
      refine ih (done ++ [(p, none)]) hgraph ?_ h
      rw [hentry]
      simp
    | some id =>
      have hcons : ((p, some id) :: rest).filterMap Prod.snd = id :: rest.filterMap Prod.snd := rfl
      have hforM : (id :: rest.filterMap Prod.snd).forM
          (fun id => (onNetwork (Network.retractSource id) : SessionAction kind Unit))
          = (do
            onNetwork (Network.retractSource id)
            (rest.filterMap Prod.snd).forM fun id => onNetwork (Network.retractSource id)) := rfl
      have hmem : (p, some id) ∈ done ++ (p, some id) :: rest :=
        List.mem_append_right _ List.mem_cons_self
      have hp : p ∈ g.sourcesOf old.type := by
        rw [← h.listed hentry]
        exact List.mem_map.2 ⟨_, hmem, rfl⟩
      obtain ⟨n, includeUnassigned, visibility, hn, hop⟩ := Graph.mem_sourcesOf.1 hp
      obtain ⟨K, hK⟩ := h.consistent
      rw [hcons, hforM, Action.ends_bind]
      refine Action.ends_within.2 ((Network.retractSource_ends hK hn ⟨_, _, _, hop⟩
        (h.standing hentry hmem)).mono ?_ fun _ he => he)
      rintro _ net ⟨hK', hx⟩
      have hentry₁ := facts.get?_insert k (a := ⟨old, done ++ (p, none) :: rest⟩)
      have h₁ := h.exchange hentry hK' hx hentry₁
      refine (ih (s := { s with network := net }) (done ++ [(p, none)]) hgraph ?_ h₁).mono ?_
        fun _ he => he
      · rw [hentry₁, if_pos rfl]
        simp
      · rintro _ _ ⟨net₂, facts₂, rfl, h₂, hfacts₂⟩
        refine ⟨net₂, facts₂, rfl, h₂, fun k' hk => ?_⟩
        rw [hfacts₂ k' hk, hentry₁, if_neg hk]

theorem detach_ends (h : Tracked g s) :
    Action.Ends (detach k) s (fun _ => Tracked g) (Tracked g) := by
  unfold detach
  rw [Action.ends_bind, Action.ends_get]
  split
  · exact h
  · next entry he =>
    rw [Action.ends_bind, Action.ends_set]
    refine (withdrawAll_ends (s := { s with facts := s.facts.erase k }) [] h.graph he
      h.tracks).mono ?_ fun _ hf => hf.elim
    rintro _ _ ⟨net, facts', rfl, h', hfacts'⟩
    refine ⟨h.graph, h'.fewer fun {k' entry'} he' => ?_⟩
    have hget : (s.facts.erase k).get? k' = if k = k' then none else s.facts.get? k' :=
      s.facts.get?_erase k k'
    rw [show _ = _ from hget] at he'
    split at he'
    · cases he'
    · next hk => rw [hfacts' k' hk]; exact he'

end Session

end ConstraintStreams
