import ConstraintStreams.Proofs.Graph.Markers
import ConstraintStreams.Proofs.Network.Moments
import ConstraintStreams.Proofs.Network.Sizing
import ConstraintStreams.Proofs.Session.Holding
import ConstraintStreams.Proofs.Session.Settling

/-!
# Every tuple has the arity of its node

Whatever calls were made on a session, and whichever way they ended, every tuple carries as many facts
as its node says, and that is what the type of the stream says that was declared with the node. What a
mapper answers is all that could differ: a flush fails where it does.
-/

namespace ConstraintStreams

open ConstraintStreams.Action (Ends Keeps)

variable {kind : ScoreKind}

namespace Session

variable {g : Graph kind} {s : Session kind} {held : TupleId → Prop} {α : Type}

/-! ## The tuples of the facts -/

/-- A fact has the tuple at some source. -/
def Lists (facts : Table Fact.Key SourceFact) (u : TupleId) : Prop :=
  ∃ entry ∈ facts.values, ∃ p, (p, some u) ∈ entry.tuples

/-- The nodes have tuples of one fact, and the tuples at them are held. -/
def Placed (g : Graph kind) (held : TupleId → Prop) (tuples : List (NodeId × Option TupleId)) : Prop :=
  ∀ e ∈ tuples, g.arityOf? e.1 = some 1 ∧ ∀ u, e.2 = some u → held u

theorem Placed.mono {held' : TupleId → Prop} {tuples : List (NodeId × Option TupleId)}
    (h : Placed g held tuples) (hle : ∀ u, held u → held' u) : Placed g held' tuples :=
  fun e he => ⟨(h e he).1, fun u hu => hle u ((h e he).2 u hu)⟩

/-- What holds of a session on a graph between calls. What is held are names of tuples of one fact. -/
structure Gauged (g : Graph kind) (held : TupleId → Prop) (s : Session kind) : Prop where
  graph : s.graph = g
  placed : ∀ entry ∈ s.facts.values, Placed g (Lists s.facts) entry.tuples
  network : Network.Gauged g (fun u k => k = 1 ∧ (Lists s.facts u ∨ held u)) s.network

namespace Gauged

/-- A session without facts. -/
theorem of_blank (hgraph : s.graph = g) (hfacts : s.facts = ∅)
    (hnetwork : Network.Gauged g (fun _ _ => False) s.network) : Gauged g (fun _ => False) s := by
  have hnone {entry : SourceFact} (hentry : entry ∈ s.facts.values) : False := by
    rw [hfacts] at hentry
    cases hentry
  refine ⟨hgraph, fun _ hentry => (hnone hentry).elim, hnetwork.hold ?_⟩
  rintro u _ ⟨rfl, ⟨entry, hentry, -⟩ | hu⟩
  · exact (hnone hentry).elim
  · exact hu.elim

theorem poison (s : Session kind) (h : Gauged g held s) : Gauged g held { s with poisoned := true } :=
  ⟨h.graph, h.placed, h.network⟩

/-- Less may be held. -/
theorem forget {held' : TupleId → Prop} (h : Gauged g held' s) (hle : ∀ u, held u → held' u) :
    Gauged g held s :=
  ⟨h.graph, h.placed, h.network.forget fun u _ hu => ⟨hu.1, hu.2.imp_right (hle u)⟩⟩

/-- The facts may be others, with tuples that are held. -/
theorem withFacts (h : Gauged g held s) {facts : Table Fact.Key SourceFact}
    (hfacts : ∀ entry ∈ facts.values, Placed g (fun u => Lists s.facts u ∨ held u) entry.tuples) :
    Gauged g held { s with facts } := by
  refine ⟨h.graph, fun entry hentry e he => ⟨(hfacts entry hentry e he).1, fun u hu => ?_⟩,
    h.network.forget ?_⟩
  · exact ⟨entry, hentry, e.1, hu ▸ he⟩
  · rintro u _ ⟨rfl, ⟨entry, hentry, p, hp⟩ | hu⟩
    · exact ⟨rfl, (hfacts entry hentry _ hp).2 u rfl⟩
    · exact ⟨rfl, .inr hu⟩

/-- Work on the network keeps a session gauged if it does so for networks. -/
theorem keeps_onNetwork {x : NetworkAction kind α}
    (hx : ∀ held' : TupleId → Nat → Prop, (∀ u, held u → held' u 1) → Keeps (Network.Gauged g held') x) :
    Keeps (Gauged g held) (onNetwork x) := by
  intro s h
  exact Action.ends_within.2 ((hx _ (fun u hu => ⟨rfl, .inr hu⟩) _ h.network).mono
    (fun _ _ h' => ⟨h.graph, h.placed, h'⟩) fun _ h' => ⟨h.graph, h.placed, h'⟩)

/-- What is held may be said in another way. -/
theorem keeps_congr {held' : TupleId → Prop} {x : SessionAction kind α} (hiff : ∀ u, held u ↔ held' u)
    (hx : Keeps (Gauged g held') x) : Keeps (Gauged g held) x :=
  fun s h => (hx s (h.forget fun u => (hiff u).2)).mono (fun _ _ h' => h'.forget fun u => (hiff u).1)
    fun _ h' => h'.forget fun u => (hiff u).1

/-- A fact is entered with tuples that are held. -/
theorem keeps_enter {key : Fact.Key} {entry : SourceFact} (hentry : Placed g held entry.tuples) :
    Keeps (Gauged g held)
      (modify fun s => { s with facts := s.facts.insert key entry } : SessionAction kind Unit) := by
  refine .modify fun s h => h.withFacts fun entry' hentry' => ?_
  rcases Table.mem_values_insert hentry' with rfl | hentry'
  · exact hentry.mono fun _ => .inr
  · exact (h.placed entry' hentry').mono fun _ => .inl

/-- What the facts list when they are read is held from then on. -/
theorem keeps_get_bind {f : Session kind → SessionAction kind α}
    (hf : ∀ s, (∀ entry ∈ s.facts.values, Placed g (Lists s.facts) entry.tuples) → s.graph = g →
      Keeps (Gauged g fun u => Lists s.facts u ∨ held u) (f s)) :
    Keeps (Gauged g held) (do let s ← get; f s) := by
  intro s h
  have hheld : Gauged g (fun u => Lists s.facts u ∨ held u) s :=
    ⟨h.graph, h.placed, h.network.forget fun u _ hu => ⟨hu.1, hu.2.elim .inl id⟩⟩
  exact (hf s h.placed h.graph s hheld).mono (fun _ _ h' => h'.forget fun _ => .inr)
    fun _ h' => h'.forget fun _ => .inr

/-! ## At the sources -/

/-- A new tuple at a source is held from then on. -/
theorem keeps_insertSource_bind {p : NodeId} {fact : Fact} {f : TupleId → SessionAction kind α}
    (hp : g.arityOf? p = some 1) (hf : ∀ o, Keeps (Gauged g fun u => u = o ∨ held u) (f o)) :
    Keeps (Gauged g held) (do let o ← onNetwork (Network.insertSource p fact); f o) := by
  intro s h
  rw [Action.ends_bind]
  refine Action.ends_within.2 ((h.network.insertSource hp fact).mono (fun o net h' => ?_) fun net h' =>
    ⟨h.graph, h.placed, h'⟩)
  have hnow : Gauged g (fun u => u = o ∨ held u) { s with network := net } := by
    refine ⟨h.graph, h.placed, h'.forget ?_⟩
    rintro u _ ⟨rfl, hu | hu | hu⟩
    · exact .inr ⟨rfl, .inl hu⟩
    · exact .inl ⟨hu, rfl⟩
    · exact .inr ⟨rfl, .inr hu⟩
  exact (hf o _ hnow).mono (fun _ _ h'' => h''.forget fun _ => .inr) fun _ h'' => h''.forget fun _ => .inr

theorem keeps_retractSource (id : TupleId) :
    Keeps (Gauged g held) (onNetwork (Network.retractSource id)) :=
  keeps_onNetwork fun _ _ => Network.Gauged.keeps_retractSource id

/-- The tuple that a fact has at a source afterwards is held from then on. -/
theorem keeps_refreshAt_bind {p : NodeId} {fact : Fact} {tuple : Option TupleId}
    {f : Option TupleId → SessionAction kind α} (hp : g.arityOf? p = some 1)
    (htuple : ∀ u, tuple = some u → held u)
    (hf : ∀ tuple', Keeps (Gauged g fun u => tuple' = some u ∨ held u) (f tuple')) :
    Keeps (Gauged g held) (do let tuple' ← refreshAt fact p tuple; f tuple') := by
  have same {held : TupleId → Prop} {tuple' : Option TupleId} (htuple : ∀ u, tuple' = some u → held u)
      (hf : Keeps (Gauged g fun u => tuple' = some u ∨ held u) (f tuple')) :
      Keeps (Gauged g held) (f tuple') :=
    keeps_congr (fun u => ⟨.inr, fun hu => hu.elim (htuple u) id⟩) hf
  unfold refreshAt
  rw [bind_assoc]
  refine .get_bind fun s _ => ?_
  rw [bind_assoc]
  refine .lift_bind fun visible _ => ?_
  cases tuple with
  | none =>
    cases visible with
    | false => exact same nofun (hf none)
    | true =>
      simp only [bind_assoc, pure_bind]
      exact keeps_insertSource_bind hp fun o => keeps_congr (fun u => by simp [eq_comm]) (hf (some o))
  | some id =>
    cases visible with
    | false =>
      simp only [bind_assoc, pure_bind]
      exact .bind (keeps_retractSource id) fun _ => same nofun (hf none)
    | true =>
      simp only [bind_assoc, pure_bind]
      exact .bind (keeps_onNetwork fun held' hheld =>
        Network.Gauged.keeps_updateSource (hheld id (htuple id rfl)) fact) fun _ =>
          same htuple (hf (some id))

/-- So are the tuples that a new fact gets. -/
theorem keeps_attachAll_bind {nodes : List NodeId} {fact : Fact}
    {f : List (NodeId × Option TupleId) → SessionAction kind α}
    (hnodes : ∀ p ∈ nodes, g.arityOf? p = some 1)
    (hf : ∀ tuples, (∀ e ∈ tuples, g.arityOf? e.1 = some 1) →
      Keeps (Gauged g fun u => (∃ p, (p, some u) ∈ tuples) ∨ held u) (f tuples)) :
    Keeps (Gauged g held) (do let tuples ← nodes.mapM (attachAt fact); f tuples) := by
  induction nodes generalizing held f with
  | nil => exact keeps_congr (fun u => by simp) (hf [] fun _ he => by cases he)
  | cons p rest ih =>
    have hp := hnodes p List.mem_cons_self
    simp only [List.mapM_cons, bind_assoc, pure_bind, attachAt_eq, bind_map_left]
    refine keeps_refreshAt_bind hp nofun fun tuple =>
      ih (fun q hq => hnodes q (List.mem_cons_of_mem p hq)) fun tuples htuples => ?_
    refine keeps_congr (fun u => ?_) (hf ((p, tuple) :: tuples) fun e he => ?_)
    · simp only [List.mem_cons, Prod.mk.injEq]
      constructor
      · rintro (⟨q, hq⟩ | hu | hu)
        · exact .inl ⟨q, .inr hq⟩
        · exact .inl ⟨p, .inl ⟨rfl, hu.symm⟩⟩
        · exact .inr hu
      · rintro (⟨q, ⟨-, hq⟩ | hq⟩ | hu)
        · exact .inr (.inl hq.symm)
        · exact .inl ⟨q, hq⟩
        · exact .inr (.inr hu)
    · rcases List.mem_cons.1 he with rfl | he
      · exact hp
      · exact htuples e he

theorem keeps_attach (hg : g.Measured) (fact : Fact) : Keeps (Gauged g held) (attach fact) := by
  unfold attach
  refine keeps_get_bind fun s _ hgraph => keeps_attachAll_bind (fun p hp => ?_) fun tuples htuples =>
    keeps_enter fun e he => ⟨htuples e he, fun u hu => .inl ⟨e.1, hu ▸ he⟩⟩
  obtain ⟨n, includeUnassigned, visibility, hn, hop⟩ := Graph.mem_sourcesOf.1 (hgraph ▸ hp)
  have hyields := (hg p n hn).yields
  rw [hop] at hyields
  rw [Graph.arityOf?_eq hn, hyields.2]

theorem keeps_refreshTuples {fact old : Fact} {done tuples : List (NodeId × Option TupleId)}
    (hdone : Placed g held done) (htuples : Placed g held tuples) :
    Keeps (Gauged g held) (refreshTuples fact old done tuples) := by
  induction tuples generalizing held done with
  | nil => exact .pure _
  | cons e rest ih =>
    obtain ⟨p, tuple⟩ := e
    have he := htuples (p, tuple) List.mem_cons_self
    have hrest : Placed g held rest := fun e he => htuples e (List.mem_cons_of_mem _ he)
    refine keeps_refreshAt_bind he.1 he.2 fun tuple' => ?_
    have hdone' : Placed g (fun u => tuple' = some u ∨ held u) (done ++ [(p, tuple')]) := by
      intro e' he'
      rcases List.mem_append.1 he' with he' | he'
      · exact hdone.mono (fun _ => .inr) e' he'
      · rw [List.mem_singleton.1 he']
        exact ⟨he.1, fun u hu => .inl hu⟩
    have hrest' : Placed g (fun u => tuple' = some u ∨ held u) rest := hrest.mono fun _ => .inr
    refine .bind (keeps_enter fun e' he' => ?_) fun _ => ih hdone' hrest'
    exact (List.mem_append.1 he').elim (hdone' e') (hrest' e')

theorem keeps_refresh (fact : Fact) : Keeps (Gauged g held) (refresh fact) := by
  refine keeps_get_bind fun s hplaced _ => ?_
  split
  · exact .throw _
  · next entry hentry =>
    have hplaced := hplaced entry (Table.mem_values_of_get? hentry)
    refine .bind (keeps_refreshTuples (fun _ he => by cases he) (hplaced.mono fun _ => .inl)) fun _ =>
      .modify fun s h => h.withFacts fun entry' hentry' => ?_
    rcases Table.mem_values_modify hentry' with ⟨old, hold, rfl⟩ | hentry'
    · exact (h.placed old hold).mono fun _ => .inl
    · exact (h.placed entry' hentry').mono fun _ => .inl

theorem keeps_detach (key : Fact.Key) : Keeps (Gauged g held) (detach key) := by
  refine .get_bind fun s h => ?_
  split
  · exact .pure _
  · refine .bind (.set (h.withFacts fun entry hentry => ?_)) fun _ => .forM keeps_retractSource _
    exact (h.placed entry (Table.mem_values_erase hentry)).mono fun _ => .inl

/-! ## Calls -/

theorem keeps_flush (hg : g.WellFormed) (hmeasured : g.Measured) :
    Keeps (Gauged g held) (flush : SessionAction kind Nat) := by
  refine .bind keeps_checkUsable fun _ => .get_bind fun s h => keeps_guarded poison ?_
  rw [h.graph]
  exact keeps_onNetwork fun _ _ => Network.Gauged.keeps_flush hg hmeasured

theorem keeps_startOver : Keeps (Gauged g fun _ => False) startOver :=
  .modify fun s h => of_blank h.graph rfl (h.graph ▸ Network.Gauged.reset s.graph s.network)

theorem keeps_reweigh : Keeps (Gauged g held) reweigh := by
  refine .get_bind fun s h => keeps_guarded poison ?_
  rw [h.graph]
  exact keeps_onNetwork fun _ _ =>
    .forM (fun e => .lift_bind fun p _ => Network.Gauged.keeps_setWeight p e.2) _

theorem keeps_setWeight (name : ConstraintId) (weight : Score kind) :
    Keeps (Gauged g held) (setWeight name weight) := by
  refine .bind keeps_checkUsable fun _ => .get_bind fun s h => .lift_bind fun p _ => ?_
  rw [h.graph]
  split
  · exact .throw _
  · exact .bind (keeps_onNetwork fun _ _ => Network.Gauged.keeps_setWeight p weight) fun _ =>
      .modify fun _ h => ⟨h.graph, h.placed, h.network⟩

/-- Whichever way a call ends, the session stays gauged. -/
theorem keeps_run (hg : g.WellFormed) (hmeasured : g.Measured) (c : Call kind) :
    Keeps (Gauged g fun _ => False) c.run := by
  have hflush : Keeps (Gauged g fun _ => False) (flush : SessionAction kind Nat) :=
    keeps_flush hg hmeasured
  have hafter : Keeps (Gauged g fun _ => False) (afterChange : SessionAction kind Unit) :=
    keeps_afterChange hflush
  cases c with
  | insert facts =>
    show Keeps _ (Session.insert facts)
    rw [insert_eq]
    refine .bind (.bind keeps_checkUsable fun _ => .get_bind fun _ _ => .lift_bind fun _ _ =>
      .lift_bind fun _ _ => keeps_guarded poison (.forM (keeps_attach hmeasured) _)) fun _ => hafter
  | update facts =>
    show Keeps _ (Session.update facts)
    rw [update_eq]
    refine .bind (.bind keeps_checkUsable fun _ => .get_bind fun _ _ => .lift_bind fun _ _ =>
      keeps_guarded poison (.forM keeps_refresh _)) fun _ => hafter
  | retract keys =>
    show Keeps _ (Session.retract keys)
    rw [retract_eq]
    refine .bind (.bind keeps_checkUsable fun _ => .get_bind fun _ _ => .lift_bind fun _ _ =>
      keeps_guarded poison (.forM keeps_detach _)) fun _ => hafter
  | clear =>
    show Keeps _ clear
    rw [clear_eq]
    exact .bind keeps_checkUsable fun _ => .bind keeps_startOver fun _ => keeps_reweigh
  | setWeight name weight => exact keeps_setWeight name weight
  | _ => exact keeps_computing poison hflush rfl

theorem opened (g : Graph kind) (config : Config) (order : TupleStore → HashOrder) :
    Gauged g (fun _ => False) (new g config order) :=
  of_blank rfl rfl (Network.Gauged.reset g _)

/-- Whatever calls are made, and whichever way they end, the session stays gauged. -/
theorem replay (hg : g.WellFormed) (hmeasured : g.Measured) (h : Gauged g (fun _ => False) s)
    (calls : List (Call kind)) : Gauged g (fun _ => False) (Call.replay calls s).2 :=
  keeps_replay (keeps_run hg hmeasured) h calls

end Gauged

/-! ## Arities -/

/-- A flush in which a mapper answers another number of facts than declared fails, and changes nothing
any more from then on but that the session is poisoned. -/
theorem flush_of_misfit {m : Moment kind} {arity : Nat} {image : Facts} (hgraph : s.graph = g)
    (husable : s.poisoned = false) (hm : m ∈ s.network.moments g) (hmaps : m.Maps g arity image)
    (hmisfit : image.length ≠ arity) :
    flush s = .error (.invalidArity arity image.length)
      { s with network := m.net, poisoned := true } := by
  subst hgraph
  exact flush_error husable (Network.flush_of_fails hm (hmaps.fails hmisfit))

/-- The tuples of a node have as many facts as the node says, between one and four, whatever calls were
made on a session and whichever way they ended. Where a mapper answers another number, the flush fails,
and the network stays as it was when the mapper was asked. The streams that a graph is written with say
how many facts their nodes have. -/
theorem tuples_have_arity {g : Graph kind} (hg : g.Built) :
    (∀ p n, g.nodes.get? p = some n → 1 ≤ n.arity ∧ n.arity ≤ 4) ∧
    (∀ (config : Config) (order : TupleStore → HashOrder) (calls : List (Call kind)),
      let s := (Call.replay calls (.new g config order)).2
      (∀ u t, s.network.agenda.find? u = some t →
        ∃ n, g.nodes.get? t.node = some n ∧ t.facts.length = n.arity) ∧
      (s.poisoned = false → ∀ m ∈ s.network.moments g, ∀ arity image, m.Maps g arity image →
        image.length ≠ arity → flush s = .error (.invalidArity arity image.length)
          { s with network := m.net, poisoned := true })) ∧
    ∀ (b : Blueprint kind) (given : List (Σ n, TupleStream n)), b.Drawn given →
      ∀ n (stream : TupleStream n), ⟨n, stream⟩ ∈ given → ∀ p, stream.node = some p →
        b.arityOf? p = some n ∧ ∀ g', (Blueprint.build b).1 = .ok g' →
          g'.Built ∧ ∀ node, g'.nodes.get? p = some node → node.arity = n := by
  have hmeasured := hg.measured
  refine ⟨fun p n hn => ⟨(hmeasured p n hn).positive, (hmeasured p n hn).bounded⟩,
    fun config order calls => ?_, fun b given hdrawn n stream hgiven p hp => ?_⟩
  · have hgauged := (Gauged.opened g config order).replay hg.wellFormed hmeasured calls
    refine ⟨fun u t ht => ?_, fun husable m hm arity image hmaps hmisfit => ?_⟩
    · obtain ⟨n, hn, harity⟩ := Option.map_eq_some_iff.1 (hgauged.network.sized.facts ht)
      exact ⟨n, hn, harity.symm⟩
    · exact flush_of_misfit hgauged.graph husable hm hmaps hmisfit
  · have harity := hdrawn.marks.2 _ hgiven p hp
    obtain ⟨ds, hds⟩ := hdrawn.eq_declare
    refine ⟨harity, fun g' hbuild => ⟨⟨ds, hds ▸ hbuild⟩, fun node hnode => ?_⟩⟩
    rw [Blueprint.eq_prune_of_build hbuild] at hnode
    exact Option.some.inj ((Blueprint.arityOf?_prune hnode).symm.trans harity)

/-- Facts are mapped to pairs, where one fact each was declared. -/
def mappedToPairs : List (Declaration .simple) :=
  [.forEach (.scalar .bool) false, .map (some ⟨1⟩) ⟨.given 0, fun facts => .ok (facts ++ facts)⟩ 1,
    .charge (some ⟨2⟩) "pairs" (.simple 1) .penalty none]

theorem tuples_have_arity_mappedToPairs : ∃ g : Graph .simple,
    (Blueprint.build (Blueprint.declare mappedToPairs {})).1 = .ok g ∧
      let s := (Call.replay [.insert [.scalar (.bool true)]] (.new g {})).2
      s.poisoned = false ∧ ∃ m, s.network.moments g = [m] ∧
        flush s = .error (.invalidArity 1 2) { s with network := m.net, poisoned := true } := by
  refine ⟨_, rfl, ?_⟩
  refine ⟨rfl, _, rfl, ?_⟩
  exact ((tuples_have_arity ⟨mappedToPairs, rfl⟩).2.1 _ _ _).2 rfl _ (List.mem_singleton.2 rfl) 1
    [.scalar (.bool true), .scalar (.bool true)] ⟨_, _, _, _, rfl, rfl, rfl, rfl, .inl rfl, rfl, rfl⟩
    (by decide)

end Session

end ConstraintStreams
