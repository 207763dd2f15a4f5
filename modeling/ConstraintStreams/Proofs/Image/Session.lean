import ConstraintStreams.Proofs.Image.Network
import ConstraintStreams.Proofs.Session.Emptying

/-!
# The score of some facts

Sessions with the same facts and the same weights have the same score when they are flushed, by
whatever calls they were reached: their sources show the same rows, and so all nodes that do the same
do. A session that takes the facts in anew has versions of its own of them, so facts count as the same
if the sources cannot tell them apart.
-/

namespace ConstraintStreams

variable {kind : ScoreKind}

/-! ## What sources show -/

namespace Network

variable {g g' : Graph kind} {net net' : Network kind} {shown shown' : Shown} {p p' : NodeId}
  {n n' : Node kind} {I : Finset Fact.Key}

/-- At rest, the rows of a source are those of the facts that it shows. -/
theorem Sourced.rows (h : Sourced g shown net) (hrest : AtRest g net) (hn : g.nodes.get? p = some n)
    (hsource : n.operator.IsSource) (hI : ∀ k, k ∈ I ↔ (shown k p).isSome = true) :
    net.rows p = I.val.map fun k => Facts.data (((shown k p).map Prod.snd).toList) := by
  obtain ⟨K, hK⟩ := h.consistent
  have howns : n.operator.ownsTuples = true := by
    obtain ⟨_, _, _, hop⟩ := hsource
    rw [hop]
    rfl
  have hrows := net.rows_shownAt p
  rw [hK.shownAt_owner hrest hn howns] at hrows
  have hlisted := Listing.rows (h.listing hn hsource) fun k => (hI k).trans (by rw [Option.isSome_map])
  refine (hrows.unique hlisted).trans (Multiset.map_congr rfl fun k hk => ?_)
  obtain ⟨⟨id, fact⟩, hshown⟩ := Option.isSome_iff_exists.1 ((hI k).1 hk)
  have hopen := h.fact_eq hshown
  simp [outputUnder, hshown, hopen]

/-- Sources that show facts with the same data show the same rows. -/
theorem Sourced.rows_eq (h : Sourced g shown net) (h' : Sourced g' shown' net')
    (hrest : AtRest g net) (hrest' : AtRest g' net') (hn : g.nodes.get? p = some n)
    (hn' : g'.nodes.get? p' = some n') (hsource : n.operator.IsSource)
    (hsource' : n'.operator.IsSource) (hI : ∀ k, (shown k p).isSome = true → k ∈ I)
    (hshown : ∀ k, (shown k p).map (·.2.data) = (shown' k p').map (·.2.data)) :
    net.rows p = net'.rows p' := by
  have hmem : ∀ k, k ∈ I.filter (fun k => (shown k p).isSome = true) ↔ (shown k p).isSome = true :=
    fun k => Finset.mem_filter.trans (and_iff_right_of_imp (hI k))
  have hsome : ∀ k, (shown k p).isSome = (shown' k p').isSome := fun k => by
    rw [← Option.isSome_map, hshown, Option.isSome_map]
  have hrow : ∀ e : Option (TupleId × Fact), Facts.data ((e.map Prod.snd).toList)
      = (e.map (·.2.data)).toList := fun e => by cases e <;> rfl
  rw [h.rows hrest hn hsource hmem,
    h'.rows hrest' hn' hsource' fun k => (hmem k).trans (by rw [hsome])]
  simp only [hrow, hshown]

end Network

namespace Session

variable {g g' : Graph kind} {R : NodeId → NodeId → Prop} {s s' : Session kind} {p p' : NodeId}
  {n n' : Node kind} {k : Fact.Key} {fact : Fact} {type : FactType} {includeUnassigned : Bool}
  {visibility : Option (Fact → Except Error Bool)}

/-- The keys of the facts of a session. -/
def keys (s : Session kind) : Finset Fact.Key :=
  ⟨Multiset.ofList s.facts.keys, Multiset.coe_nodup.2 s.facts.keys_nodup⟩

/-- Only facts of the session are shown. -/
theorem mem_keys_of_shown (h : (s.shown k p).isSome = true) : k ∈ s.keys := by
  show k ∈ s.facts.keys
  rw [← Table.contains_iff]
  cases hk : s.facts.get? k with
  | none => simp [shown, hk] at h
  | some entry => simp [Table.contains, hk]

/-- A source shows the facts of its type that are visible at it. -/
theorem Holds.shown_iff (h : Holds g s) (hn : g.nodes.get? p = some n)
    (hop : n.operator = .source type includeUnassigned visibility) :
    (∃ id, s.shown k p = some (id, fact)) ↔
      s.fact? k = some fact ∧ fact.type = type ∧ isVisible g p fact = .ok true := by
  unfold shown fact?
  cases he : s.facts.get? k with
  | none => simp
  | some entry =>
    have hnodup : (entry.tuples.map Prod.fst).Nodup := by
      rw [h.listed he]
      exact g.sourcesOf_nodup _
    rw [Option.bind_some, Option.map_some, Option.some.injEq]
    constructor
    · rintro ⟨id, hshown⟩
      obtain ⟨id', hjoin, heq⟩ := Option.map_eq_some_iff.1 hshown
      obtain ⟨rfl, rfl⟩ := Prod.mk.inj heq
      have hmem := (Table.find_eq_some_iff hnodup).1 (Option.join_eq_some_iff.1 hjoin)
      have hsource : p ∈ g.sourcesOf entry.fact.type := by
        rw [← h.listed he]
        exact List.mem_map_of_mem hmem
      obtain ⟨n', _, _, hn', hop'⟩ := Graph.mem_sourcesOf.1 hsource
      cases hn.symm.trans hn'
      cases hop.symm.trans hop'
      exact ⟨rfl, rfl, h.visible he hmem⟩
    · rintro ⟨rfl, rfl, hvisible⟩
      have hsource : p ∈ entry.tuples.map Prod.fst := by
        rw [h.listed he]
        exact Graph.mem_sourcesOf.2 ⟨n, _, _, hn, hop⟩
      obtain ⟨⟨q, tuple⟩, hmem, rfl⟩ := List.mem_map.1 hsource
      have hsome := h.visible he hmem
      rw [hvisible] at hsome
      obtain ⟨id, rfl⟩ := Option.isSome_iff_exists.1 (Except.ok.inj hsome).symm
      exact ⟨id, by rw [(Table.find_eq_some_iff hnodup).2 hmem]; rfl⟩

/-- Whether a fact is visible is up to the operator of the source. -/
theorem isVisible_congr (hn : g.nodes.get? p = some n) (hn' : g'.nodes.get? p' = some n')
    (hop : n'.operator = n.operator) (fact : Fact) : isVisible g p fact = isVisible g' p' fact := by
  simp only [isVisible, Graph.node, hn, hn', bind, Except.bind, hop]

end Session

/-! ## Facts that sources cannot tell apart -/

/-- The sources of a graph cannot tell two facts apart: they have the same data, and where one is
visible, the other is. -/
structure Graph.Confuses (g : Graph kind) (a b : Fact) : Prop where
  data_eq : a.data = b.data
  visible_eq : ∀ p, Session.isVisible g p a = Session.isVisible g p b

/-- The visibility tests of a graph see the data of facts only. -/
def Graph.GatesByData (g : Graph kind) : Prop :=
  ∀ p n type includeUnassigned test, g.nodes.get? p = some n →
    n.operator = .source type includeUnassigned (some test) → ∀ a : Fact, test a.data = test a

/-- Where visibility tests see data only, sources cannot tell versions with the same data apart. -/
theorem Graph.GatesByData.confuses {g : Graph kind} (hgates : g.GatesByData) {a b : Fact}
    (hdata : a.data = b.data) : g.Confuses a b := by
  refine ⟨hdata, fun p => ?_⟩
  unfold Session.isVisible Graph.node
  cases hn : g.nodes.get? p with
  | none => rfl
  | some n =>
    simp only [bind, Except.bind]
    split
    · next type test hop =>
      have htest := hgates p n type false test hn hop
      rw [← htest a, ← htest b, hdata]
    · rfl

theorem Graph.rel_confuses_self (g : Graph kind) (a? : Option Fact) :
    Option.Rel g.Confuses a? a? := by
  cases a? with
  | none => exact .none
  | some a => exact .some ⟨rfl, fun _ => rfl⟩

theorem Graph.GatesByData.rel_confuses {g : Graph kind} (hgates : g.GatesByData) {a? b? : Option Fact}
    (hdata : a?.map Fact.data = b?.map Fact.data) : Option.Rel g.Confuses a? b? := by
  cases a? with
  | none =>
    cases b? with
    | none => exact .none
    | some b => cases hdata
  | some a =>
    cases b? with
    | none => cases hdata
    | some b => exact .some (hgates.confuses (Option.some.inj hdata))

namespace Session

variable {g g' : Graph kind} {R : NodeId → NodeId → Prop} {s s' : Session kind} {p p' : NodeId}
  {n n' : Node kind} {k : Fact.Key} {type : FactType} {includeUnassigned : Bool}
  {visibility : Option (Fact → Except Error Bool)}

/-- The data that a source shows are those of a fact of its type that is visible at it. -/
theorem Holds.shown_data_iff (h : Holds g s) (hn : g.nodes.get? p = some n)
    (hop : n.operator = .source type includeUnassigned visibility) {data : Fact} :
    (s.shown k p).map (·.2.data) = some data ↔
      ∃ fact, s.fact? k = some fact ∧ fact.type = type ∧ isVisible g p fact = .ok true ∧
        fact.data = data := by
  rw [Option.map_eq_some_iff]
  constructor
  · rintro ⟨⟨id, fact⟩, hshown, hdata⟩
    obtain ⟨hfact, htype, hvisible⟩ := (h.shown_iff hn hop).1 ⟨id, hshown⟩
    exact ⟨fact, hfact, htype, hvisible, hdata⟩
  · rintro ⟨fact, hfact, htype, hvisible, hdata⟩
    obtain ⟨id, hshown⟩ := (h.shown_iff hn hop).2 ⟨hfact, htype, hvisible⟩
    exact ⟨(id, fact), hshown, hdata⟩

/-- Sources that do the same show the same data of facts that they cannot tell apart. -/
theorem Holds.shown_congr (h : Holds g s) (h' : Holds g' s')
    (hfacts : ∀ k, Option.Rel g.Confuses (s.fact? k) (s'.fact? k)) (hn : g.nodes.get? p = some n)
    (hn' : g'.nodes.get? p' = some n') (hop : n'.operator = n.operator) (hsource : n.operator.IsSource)
    (k : Fact.Key) : (s.shown k p).map (·.2.data) = (s'.shown k p').map (·.2.data) := by
  obtain ⟨type, includeUnassigned, visibility, hsettings⟩ := hsource
  refine Option.ext fun data => ?_
  rw [h.shown_data_iff hn hsettings, h'.shown_data_iff hn' (hop.trans hsettings)]
  have hrel := hfacts k
  generalize s.fact? k = a?, s'.fact? k = b? at hrel
  cases hrel with
  | none => simp
  | @some a b hsame =>
    have htype : a.type = b.type := by rw [← a.type_data, hsame.data_eq, b.type_data]
    simp only [Option.some.injEq, exists_eq_left', ← isVisible_congr hn hn' hop, ← hsame.visible_eq p,
      ← htype, hsame.data_eq]

/-! ## Sessions with the same facts -/

/-- The networks of flushed sessions are comparable if their sources cannot tell their facts apart. -/
theorem Holds.comparable (h : Holds g s) (h' : Holds g' s') (hg : g.WellFormed) (hg' : g'.WellFormed)
    (hR : g.Mirrors g' R) (hlaw : g.Lawful) (hrest : Network.AtRest g s.network)
    (hrest' : Network.AtRest g' s'.network)
    (hfacts : ∀ k, Option.Rel g.Confuses (s.fact? k) (s'.fact? k))
    (hvalues : Network.DistinctValues g s.network) :
    Network.Comparable g g' R s.network s'.network where
  wellFormed := hg
  wellFormed' := hg'
  mirrors := hR
  lawful := hlaw
  consistent := h.sourced.consistent
  consistent' := h'.sourced.consistent
  atRest := hrest
  atRest' := hrest'
  values := hvalues
  sources := by
    intro p p' n hrel hn hsource
    obtain ⟨n', hn', hop, -⟩ := hR p p' n hrel hn
    exact h.sourced.rows_eq h'.sourced hrest hrest' hn hn' hsource (hop ▸ hsource)
      (fun _ => mem_keys_of_shown) (h.shown_congr h' hfacts hn hn' hop hsource)

/-- Related constraints have the same weight in force if the same weights were set. -/
theorem Holds.weightAt_eq (h : Holds g s) (h' : Holds g' s') (hg : g.WellFormed)
    (hg' : g'.WellFormed) (hR : g.Mirrors g' R)
    (hweights : ∀ name, s.weights.get? name = s'.weights.get? name) (hrel : R p p')
    (hp : p ∈ g.constraints) (hp' : p' ∈ g'.constraints) :
    s.network.weightAt p = s'.network.weightAt p' := by
  obtain ⟨name, hname⟩ := hg.named p hp
  obtain ⟨name', hname'⟩ := hg'.named p' hp'
  obtain ⟨-, n, c, hn, hc, rfl⟩ := hg.names hname
  obtain ⟨-, n', c', hn', hc', rfl⟩ := hg'.names hname'
  obtain ⟨n'', hn'', hop, -⟩ := hR p p' n hrel hn
  cases hn'.symm.trans hn''
  cases hc'.symm.trans (hop.trans hc)
  rw [h.weighed hname hn hc, h'.weighed hname' hn' hc', hweights]

variable {t t' : Session kind} {score score' : Score kind}

/-- Flushed sessions with facts that sources cannot tell apart and the same weights have the same
score. -/
theorem Holds.score_eq (h : Holds g s) (h' : Holds g t) (hg : g.WellFormed) (hlaw : g.Lawful)
    (hrest : Network.AtRest g s.network) (hrest' : Network.AtRest g t.network)
    (hfacts : ∀ k, Option.Rel g.Confuses (s.fact? k) (t.fact? k))
    (hweights : ∀ name, s.weights.get? name = t.weights.get? name)
    (hvalues : Network.DistinctValues g s.network) : s.network.score g = t.network.score g := by
  have hcomparable := h.comparable h' hg hg g.mirrors_refl hlaw hrest hrest' hfacts hvalues
  refine hcomparable.score_eq (List.forall₂_same.2 fun p hp => ⟨rfl, ?_⟩)
  exact h.weightAt_eq h' hg hg g.mirrors_refl hweights rfl hp hp

/-- What comes to the distinct nodes of a network are scalars, so they are values. -/
theorem distinctValues_of_scalars {net : Network kind} (h : ∀ e ∈ g.nodes.entries,
    e.2.operator.isDistinct = true → ∀ r ∈ net.inputs e.2.parents .only, ∀ a ∈ r,
      a.isScalar = true) : Network.DistinctValues g net := by
  intro p n hn hop r hr a ha
  cases a with
  | scalar s => exact Fact.isValue_scalar s
  | _ => cases h (p, n) (Table.get?_eq_some_iff.1 hn) (by rw [hop]; rfl) r hr _ ha

/-- Shifts, which have the number of a worker once they are assigned. -/
def shift : EntityType := ⟨"Shift", "S", [("worker", .none)]⟩

/-- A version of a shift. -/
def shiftOf (id : Int64) (version : Nat) (worker : Value) : Fact :=
  .entity ⟨shift, id, .given version, [("worker", worker)]⟩

/-- The worker of a shift. -/
def workerOf : Fact → Value
  | .entity e => e.read "worker"
  | _ => .none

theorem workerOf_data (a : Fact) : workerOf a.data = workerOf a := by cases a <;> rfl

/-- The worker of the first of some shifts. -/
def firstWorker : PropertyOf := fun facts => .ok (.value ((facts.head?.map workerOf).getD .none))

/-- A worker, as a fact. -/
def workerFact (a : Fact) : Fact :=
  match workerOf a with
  | .int n => .int64 n
  | _ => .int64 0

/-- Assigned shifts of one worker are charged in pairs, and every worker once. -/
def rosters : List (Declaration .simple) :=
  [.visibility (.entity shift) fun a => .ok (decide (workerOf a ≠ .none)),
    .forEach (.entity shift) false,
    .join (some ⟨1⟩) (some ⟨1⟩) [.indexed ⟨.given 0, firstWorker⟩ ⟨.given 0, firstWorker⟩],
    .charge (some ⟨2⟩) "pairs" (.simple 1) .penalty none,
    .map (some ⟨1⟩) ⟨.given 1, fun facts => .ok (facts.map workerFact)⟩ 1,
    .distinct (some ⟨4⟩), .charge (some ⟨5⟩) "workers" (.simple 1) .penalty none]

/-- The graph of `rosters`. -/
def rosterGraph : Graph .simple := (Blueprint.declare rosters {}).prune

theorem readsData_firstWorker : ReadsData id firstWorker := by
  intro facts
  cases facts with
  | nil => rfl
  | cons a rest => simp [firstWorker, Facts.data, workerOf_data]

theorem readsData_workerFact :
    ReadsData Facts.data fun facts => .ok (facts.map workerFact) := by
  intro facts
  have hworker : ∀ a : Fact, workerFact a.data = workerFact a := fun a => by
    simp only [workerFact, workerOf_data]
  simp [Facts.data, hworker, Function.comp_def]

theorem lawful_rosterGraph : rosterGraph.Lawful := by
  apply Graph.lawful_of_entries
  refine List.forall_mem_cons.2 ⟨trivial, List.forall_mem_cons.2 ⟨?_, List.forall_mem_cons.2 ⟨?_,
    List.forall_mem_cons.2 ⟨readsData_workerFact, List.forall_mem_cons.2 ⟨trivial,
      List.forall_mem_cons.2 ⟨?_, fun _ h => by cases h⟩⟩⟩⟩⟩⟩
  · intro j hj
    rw [List.mem_singleton.1 hj]
    exact ⟨readsData_firstWorker, readsData_firstWorker⟩
  · exact fun f hf => by cases hf
  · exact fun f hf => by cases hf

theorem gatesByData_rosterGraph : rosterGraph.GatesByData := by
  intro p n type includeUnassigned test hn hop a
  have h : ∀ e ∈ rosterGraph.nodes.entries, ∀ type includeUnassigned test,
      e.2.operator = .source type includeUnassigned (some test) → test a.data = test a := by
    refine List.forall_mem_cons.2 ⟨?_, List.forall_mem_cons.2 ⟨?_, List.forall_mem_cons.2 ⟨?_,
      List.forall_mem_cons.2 ⟨?_, List.forall_mem_cons.2 ⟨?_, List.forall_mem_cons.2
        ⟨?_, fun _ h => by cases h⟩⟩⟩⟩⟩⟩
    · intro type includeUnassigned test htest
      cases htest
      simp only [workerOf_data]
    all_goals exact fun _ _ _ htest => by cases htest
  exact h (p, n) (Table.get?_eq_some_iff.1 hn) type includeUnassigned test hop

/-- A shift comes in assigned and another one not yet; workers are given another weight, and then the
second shift goes to the worker of the first. -/
def longSession : Session .simple :=
  (Call.replay [.insert [shiftOf 1 0 (.int 7), shiftOf 2 1 .none], .flush,
    .setWeight ⟨defaultPackage, "workers"⟩ (.simple 5), .update [shiftOf 2 2 (.int 7)]]
    (new rosterGraph {})).2

/-- The weight is set first, and both shifts come in the other way round, in versions of their own. -/
def shortSession : Session .simple :=
  (Call.replay [.setWeight ⟨defaultPackage, "workers"⟩ (.simple 5),
    .insert [shiftOf 2 8 (.int 7), shiftOf 1 9 (.int 7)]] (new rosterGraph {})).2

/-- Four pairs and one worker are charged. -/
theorem longSession_scores : Action.attains calculateScore longSession (fun score s' =>
    score == .simple (-9) && decide (∀ e ∈ rosterGraph.nodes.entries,
      e.2.operator.isDistinct = true → ∀ r ∈ s'.network.inputs e.2.parents .only, ∀ a ∈ r,
        a.isScalar = true)) = true := by
  decide +kernel

theorem shortSession_scores :
    Action.answers calculateScore shortSession (· == .simple (-9)) = true := by
  decide +kernel

/-- The sessions hold different versions of the same shifts. -/
theorem shiftSessions_facts (k : Fact.Key) :
    (longSession.fact? k).map Fact.data = (shortSession.fact? k).map Fact.data := by
  have hread : ∀ s : Session .simple, (s.fact? k).map Fact.data
      = (s.facts.mapValues fun _ entry => entry.fact.data).get? k := fun s => by
    rw [Table.get?_mapValues s.facts (fun _ entry => entry.fact.data) k, fact?, Option.map_map]
    rfl
  rw [hread, hread]
  exact Table.get?_of_perm (by decide +kernel) k

end Session

end ConstraintStreams
