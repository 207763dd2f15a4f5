import ConstraintStreams.Proofs.Session.Atomicity
import ConstraintStreams.Proofs.Session.Settling

/-!
# What the sources show

`ShowsFacts` ties the tuples of the sources to the facts of a session, whether or not what was changed
has been propagated. It outlasts calls that fail, too, in the sessions of `Orderly`: those where
everything that was to be propagated could be, and no change was given up halfway. A change that is
given up halfway leaves what it has done so far, and a tuple whose fact was never taken in stays.
-/

namespace ConstraintStreams

namespace Session

variable {kind : ScoreKind}

/-- The sources show the facts: each fact at the sources of its type where it is visible, by one tuple
there that carries its current version, and nothing else. -/
structure ShowsFacts (s : Session kind) : Prop where
  keyed : ∀ {k entry}, s.facts.get? k = some entry → entry.fact.key = k
  /-- A fact has one entry for each source of its type. -/
  once : ∀ {k entry}, s.facts.get? k = some entry → (entry.tuples.map Prod.fst).Nodup
  everywhere : ∀ {k entry}, s.facts.get? k = some entry → ∀ p, p ∈ entry.tuples.map Prod.fst ↔
    ∃ n includeUnassigned visibility, s.graph.nodes.get? p = some n ∧
      n.operator = .source entry.fact.type includeUnassigned visibility
  /-- The entry has a tuple exactly if the source lets the current version be seen. -/
  visible : ∀ {k entry p tuple}, s.facts.get? k = some entry → (p, tuple) ∈ entry.tuples →
    isVisible s.graph p entry.fact = .ok tuple.isSome
  unassigned : ∀ {k entry p tuple n type visibility}, s.facts.get? k = some entry →
    (p, tuple) ∈ entry.tuples → s.graph.nodes.get? p = some n →
    n.operator = .source type true visibility → tuple.isSome = true
  carried : ∀ {k entry p id}, s.facts.get? k = some entry → (p, some id) ∈ entry.tuples →
    ∃ t, s.network.agenda.find? id = some t ∧ t.node = p ∧ t.stage ≠ .dying ∧ t.stage ≠ .aborting ∧
      t.facts = [entry.fact]
  /-- Whatever else a source has is on its way out. -/
  withdrawn : ∀ {u t n}, s.network.agenda.find? u = some t → s.graph.nodes.get? t.node = some n →
    n.operator.IsSource →
    (∃ k entry, s.facts.get? k = some entry ∧ (t.node, some u) ∈ entry.tuples) ∨
      t.stage = .dying ∨ t.stage = .aborting

/-- No source has two tuples for one fact, those on their way out apart. -/
def ShowsOnce (s : Session kind) : Prop :=
  ∀ {u u' t t' n fact fact'}, s.network.agenda.find? u = some t → s.network.agenda.find? u' = some t' →
    t.node = t'.node → s.graph.nodes.get? t.node = some n → n.operator.IsSource →
    t.stage ≠ .dying ∧ t.stage ≠ .aborting → t'.stage ≠ .dying ∧ t'.stage ≠ .aborting →
    t.facts = [fact] → t'.facts = [fact'] → fact.key = fact'.key → u = u'

variable {g : Graph kind} {s s' : Session kind}

theorem ShowsFacts.showsOnce (h : s.ShowsFacts) : s.ShowsOnce := by
  intro u u' t t' n fact fact' ht ht' hnode hn hop hlive hlive' hfacts hfacts' hkey
  have listed : ∀ {u t fact}, s.network.agenda.find? u = some t →
      s.graph.nodes.get? t.node = some n → t.stage ≠ .dying ∧ t.stage ≠ .aborting →
      t.facts = [fact] → ∃ entry, s.facts.get? fact.key = some entry ∧
        (t.node, some u) ∈ entry.tuples := by
    intro u t fact ht hn hlive hfacts
    rcases h.withdrawn ht hn hop with ⟨k, entry, hentry, hmem⟩ | hstage | hstage
    · obtain ⟨t₁, ht₁, -, -, -, hcarried⟩ := h.carried hentry hmem
      obtain rfl : t = t₁ := Option.some.inj (ht.symm.trans ht₁)
      obtain rfl : fact = entry.fact := List.head_eq_of_cons_eq (hfacts.symm.trans hcarried)
      rw [h.keyed hentry]
      exact ⟨entry, hentry, hmem⟩
    · exact absurd hstage hlive.1
    · exact absurd hstage hlive.2
  obtain ⟨entry, hentry, hmem⟩ := listed ht hn hlive hfacts
  obtain ⟨entry', hentry', hmem'⟩ := listed ht' (hnode ▸ hn) hlive' hfacts'
  rw [← hkey, hentry] at hentry'
  obtain rfl := Option.some.inj hentry'
  have hfind := (Table.find_eq_some_iff (h.once hentry)).2 hmem
  have hfind' := (Table.find_eq_some_iff (h.once hentry)).2 hmem'
  rw [← hnode, hfind] at hfind'
  exact Option.some.inj (Option.some.inj hfind')

/-- What holds of a session makes its sources show its facts. -/
theorem Holds.showsFacts (h : Holds g s) : s.ShowsFacts := by
  obtain ⟨K, hK⟩ := h.sourced.consistent
  have hgraph := h.graph
  subst hgraph
  refine ⟨h.keyed, fun {k entry} he => ?_, fun {k entry} he p => ?_,
    fun {k entry p tuple} he hm => h.visible he hm, fun {k entry p tuple n type visibility} he hm hn hop => ?_,
    fun {k entry p id} he hm => ?_, fun {u t n} ht hn hop => ?_⟩
  · rw [h.listed he]
    exact Graph.sourcesOf_nodup _ _
  · rw [h.listed he]
    exact Graph.mem_sourcesOf
  · have hvisible := h.visible he hm
    have hnode : s.graph.node p = .ok n := by simp [Graph.node, hn]
    simp only [isVisible, hnode, bind, Except.bind, hop] at hvisible
    exact (Except.ok.inj hvisible).symm
  · have hshown := h.shown_eq he (p, some id) hm
    obtain ⟨t, ht, hnode, hopen, hfacts, -⟩ := Agenda.openAt_eq_some_iff.1 (h.sourced.fact_eq hshown)
    refine ⟨t, ht, hnode, ?_, ?_, hfacts⟩ <;>
    · intro hstage
      rw [hstage] at hopen
      cases hopen
  · cases hstage : t.stage with
    | dying => exact .inr (.inl rfl)
    | aborting => exact .inr (.inr rfl)
    | dead => exact absurd hstage (hK.coherent.sound.alive ht)
    | _ =>
      left
      have hopen : s.network.agenda.openAt t.node u = some (t.facts, t.sources) :=
        Agenda.openAt_eq_some_iff.2 ⟨t, ht, rfl, by rw [hstage]; rfl, rfl, rfl⟩
      obtain ⟨k, hk⟩ := (h.sourced.listing hn hop).owned hopen
      obtain ⟨⟨id, fact⟩, hshown, hid⟩ := Option.map_eq_some_iff.1 hk
      obtain rfl : id = u := hid
      unfold Session.shown at hshown
      obtain ⟨entry, hentry, hjoin⟩ := Option.bind_eq_some_iff.1 hshown
      obtain ⟨id', hid', heq⟩ := Option.map_eq_some_iff.1 hjoin
      cases heq
      have hnodup : (entry.tuples.map Prod.fst).Nodup := by
        rw [h.listed hentry]
        exact Graph.sourcesOf_nodup _ _
      exact ⟨k, entry, hentry, (Table.find_eq_some_iff hnodup).1 (Option.join_eq_some_iff.1 hid')⟩

end Session

/-! ## Calls that fail -/

namespace Ledger

variable {kind : ScoreKind}

/-- Where nothing matches, any weight can be put in force. -/
theorem setWeight_unmatched (c : Constraint kind) (weight : Score kind) (order : Arrangement TupleId)
    {l : Ledger kind} (h : l.entries = ∅) : setWeight c weight order l = .ok () (new weight) := by
  unfold setWeight underWeight
  rw [Action.bind_ok (Action.get_eq l), h, Table.inOrder_empty]
  rfl

end Ledger

namespace Network

variable {kind : ScoreKind} {g : Graph kind} {net : Network kind}

/-- No constraint matches anything. -/
def Unmatched (net : Network kind) : Prop := ∀ p l, net.ledger? p = some l → l.entries = ∅

theorem unmatched_reset (g : Graph kind) (net : Network kind) : (reset g net).Unmatched := by
  intro p l hl
  obtain ⟨m, hm, hml⟩ := Option.bind_eq_some_iff.1 hl
  obtain ⟨n, -, rfl⟩ := Option.map_eq_some_iff.1 ((Table.get?_mapValues g.nodes _ p).symm.trans hm)
  cases hop : n.operator <;> rw [hop] at hml <;> cases hml
  rfl

/-- A weight that cannot be put in force leaves the network as it is. -/
theorem setWeight_failed (g : Graph kind) (p : NodeId) (weight : Score kind) (net : Network kind) :
    Action.Ends (setWeight g p weight) net (fun _ _ => True) (· = net) := by
  unfold setWeight
  rw [Action.ends_bind, Action.ends_lift]
  refine ⟨fun c _ => ?_, fun _ _ => rfl⟩
  rw [Action.ends_bind, Action.ends_get]
  split
  · next l hl =>
    obtain ⟨m, hm, hml⟩ := Option.bind_eq_some_iff.1 hl
    refine Action.ends_within.2 ((Ledger.setWeight_ends c weight _ l).mono (fun _ _ _ => trivial) ?_)
    intro l' hl'
    subst hl'
    cases m <;> cases hml
    rw [Table.insert_eq_self hm]
  · trivial

/-- Where no constraint matches anything, all weights can be put in force. -/
theorem applyWeights_unmatched (hg : g.WellFormed) (h : net.Unmatched)
    {weights : List (ConstraintId × Score kind)}
    (hnamed : ∀ e ∈ weights, ∃ p, g.names.get? e.1 = some p) :
    Action.Ensures (fun _ => False) (Session.applyWeights g weights) net fun _ _ => True := by
  refine (Action.Ensures.forM (fun rest net => net.Unmatched ∧
    ∀ e ∈ rest, ∃ p, g.names.get? e.1 = some p) ?_ ⟨h, hnamed⟩).mono fun _ _ _ => trivial
  intro e rest net hrest
  obtain ⟨p, hp⟩ := hrest.2 e List.mem_cons_self
  obtain ⟨-, n, c, hn, hc, -⟩ := hg.names hp
  have hnode : g.constraintNode e.1 = .ok p := by simp [Graph.constraintNode, hp]
  have hat : g.constraintAt p = .ok c := Graph.constraintAt_eq_ok.2 ⟨n, hn, hc⟩
  have hleft : ∀ e ∈ rest, ∃ p, g.names.get? e.1 = some p :=
    fun e he => hrest.2 e (List.mem_cons_of_mem _ he)
  rw [Action.ensures_bind, Action.ensures_lift_of_ok hnode]
  unfold setWeight
  rw [Action.ensures_bind, Action.ensures_lift_of_ok hat, Action.ensures_bind, Action.ensures_get]
  split
  · next l hl =>
    refine Action.ensures_within.2 ?_
    unfold Action.Ensures
    rw [Ledger.setWeight_unmatched c e.2 _ (hrest.1 p l hl)]
    refine ⟨fun q l' hl' => ?_, hleft⟩
    unfold ledger? at hl'
    rw [Table.get?_insert] at hl'
    split at hl'
    · cases hl'
      rfl
    · exact hrest.1 q l' hl'
  · exact ⟨hrest.1, hleft⟩

end Network

/-- The sessions on a graph that calls lead to, whichever way the calls ended, as long as everything
that was to be propagated could be, and a change of facts that failed had changed nothing. -/
inductive Orderly {kind : ScoreKind} (g : Graph kind) : Session kind → Prop
  | opened (config : Config) (order : TupleStore → HashOrder := fun _ => {}) :
    Orderly g (Session.new g config order)
  | called {s s' : Session kind} (c : Call kind) : Orderly g s →
    (s.poisoned = false → ∀ t, Propagates c s t →
      ∃ count net, Network.flush t.graph t.network = .ok count net) →
    (c.changes = true → ∀ e, c.run s = .error e s' → s'.facts = s.facts ∧ s'.network = s.network) →
    (c.run s = .ok () s' ∨ ∃ e, c.run s = .error e s') → Orderly g s'

namespace Session

variable {kind : ScoreKind} {g : Graph kind} {s s' : Session kind}

/-- What holds of a session outlasts flushes that succeed. -/
theorem Holds.lasts (hg : g.WellFormed) : Lasts (Holds g) where
  poisoned _ h := ⟨h.graph, h.sourced, h.keyed, h.listed, h.visible, h.weighed, h.named⟩
  flushed h hflush := ((flush_spec hg .any (.any g) h).of_ok hflush).1

/-- Giving up all facts does not fail where calls are not refused. -/
theorem clear_succeeds (hg : g.WellFormed) (hgraph : s.graph = g)
    (hnamed : ∀ {name weight}, s.weights.get? name = some weight → ∃ p, g.names.get? name = some p)
    (husable : s.poisoned = false) : Action.Ensures (fun _ => False) clear s fun _ _ => True := by
  unfold clear
  rw [Action.ensures_bind]
  unfold Action.Ensures
  rw [checkUsable_of_usable husable]
  show Action.Ensures _ _ s _
  rw [Action.ensures_bind, Action.ensures_modify, Action.ensures_bind, Action.ensures_get, hgraph]
  refine ensures_guarded (Action.ensures_within.2
    ((Network.applyWeights_unmatched hg (Network.unmatched_reset g s.network) ?_).mono
      fun _ _ _ => trivial))
  exact fun e he => hnamed (Table.mem_inOrder.1 he)

/-- Giving up all facts fails only where all calls are refused. -/
theorem clear_ends_holding (hg : g.WellFormed) (h : Holds g s) :
    Action.Ends clear s (fun _ => Holds g) (Holds g) := by
  cases hp : s.poisoned with
  | true =>
    have hrefused : Call.clear.run s = .error .sessionPoisoned s := run_of_poisoned hp .clear
    unfold Action.Ends
    rw [show clear s = _ from hrefused]
    exact h
  | false =>
    have hsucceeds := clear_succeeds hg h.graph h.named hp
    exact (clear_spec hg .any h).ends fun e s' _ hrun => (hsucceeds.of_error hrun).elim

/-- A weight that cannot be set leaves the session as it is. -/
theorem setWeight_failed (name : ConstraintId) (weight : Score kind) (s : Session kind) :
    Action.Ends (setWeight name weight) s (fun _ _ => True) (· = s) := by
  unfold setWeight
  rw [Action.ends_bind]
  refine checkUsable_ends.mono (fun _ s' hs' => ?_) fun _ => id
  subst hs'
  rw [Action.ends_bind, Action.ends_get, Action.ends_bind, Action.ends_lift]
  refine ⟨fun p _ => ?_, fun _ _ => rfl⟩
  split
  · rfl
  · rw [Action.ends_bind]
    refine Action.ends_within.2 ((Network.setWeight_failed _ p weight _).mono (fun _ _ _ => trivial) ?_)
    intro net hnet
    rw [hnet]

theorem setWeight_ends_holding (hg : g.WellFormed) (h : Holds g s) (name : ConstraintId)
    (weight : Score kind) : Action.Ends (setWeight name weight) s (fun _ => Holds g) (Holds g) := by
  refine (setWeight_spec hg .any h name weight).ends fun e s' _ hrun => ?_
  rw [(setWeight_failed name weight s).of_error hrun]
  exact h

/-- A change of facts that failed without changing any leaves everything else as it was, too. -/
theorem Holds.of_unchanged (h : Holds g s) {c : Call kind} (hc : c.changes = true) {e : Error}
    (hrun : c.run s = .error e s') (hfacts : s'.facts = s.facts) (hnetwork : s'.network = s.network) :
    Holds g s' := by
  have hrest := (keeps_changing (I := fun t => t.graph = s.graph ∧ t.weights = s.weights)
    (fun _ _ h => h) (fun _ _ h => h) (fun _ h => h) hc s ⟨rfl, rfl⟩).of_error hrun
  have hshown : s'.shown = s.shown := by
    unfold shown
    rw [hfacts]
  refine ⟨hrest.1.trans h.graph, ?_, ?_, ?_, ?_, ?_, ?_⟩
  · rw [hshown, hnetwork]
    exact h.sourced
  · rw [hfacts]
    exact h.keyed
  · rw [hfacts]
    exact h.listed
  · rw [hfacts]
    exact h.visible
  · rw [hnetwork, hrest.2]
    exact h.weighed
  · rw [hrest.2]
    exact h.named

end Session

/-- All that holds of sessions that are reached holds of orderly ones. -/
theorem Orderly.holds {kind : ScoreKind} {g : Graph kind} {s : Session kind} (hg : g.WellFormed)
    (h : Orderly g s) : s.Holds g := by
  induction h with
  | opened config order => exact Session.new_holds g config order
  | @called s s' c _ hflush hunchanged hrun ih =>
    have hok : ∀ a, c.run s = .ok a s' → s'.Holds g := fun a =>
      (Session.run_spec hg .any (.any g) ih c fun _ _ _ _ _ _ => trivial).of_ok
    rcases hrun with hrun | ⟨e, hrun⟩
    · exact hok () hrun
    · by_cases hc : c.changes = true
      · obtain ⟨hfacts, hnetwork⟩ := hunchanged hc e hrun
        exact ih.of_unchanged hc hrun hfacts hnetwork
      · cases hp : s.poisoned with
        | true =>
          rw [Session.run_of_poisoned hp] at hrun
          cases hrun
          exact ih
        | false =>
          cases c with
          | insert | update | retract => exact absurd rfl hc
          | clear => exact (Session.clear_ends_holding hg ih).of_error hrun
          | setWeight name weight => exact (Session.setWeight_ends_holding hg ih name weight).of_error hrun
          | _ => exact ((Session.Holds.lasts hg).ends_computing ih hp rfl (hflush hp)).of_error hrun

namespace Session

variable {kind : ScoreKind} {g : Graph kind} {s : Session kind}

/-- In every orderly session the sources show the facts, whether or not what was changed has been
propagated. -/
theorem orderly_showsFacts (hg : g.Built) (hs : Orderly g s) : s.ShowsFacts ∧ s.ShowsOnce := by
  have h : s.ShowsFacts := (hs.holds hg.wellFormed).showsFacts
  exact ⟨h, h.showsOnce⟩

/-- The session of `onlyTrue` with a fact that is shown and one that is not. -/
def halfShownSession : Session .simple :=
  match insert [.scalar (.bool true), .scalar (.bool false)] onlyTrueSession with
  | .ok _ s => s
  | .error _ s => s

theorem orderly_showsFacts_onlyTrue : ((Blueprint.declare onlyTrue {}).prune).Built ∧
    Orderly (Blueprint.declare onlyTrue {}).prune halfShownSession ∧
    halfShownSession.factCount = 2 ∧ halfShownSession.tupleCount = 1 ∧
    halfShownSession.ShowsFacts ∧ halfShownSession.ShowsOnce := by
  have hbuilt : ((Blueprint.declare onlyTrue {}).prune).Built := ⟨onlyTrue, rfl⟩
  have hrun : Call.run (.insert [.scalar (.bool true), .scalar (.bool false)]) onlyTrueSession
      = .ok () halfShownSession := rfl
  have horderly : Orderly (Blueprint.declare onlyTrue {}).prune halfShownSession := by
    refine .called _ (.opened {}) (fun _ t ht => ?_) (fun _ e he => ?_) (.inl hrun)
    · cases ht with
      | insert himmediate => cases himmediate
    · cases hrun.symm.trans he
  exact ⟨hbuilt, horderly, rfl, rfl, orderly_showsFacts hbuilt horderly⟩

/-- Every truth is charged where it is assigned, and again whether it is or not. -/
def chargedTwice : List (Declaration .simple) :=
  [.forEach (.scalar .bool) true, .forEach (.scalar .bool) false,
    .charge (some ⟨1⟩) "all" (.simple 1) .penalty none,
    .charge (some ⟨2⟩) "assigned" (.simple 1) .penalty none]

/-- The graph of `chargedTwice`. -/
def chargedTwiceGraph : Graph .simple := (Blueprint.declare chargedTwice {}).prune

/-- There is room for one tuple only. -/
def oneTuple : Config := { limits := { maxTuples := 1 } }

/-- What is left of a session in which a fact found room at the first of its two sources. -/
def crowdedSession : Session .simple :=
  match insert [.scalar (.bool true)] (new chargedTwiceGraph oneTuple) with
  | .ok _ s => s
  | .error _ s => s

/-- A change that the limit on tuples stops halfway leaves a tuple at the first source, and no fact that
it could be a tuple of; the session refuses all further calls. -/
theorem orderly_showsFacts_fails : chargedTwiceGraph.Built ∧ oneTuple.validate = .ok () ∧
    (∃ details, Call.run (.insert [.scalar (.bool true)]) (new chargedTwiceGraph oneTuple)
      = .error (.resourceLimit "max_tuples" details) crowdedSession) ∧
    Unbroken chargedTwiceGraph crowdedSession ∧ crowdedSession.poisoned = true ∧
    ¬ crowdedSession.ShowsFacts := by
  obtain ⟨details, hrun⟩ : ∃ details,
      Call.run (.insert [.scalar (.bool true)]) (new chargedTwiceGraph oneTuple)
        = .error (.resourceLimit "max_tuples" details) crowdedSession := ⟨_, rfl⟩
  refine ⟨⟨chargedTwice, rfl⟩, rfl, ⟨details, hrun⟩, ?_, rfl, fun h => ?_⟩
  · refine .called _ (.opened oneTuple) (fun _ t ht => ?_) (.inr ⟨_, hrun⟩)
    cases ht with
    | insert himmediate => cases himmediate
  · obtain ⟨t, n, ht, hn, hop, hcreating⟩ : ∃ t n, crowdedSession.network.agenda.find? ⟨0, 0⟩ = some t ∧
        crowdedSession.graph.nodes.get? t.node = some n ∧ n.operator.IsSource ∧ t.stage = .creating :=
      ⟨_, _, rfl, rfl, ⟨_, _, _, rfl⟩, rfl⟩
    have hempty : crowdedSession.facts = ∅ := rfl
    rcases h.withdrawn ht hn hop with ⟨k, entry, hentry, -⟩ | hstage | hstage
    · rw [hempty] at hentry
      cases hentry
    · rw [hcreating] at hstage
      cases hstage
    · rw [hcreating] at hstage
      cases hstage

end Session

end ConstraintStreams
