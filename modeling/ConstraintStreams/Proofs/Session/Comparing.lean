import ConstraintStreams.Proofs.Graph.Drafting
import ConstraintStreams.Proofs.Image.Matching
import ConstraintStreams.Proofs.Image.Session
import ConstraintStreams.Proofs.Session.Representing
import ConstraintStreams.Proofs.Session.Showing

/-!
# Facts compared with each other

Two streams compare the facts of one type with each other: that of all unique pairs, and that of the
tuples whose first fact has, or lacks, a match among the other facts of a type. After every flush that
succeeds, in a session in which no propagation has failed, `ComparesFacts` says what they have.
-/

namespace ConstraintStreams

/-- The test of a joiner that has one. -/
def Joiner.pairTest : Joiner → PairTest
  | test _ accepts => accepts.run
  | indexed .. => fun _ _ => .ok true

namespace Session

variable {kind : ScoreKind} {g : Graph kind} {s s' : Session kind} {fs : Functions}

/-! ## What sources show -/

/-- A change of facts leaves the session as it was, or poisoned, or such that all that is to hold holds. -/
theorem ends_usable {x : SessionAction kind Unit} (h : Holds g s)
    (hchanges : Action.Ensures (fun _ => True) x s fun _ s' =>
      Holds g s' ∧ s.network.Amends s'.network)
    (hintact : Action.Ends x s (fun _ _ => True) (Intact s)) :
    Action.Ends x s (fun _ t => t.poisoned = false → Holds g t)
      (fun t => t.poisoned = false → Holds g t) := by
  have hholds : Action.Ensures (fun _ => True) x s fun _ t => t.poisoned = false → Holds g t :=
    hchanges.mono fun _ t ht _ => ht.1
  refine hholds.ends fun e t _ hrun => ?_
  rcases hintact.of_error hrun with rfl | hp
  · exact fun _ => h
  · exact fun husable => by cases hp.symm.trans husable

theorem usable_lasts (hg : g.WellFormed) : Lasts fun s : Session kind => s.poisoned = false → Holds g s where
  poisoned _ _ hp := by cases hp
  flushed h hflush _ := (Holds.lasts hg).flushed (h (flush_eq_ok hflush).1) hflush

end Session

/-- Unless it is poisoned, a session without a failed propagation shows its facts where they are visible,
if its sources test by type. -/
theorem Unbroken.holds {kind : ScoreKind} {g : Graph kind} {s : Session kind} (hg : g.WellFormed)
    (hgated : g.Gated) (h : Unbroken g s) (husable : s.poisoned = false) : s.Holds g := by
  induction h with
  | opened config order => exact Session.new_holds g config order
  | @called s s' c _ hflush hrun ih =>
    cases hp : s.poisoned with
    | true =>
      rw [Session.run_of_poisoned hp] at hrun
      rcases hrun with hrun | ⟨e, hrun⟩
      · cases hrun
      · cases hrun
        cases hp.symm.trans husable
    | false =>
      have h := ih hp
      replace hflush := hflush hp
      have hlasts := Session.usable_lasts hg
      have hends : Action.Ends c.run s (fun _ t => t.poisoned = false → t.Holds g)
          (fun t => t.poisoned = false → t.Holds g) := by
        cases c with
        | insert facts =>
          show Action.Ends (Session.insert facts) s _ _
          rw [Session.insert_eq]
          exact hlasts.ends_afterChange (Session.ends_usable h (Session.takeIn_spec .any (.any g) h facts)
            (Session.takeIn_intact hgated h.graph facts)) (Session.keepsStanding_takeIn facts) hp
            fun t himmediate ht => hflush t (.insert himmediate ht)
        | update facts =>
          show Action.Ends (Session.update facts) s _ _
          rw [Session.update_eq]
          exact hlasts.ends_afterChange (Session.ends_usable h (Session.takeOver_spec .any (.any g) h facts)
            (Session.takeOver_intact hgated h.graph facts)) (Session.keepsStanding_takeOver facts) hp
            fun t himmediate ht => hflush t (.update himmediate ht)
        | retract keys =>
          show Action.Ends (Session.retract keys) s _ _
          rw [Session.retract_eq]
          exact hlasts.ends_afterChange (Session.ends_usable h (Session.giveUp_spec .any h keys)
            (Session.giveUp_intact keys)) (Session.keepsStanding_giveUp keys) hp
            fun t himmediate ht => hflush t (.retract himmediate ht)
        | clear =>
          exact (Session.clear_ends_holding hg h).mono (fun _ _ ht _ => ht) fun _ ht _ => ht
        | setWeight name weight =>
          exact (Session.setWeight_ends_holding hg h name weight).mono (fun _ _ ht _ => ht)
            fun _ ht _ => ht
        | _ => exact hlasts.ends_computing (fun _ => h) hp rfl hflush
      rcases hrun with hrun | ⟨e, hrun⟩
      · exact hends.of_ok hrun husable
      · exact hends.of_error hrun husable

namespace Session

variable {kind : ScoreKind} {g : Graph kind} {s s' : Session kind} {fs : Functions} {b : Blueprint kind}
  {p : NodeId} {n : Node kind} {type : FactType} {includeUnassigned : Bool} {facts : Facts} {u : TupleId}

/-- The current version of a fact of a type that can be seen: of any, or of one that passes the test that
is registered for the type, if there is one. -/
def Sees (s : Session kind) (b : Blueprint kind) (type : FactType) (includeUnassigned : Bool)
    (fact : Fact) : Prop :=
  s.fact? fact.key = some fact ∧ fact.type = type ∧ (includeUnassigned = true ∨
    ∀ accepts, b.visibility.get? type = some accepts → accepts fact = .ok true)

/-- Where it is a matter of the blueprint, a source shows just the facts that are seen. -/
theorem Holds.shown_iff_sees (h : Holds g s) (hn : g.nodes.get? p = some n)
    (hop : n.operator = b.resolve (.source type includeUnassigned none)) {fact : Fact} :
    (∃ id, s.shown fact.key p = some (id, fact)) ↔ s.Sees b type includeUnassigned fact := by
  have hnode : g.node p = .ok n := by simp [Graph.node, hn]
  cases includeUnassigned with
  | true =>
    rw [h.shown_iff hn hop]
    simp [Sees, isVisible, hnode, bind, Except.bind, hop, Blueprint.resolve, pure, Except.pure]
  | false =>
    rw [h.shown_iff hn hop]
    unfold Sees
    cases hregistered : b.visibility.get? type with
    | none => simp [isVisible, hnode, bind, Except.bind, hop, Blueprint.resolve, hregistered, pure, Except.pure]
    | some accepts => simp [isVisible, hnode, bind, Except.bind, hop, Blueprint.resolve, hregistered]

/-- At rest, a source has one live tuple for each fact that is seen there, with its current version. -/
theorem Holds.source_image (h : Holds g s) (hrest : Network.AtRest g s.network)
    (hn : g.nodes.get? p = some n)
    (hop : n.operator = b.resolve (.source type includeUnassigned none)) :
    Network.OneEach s.network p (fun fact => s.Sees b type includeUnassigned fact)
      fun fact shown => shown = [fact] := by
  have hsource : n.operator.IsSource := by
    cases includeUnassigned <;> exact ⟨_, _, _, hop⟩
  have hopen {u : TupleId} {fact : Fact} (hu : s.shown fact.key p = some (u, fact)) :=
    h.sourced.fact_eq hu
  refine .of_rel (R := fun fact u => s.shown fact.key p = some (u, fact)) ?_ ?_ ?_ ?_ ?_ ?_
  · exact fun fact hfact => (h.shown_iff_sees hn hop).2 hfact
  · exact fun hu => ⟨_, hrest.liveAt_iff.2 ⟨_, hopen hu⟩⟩
  · intro u facts hlive
    obtain ⟨sources, hu⟩ := hrest.liveAt_iff.1 hlive
    obtain ⟨k, hk⟩ := (h.sourced.listing hn hsource).owned hu
    obtain ⟨⟨id, fact⟩, hshown, hid⟩ := Option.map_eq_some_iff.1 hk
    obtain rfl : id = u := hid
    obtain rfl : fact.key = k := by
      obtain ⟨entry, hentry, hjoin⟩ := Option.bind_eq_some_iff.1 hshown
      obtain ⟨_, -, heq⟩ := Option.map_eq_some_iff.1 hjoin
      rw [← (Prod.mk.inj heq).2]
      exact h.keyed hentry
    exact ⟨fact, (h.shown_iff_sees hn hop).1 ⟨_, hshown⟩, hshown⟩
  · intro fact u u' hu hu'
    exact (Prod.mk.inj (Option.some.inj (hu.symm.trans hu'))).1
  · intro fact fact' u hu hu'
    have heq := (hopen hu).symm.trans (hopen hu')
    exact List.head_eq_of_cons_eq (Prod.mk.inj (Option.some.inj heq)).1
  · intro fact u facts _ hu hlive
    obtain ⟨sources, hu'⟩ := hrest.liveAt_iff.1 hlive
    exact (Prod.mk.inj (Option.some.inj (hu'.symm.trans (hopen hu)))).1

/-! ## What comparing streams have -/

/-- What the streams that compare the facts of a type with each other are to have in a session: those that
were declared, with handles of known functions, on the way to a blueprint, and whose nodes the graph that
was built from it has. -/
structure ComparesFacts (fs : Functions) (b : Blueprint kind) (g : Graph kind) (s : Session kind) :
    Prop where
  /-- Each two facts that are seen and that the joiners accept, the one with the lower id on the left,
  have one pair, and there is no other. -/
  pairs : ∀ {type : EntityType} {joiners stream p n},
    Drafted (TupleStream.forEachUniquePair (.entity type) joiners) stream b →
    (∀ j ∈ joiners ++ [Joiner.uniquePair (.entity type)], j.Uses fs) →
    stream.node = some p → g.nodes.get? p = some n →
    Network.OneEach s.network p
      (fun k : Entity × Entity => s.Sees b (.entity type) false (.entity k.1) ∧
        s.Sees b (.entity type) false (.entity k.2) ∧ k.1.id < k.2.id ∧
        Joiner.Matches joiners [.entity k.1] [.entity k.2])
      fun k shown => shown = [.entity k.1, .entity k.2]
  /-- A tuple passes if the joiners accept it with another fact than its first, or with none, whichever
  is expected. -/
  others : ∀ {size : Nat} {input stream : TupleStream size} {type expected includeUnassigned joiners q p n},
    Drafted (input.semijoinOther type expected includeUnassigned joiners) stream b →
    (∀ j ∈ joiners ++ [Joiner.otherFact type], j.Uses fs) →
    input.node = some q → stream.node = some p → g.nodes.get? p = some n →
    Network.OneEach s.network p
      (fun u => ∃ facts, Network.Offers g s.network q u facts ∧
        ((∃ first other, facts.head? = some first ∧ s.Sees b type includeUnassigned other ∧
          ¬ first.Same other ∧ Joiner.Matches joiners facts [other]) ↔ expected = true))
      fun u shown => Network.Offers g s.network q u shown
  /-- So a fact that is seen passes if the joiners accept it with another fact, or with none. -/
  facts : ∀ {input stream : TupleStream 1}
    {inputType type expected seesAll includeUnassigned joiners p n},
    Drafted (Blueprint.forEach inputType seesAll) input.node b →
    Drafted (input.semijoinOther type expected includeUnassigned joiners) stream b →
    (∀ j ∈ joiners ++ [Joiner.otherFact type], j.Uses fs) →
    stream.node = some p → g.nodes.get? p = some n →
    Network.OneEach s.network p
      (fun fact => s.Sees b inputType seesAll fact ∧
        ((∃ other, s.Sees b type includeUnassigned other ∧ ¬ fact.Same other ∧
          Joiner.Matches joiners [fact] [other]) ↔ expected = true))
      fun fact shown => shown = [fact]

variable {K : Knowledge} {joiners : List Joiner} {q r : NodeId}

/-- A source offers its own tuples only. -/
theorem offers_of_source {net : Network kind} (hn : g.nodes.get? p = some n)
    (hop : n.operator = b.resolve (.source type includeUnassigned none)) :
    Network.Offers g net p u facts ↔ net.LiveAt p u facts := by
  refine ⟨fun h => ?_, .own⟩
  cases h with
  | own h => exact h
  | accepted hn' hfilter =>
    cases hn.symm.trans hn'
    cases includeUnassigned <;> cases hop.symm.trans hfilter

/-- The inputs of a node with two parents are what these offer. -/
theorem input_left {net : Network kind} (hparents : n.parents = [q, r]) :
    Network.Input g net n .left u facts ↔ Network.Offers g net q u facts := by
  simp [Network.Input, hparents, Blueprint.sides]

theorem input_right {net : Network kind} (hparents : n.parents = [q, r]) :
    Network.Input g net n .right u facts ↔ Network.Offers g net r u facts := by
  simp [Network.Input, hparents, Blueprint.sides]

variable {net : Network kind} {t : Session kind} {type' : FactType} {seesAll expected : Bool}

/-- A join of a source of entities with itself has the pairs of those that are seen and match. -/
theorem Holds.pairs_image {type : EntityType} (h : Holds g s) (hg : g.WellFormed)
    (hrest : Network.AtRest g s.network) (hn : g.nodes.get? p = some n) (hparents : n.parents = [q, q])
    (hop : n.operator = .join (joiners ++ [Joiner.uniquePair (.entity type)]))
    (hsource : ∀ m, g.nodes.get? q = some m → m.operator = b.resolve (.source (.entity type) false none)) :
    Network.OneEach s.network p
      (fun k : Entity × Entity => s.Sees b (.entity type) false (.entity k.1) ∧
        s.Sees b (.entity type) false (.entity k.2) ∧ k.1.id < k.2.id ∧
        Joiner.Matches joiners [.entity k.1] [.entity k.2])
      fun k shown => shown = [.entity k.1, .entity k.2] := by
  obtain ⟨K, hK⟩ := h.sourced.consistent
  obtain ⟨m, hm, -⟩ := hg.linked.below hn (show q ∈ n.parents by simp [hparents])
  have hmop := hsource m hm
  obtain ⟨output, hlive, hinj, hall⟩ := (h.source_image hrest hm hmop).outputs
  have hleft {u : TupleId} {facts : Facts} : Network.Input g s.network n .left u facts ↔
      s.network.LiveAt q u facts := (input_left hparents).trans (offers_of_source hm hmop)
  have hright {u : TupleId} {facts : Facts} : Network.Input g s.network n .right u facts ↔
      s.network.LiveAt q u facts := (input_right hparents).trans (offers_of_source hm hmop)
  have hentity {u : TupleId} {facts : Facts} (hu : s.network.LiveAt q u facts) :
      ∃ a, s.Sees b (.entity type) false (.entity a) ∧ output (.entity a) = u ∧ facts = [.entity a] := by
    obtain ⟨fact, hsees, hu, hfacts⟩ := hall u facts hu
    cases fact with
    | entity a => exact ⟨a, hsees, hu, hfacts⟩
    | scalar | list => cases hsees.2.1
  refine (hK.join_image hg hrest hn hop).reindex
    (e := fun k : Entity × Entity => (output (.entity k.1), output (.entity k.2))) ⟨?_, ?_, ?_⟩ ?_
  · rintro ⟨x, y⟩ ⟨hx, hy, hlt, hmatches⟩
    exact ⟨_, _, hleft.2 (hlive _ hx), hright.2 (hlive _ hy), Joiner.matches_uniquePair.2 ⟨hmatches, hlt⟩⟩
  · rintro ⟨x, y⟩ ⟨hx, hy, -⟩ ⟨x', y'⟩ ⟨hx', hy', -⟩ he
    obtain ⟨hfirst, hsecond⟩ := Prod.mk.inj he
    cases hinj hx hx' hfirst
    cases hinj hy hy' hsecond
    rfl
  · rintro ⟨u, u'⟩ ⟨fl, fr, hl, hr, hmatches⟩
    obtain ⟨x, hx, rfl, rfl⟩ := hentity (hleft.1 hl)
    obtain ⟨y, hy, rfl, rfl⟩ := hentity (hright.1 hr)
    obtain ⟨hmatches, hlt⟩ := Joiner.matches_uniquePair.1 hmatches
    exact ⟨(x, y), ⟨hx, hy, hlt, hmatches⟩, rfl⟩
  · rintro ⟨x, y⟩ shown ⟨hx, hy, -⟩ ⟨fl, fr, hl, hr, rfl⟩
    rw [Network.LiveAt.unique (hleft.1 hl) (hlive _ hx), Network.LiveAt.unique (hright.1 hr) (hlive _ hy)]
    rfl

/-- A semijoin with a source passes the tuples that match, or do not, another fact that is seen there. -/
theorem Holds.others_image (h : Holds g s) (hg : g.WellFormed)
    (hrest : Network.AtRest g s.network) (hn : g.nodes.get? p = some n) (hparents : n.parents = [q, r])
    (hop : n.operator = .semijoin expected (joiners ++ [Joiner.otherFact type]))
    (hsource : ∀ m, g.nodes.get? r = some m →
      m.operator = b.resolve (.source type includeUnassigned none)) :
    Network.OneEach s.network p
      (fun u => ∃ facts, Network.Offers g s.network q u facts ∧
        ((∃ first other, facts.head? = some first ∧ s.Sees b type includeUnassigned other ∧
          ¬ first.Same other ∧ Joiner.Matches joiners facts [other]) ↔ expected = true))
      fun u shown => Network.Offers g s.network q u shown := by
  obtain ⟨K, hK⟩ := h.sourced.consistent
  obtain ⟨m, hm, -⟩ := hg.linked.below hn (show r ∈ n.parents by simp [hparents])
  have hmop := hsource m hm
  obtain ⟨output, hlive, -, hall⟩ := (h.source_image hrest hm hmop).outputs
  have hright {u : TupleId} {facts : Facts} : Network.Input g s.network n .right u facts ↔
      s.network.LiveAt r u facts := (input_right hparents).trans (offers_of_source hm hmop)
  refine (hK.semijoin_image hg hrest hn hop).mono (fun u => exists_congr fun facts => ?_)
    fun u shown _ hinput => (input_left hparents).1 hinput
  refine and_congr (input_left hparents) (iff_congr ?_ Iff.rfl)
  constructor
  · rintro ⟨u, fr, hr, hmatches⟩
    obtain ⟨other, hsees, -, rfl⟩ := hall u fr (hright.1 hr)
    obtain ⟨hmatches, first, hfirst, hother⟩ := Joiner.matches_otherFact.1 hmatches
    exact ⟨first, other, hfirst, hsees, hother, hmatches⟩
  · rintro ⟨first, other, hfirst, hsees, hother, hmatches⟩
    exact ⟨_, _, hright.2 (hlive other hsees), Joiner.matches_otherFact.2 ⟨hmatches, first, hfirst, hother⟩⟩

/-- Behind a source, it is the facts seen there that pass. -/
theorem Holds.facts_image (h : Holds g s) (hg : g.WellFormed)
    (hrest : Network.AtRest g s.network) (hn : g.nodes.get? p = some n) (hparents : n.parents = [q, r])
    (hop : n.operator = .semijoin expected (joiners ++ [Joiner.otherFact type]))
    (hinput : ∀ m, g.nodes.get? q = some m → m.operator = b.resolve (.source type' seesAll none))
    (hsource : ∀ m, g.nodes.get? r = some m →
      m.operator = b.resolve (.source type includeUnassigned none)) :
    Network.OneEach s.network p
      (fun fact => s.Sees b type' seesAll fact ∧
        ((∃ other, s.Sees b type includeUnassigned other ∧ ¬ fact.Same other ∧
          Joiner.Matches joiners [fact] [other]) ↔ expected = true))
      fun fact shown => shown = [fact] := by
  obtain ⟨m, hm, -⟩ := hg.linked.below hn (show q ∈ n.parents by simp [hparents])
  have hmop := hinput m hm
  obtain ⟨output, hlive, hinj, hall⟩ := (h.source_image hrest hm hmop).outputs
  have hoffers {u : TupleId} {facts : Facts} : Network.Offers g s.network q u facts ↔
      s.network.LiveAt q u facts := offers_of_source hm hmop
  have hfirst {fact : Fact} : (∃ first other, ([fact] : Facts).head? = some first ∧
      s.Sees b type includeUnassigned other ∧ ¬ first.Same other ∧
        Joiner.Matches joiners [fact] [other]) ↔
      ∃ other, s.Sees b type includeUnassigned other ∧ ¬ fact.Same other ∧
        Joiner.Matches joiners [fact] [other] := by
    simp
  refine (h.others_image hg hrest hn hparents hop hsource).reindex (e := output) ⟨?_, ?_, ?_⟩ ?_
  · rintro fact ⟨hsees, hpasses⟩
    exact ⟨[fact], hoffers.2 (hlive fact hsees), hfirst.trans hpasses⟩
  · exact fun fact hfact fact' hfact' he => hinj hfact.1 hfact'.1 he
  · rintro u ⟨facts, hu, hpasses⟩
    obtain ⟨fact, hsees, rfl, rfl⟩ := hall u facts (hoffers.1 hu)
    exact ⟨fact, ⟨hsees, hfirst.symm.trans hpasses⟩, rfl⟩
  · exact fun fact shown hfact hshown => (hoffers.1 hshown).unique (hlive fact hfact.1)

/-- After a flush that succeeds, the streams that compare the facts of a type with each other have just
the pairs, and just the facts, that they are to have. -/
theorem compares_facts {ds : List (Declaration kind)} (hds : ∀ d ∈ ds, d.Gated ∧ d.Uses fs)
    (hbuild : (Blueprint.build (Blueprint.declare ds {})).1 = .ok g) (hs : Unbroken g s) {count : Nat}
    (hflush : flush s = .ok count s') : ComparesFacts fs (Blueprint.declare ds {}) g s' := by
  have hg : g.WellFormed := Graph.Built.wellFormed ⟨ds, hbuild⟩
  have hgated : g.Gated := Graph.gated_of_build (fun d hd => (hds d hd).1) hbuild
  have hcanonical : (Blueprint.declare ds {}).Canonical fs :=
    .declare (.blank fs) .blank fun d hd => (hds d hd).2
  have husable := (flush_eq_ok hflush).1
  have h : Holds g s' := (Holds.lasts hg).flushed (hs.holds hg hgated husable) hflush
  have hrest : Network.AtRest g s'.network := by
    have htracked := hs.tracked hg
    obtain ⟨-, net, hnet, rfl⟩ := flush_eq_ok hflush
    rw [htracked.graph] at hnet
    exact (htracked.tracks.flushed hg hnet).2
  cases Blueprint.eq_prune_of_build hbuild
  constructor
  case pairs =>
    intro type joiners stream p n hdrafted hjoiners hp hn
    obtain ⟨q, hparents, hop, hsource⟩ := hdrafted.pair hcanonical hjoiners hp hn
    exact h.pairs_image hg hrest hn hparents hop hsource
  case others =>
    intro size input stream type expected includeUnassigned joiners q p n hdrafted hjoiners hq hp hn
    obtain ⟨l, r, hl, hparents, hop, hsource⟩ := hdrafted.other hcanonical hjoiners hp hn
    cases hq.symm.trans hl
    exact h.others_image hg hrest hn hparents hop hsource
  case facts =>
    intro input stream type' type expected seesAll includeUnassigned joiners p n hinput hdrafted hjoiners
      hp hn
    obtain ⟨l, r, hl, hparents, hop, hsource⟩ := hdrafted.other hcanonical hjoiners hp hn
    rw [hl] at hinput
    exact h.facts_image hg hrest hn hparents hop (fun m hm => hinput.source hcanonical hm) hsource

/-- Functions that look up in vain what tuples are filtered by, and the tests that come with a type. -/
def builtinFunctions : Functions where
  predicate _ _ := .error (.factNotFound "lookup" 0)
  property _ _ := .error .sessionPoisoned
  pairTest
    | .uniquePair type => (Joiner.uniquePair type).pairTest
    | .otherFact type => (Joiner.otherFact type).pairTest
    | .given _ => fun _ _ => .ok true
  groupKey _ _ := .error .sessionPoisoned
  mapper _ := .ok
  items _ _ := .ok []
  collector _ := .count 0

/-- The declarations of a graph that charges all unique pairs of entities, and all entities but the
marked ones that are not alone. -/
def comparing : List (Declaration .simple) :=
  [.visibility (.entity markable) ((FactType.entity markable).gate fun fact => .ok (!isMarked fact)),
    .forEach (.entity markable) false,
    .join (some ⟨1⟩) (some ⟨1⟩) [Joiner.uniquePair (.entity markable)],
    .charge (some ⟨2⟩) "pairs" (.simple 1) .penalty none,
    .forEach (.entity markable) true,
    .semijoin (some ⟨1⟩) (some ⟨4⟩) true [Joiner.otherFact (.entity markable)],
    .charge (some ⟨5⟩) "others" (.simple 1) .penalty none]

/-- The graph of `comparing`. -/
def comparingGraph : Graph .simple := (Blueprint.declare comparing {}).prune

/-- An entity of a number, marked or not. -/
def numbered (id : Int64) (mark : Bool) : Entity := ⟨markable, id, .given 0, [("mark", .bool mark)]⟩

/-- Two entities that can be seen, and one that cannot. -/
def comparedFacts : List Fact :=
  [.entity (numbered 2 false), .entity (numbered 1 false), .entity (numbered 3 true)]

/-- The entities come in, and the flush drains those that are seen, all of them, a pair, and what is seen
beside another. -/
theorem comparedFacts_flush : Action.attains (Call.insert comparedFacts).run (new comparingGraph {})
    (fun _ s => Action.answers flush s (· == 8)) = true := by
  decide +kernel

theorem uses_builtin (type : FactType) : (Joiner.uniquePair type).Uses builtinFunctions ∧
    (Joiner.otherFact type).Uses builtinFunctions :=
  ⟨rfl, rfl⟩

theorem compares_facts_comparing :
    (∀ d ∈ comparing, d.Gated ∧ d.Uses builtinFunctions) ∧
      Drafted (TupleStream.forEachUniquePair (.entity markable) []) ⟨some ⟨2⟩⟩
        (Blueprint.declare comparing {}) ∧
      Drafted ((⟨some ⟨1⟩⟩ : TupleStream 1).semijoinOther (.entity markable) true true []) ⟨some ⟨5⟩⟩
        (Blueprint.declare comparing {}) ∧
      ∃ s s', (Call.insert comparedFacts).run (new comparingGraph {}) = .ok () s ∧
        Unbroken comparingGraph s ∧ flush s = .ok 8 s' ∧
        ComparesFacts builtinFunctions (Blueprint.declare comparing {}) comparingGraph s' := by
  have hds : ∀ d ∈ comparing, d.Gated ∧ d.Uses builtinFunctions := by
    simp only [comparing, List.forall_mem_cons, List.not_mem_nil, false_imp_iff, implies_true, and_true]
    refine ⟨⟨⟨_, rfl⟩, trivial⟩, ⟨trivial, trivial⟩, ⟨trivial, ?_⟩, ⟨trivial, trivial⟩, ⟨trivial, trivial⟩,
      ⟨trivial, ?_⟩, ⟨trivial, trivial⟩⟩
    · exact List.forall_mem_singleton.2 (uses_builtin _).1
    · exact List.forall_mem_singleton.2 (uses_builtin _).2
  refine ⟨hds, ⟨comparing.take 1, comparing.drop 3, rfl, rfl⟩,
    ⟨comparing.take 4, comparing.drop 6, rfl, rfl⟩, ?_⟩
  obtain ⟨_, s, hinsert, hflushes⟩ := Action.attains_iff.1 comparedFacts_flush
  obtain ⟨count, s', hrun, hcount⟩ := Action.answers_iff.1 hflushes
  obtain rfl : count = 8 := beq_iff_eq.1 hcount
  have hunbroken : Unbroken comparingGraph s := unbroken_insert (.opened {}) rfl hinsert
  exact ⟨s, s', hinsert, hunbroken, hrun, compares_facts hds rfl hunbroken hrun⟩

/-- The declarations of a graph whose filter looks something up in vain, beside all unique pairs. -/
def vainPairs : List (Declaration .simple) :=
  [.forEach (.entity markable) false,
    .filter (some ⟨1⟩) ⟨.given 0, fun _ => .error (.factNotFound "lookup" 0)⟩,
    .charge (some ⟨2⟩) "c" (.simple 1) .penalty none,
    .forEach (.entity markable) false,
    .join (some ⟨1⟩) (some ⟨1⟩) [Joiner.uniquePair (.entity markable)],
    .charge (some ⟨4⟩) "d" (.simple 1) .penalty none]

/-- The graph of `vainPairs`. -/
def vainPairsGraph : Graph .simple := (Blueprint.declare vainPairs {}).prune

/-- Two entities came in, and were flushed in vain. -/
def vainPairCalls : List (Call .simple) :=
  [.insert [.entity (numbered 1 false), .entity (numbered 2 false)], .flush]

theorem vainPairCalls_end :
    (Call.replay vainPairCalls (new vainPairsGraph {})).1.map Except.isOk = [true, false] ∧
    Action.attains flush (Call.replay vainPairCalls (new vainPairsGraph {})).2
      (fun count s' => count == 0 &&
        s'.fact? (Fact.entity (numbered 1 false)).key == some (.entity (numbered 1 false)) &&
        s'.fact? (Fact.entity (numbered 2 false)).key == some (.entity (numbered 2 false)) &&
        s'.network.agenda.tuples.live.entries.all fun e => e.2.node != ⟨4⟩) = true := by
  decide +kernel

/-- A filter that looks something up in vain stops a flush and leaves the session usable. The join was told
of no entity, and the next flush does not tell it either: it does not have the one pair that there is. -/
theorem compares_facts_fails : (∀ d ∈ vainPairs, d.Gated ∧ d.Uses builtinFunctions) ∧
    (Blueprint.build (Blueprint.declare vainPairs {})).1 = .ok vainPairsGraph ∧
    (Call.replay vainPairCalls (new vainPairsGraph {})).1.map Except.isOk = [true, false] ∧
    ∃ s', flush (Call.replay vainPairCalls (new vainPairsGraph {})).2 = .ok 0 s' ∧
      ¬ ComparesFacts builtinFunctions (Blueprint.declare vainPairs {}) vainPairsGraph s' := by
  have hds : ∀ d ∈ vainPairs, d.Gated ∧ d.Uses builtinFunctions := by
    simp only [vainPairs, List.forall_mem_cons, List.not_mem_nil, false_imp_iff, implies_true, and_true]
    refine ⟨⟨trivial, trivial⟩, ⟨trivial, rfl⟩, ⟨trivial, trivial⟩, ⟨trivial, trivial⟩, ⟨trivial, ?_⟩,
      ⟨trivial, trivial⟩⟩
    exact List.forall_mem_singleton.2 (uses_builtin _).1
  obtain ⟨hcalls, hflushes⟩ := vainPairCalls_end
  obtain ⟨count, s', hrun, hend⟩ := Action.attains_iff.1 hflushes
  simp only [Bool.and_eq_true, beq_iff_eq, List.all_eq_true] at hend
  obtain ⟨⟨⟨rfl, hfirst⟩, hsecond⟩, hnone⟩ := hend
  refine ⟨hds, rfl, hcalls, s', hrun, fun hcompares => ?_⟩
  have hdrafted : Drafted (TupleStream.forEachUniquePair (.entity markable) []) ⟨some ⟨4⟩⟩
      (Blueprint.declare vainPairs {}) := ⟨vainPairs.take 3, vainPairs.drop 5, rfl, rfl⟩
  obtain ⟨n, hn⟩ : ∃ n, vainPairsGraph.nodes.get? ⟨4⟩ = some n := ⟨_, rfl⟩
  obtain ⟨output, hbij, -⟩ := hcompares.pairs hdrafted
    (List.forall_mem_singleton.2 (uses_builtin _).1) rfl hn
  have hvisible : ∀ accepts, (Blueprint.declare vainPairs {}).visibility.get? (.entity markable) =
      some accepts → False := nofun
  have hpair : s'.Sees (Blueprint.declare vainPairs {}) (.entity markable) false
        (.entity (numbered 1 false)) ∧
      s'.Sees (Blueprint.declare vainPairs {}) (.entity markable) false
        (.entity (numbered 2 false)) ∧
      (numbered 1 false).id < (numbered 2 false).id ∧
      Joiner.Matches [] [.entity (numbered 1 false)] [.entity (numbered 2 false)] :=
    ⟨⟨hfirst, rfl, .inr fun accepts h => (hvisible accepts h).elim⟩,
      ⟨hsecond, rfl, .inr fun accepts h => (hvisible accepts h).elim⟩, by decide, [], rfl, rfl, rfl⟩
  obtain ⟨facts, t, ht, hnode, -⟩ :=
    hbij.mapsTo (x := (numbered 1 false, numbered 2 false)) hpair
  simpa [hnode] using hnone (_, t) (Table.get?_eq_some_iff.1 ht)

end Session

end ConstraintStreams
