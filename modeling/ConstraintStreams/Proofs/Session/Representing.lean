import ConstraintStreams.Proofs.Image.Representatives
import ConstraintStreams.Proofs.Image.Session
import ConstraintStreams.Proofs.Session.Settling

/-!
# Outputs that speak for a member

`Tended` follows a session from flush to flush. As long as members for which outputs spoke leave heirs
where they leave a class or a group that goes on as it is, every output speaks for one of the members that
are there now. A member that has moved on within its class, by one way out and by another way in, leaves
none.
-/

namespace ConstraintStreams

namespace Network

variable {kind : ScoreKind} {g : Graph kind} {past net net' : Network kind}

/-- Nothing but constraints was changed. -/
structure Reweighs (g : Graph kind) (net net' : Network kind) : Prop where
  agenda : net'.agenda = net.agenda
  memories : ∀ {p n}, g.nodes.get? p = some n → n.operator.constraint? = none →
    net'.memories.get? p = net.memories.get? p

theorem Reweighs.waits (h : Reweighs g net net') : Waits g net net' :=
  ⟨h.memories, fun ht _ => by rwa [h.agenda] at ht⟩

theorem Reweighs.represented (h : Reweighs g net net') (hnet : Represented g net) :
    Represented g net' := by
  have hfacts : net'.factsOf = net.factsOf := by
    funext u
    rw [factsOf, h.agenda]
    rfl
  constructor
  · intro p n m hn hop hm
    rw [h.memories hn (by rw [hop]; rfl)] at hm
    rw [hfacts]
    exact hnet.distinct hn hop hm
  · intro p n m key collector hn hop hm
    rw [h.memories hn (by rw [hop]; rfl)] at hm
    rw [hfacts]
    exact hnet.group hn hop hm

theorem setWeight_reweighs (p : NodeId) (weight : Score kind) (net : Network kind) :
    Action.Ensures (fun _ => True) (setWeight g p weight) net fun _ net' => Reweighs g net net' := by
  unfold setWeight
  rw [Action.ensures_bind, Action.ensures_lift]
  refine ⟨fun c hc => ?_, fun _ _ => trivial⟩
  obtain ⟨n, hnode, hconstraint⟩ := except_bind_eq_ok.1 hc
  have hn := Graph.node_eq_ok.1 hnode
  rw [Action.ensures_bind, Action.ensures_get]
  split
  · refine Action.ensures_within.2 ((Action.Ensures.any _ _).mono fun _ l _ => ⟨rfl, ?_⟩)
    intro q nq hq hnone
    rw [Table.get?_insert, if_neg]
    rintro rfl
    cases hn.symm.trans hq
    rw [hnone] at hconstraint
    cases hconstraint
  · exact ⟨rfl, fun _ _ => rfl⟩

/-- A network that starts over has no classes and no groups. -/
theorem represented_reset (g : Graph kind) (net : Network kind) : Represented g (reset g net) := by
  constructor
  · intro p n m hn hop hm identity o shown ho
    have hnew := hm.symm.trans (reset_memory hn)
    rw [hop] at hnew
    cases hnew
    cases ho
  · intro p n m key collector hn hop hm id group hgroup
    have hnew := hm.symm.trans (reset_memory hn)
    rw [hop] at hnew
    cases hnew
    cases hgroup

/-- Nothing leaves a class or a group of a network that has none. -/
theorem bequeaths_reset (g : Graph kind) (net net' : Network kind) :
    Bequeaths g (reset g net) net' := by
  constructor
  · intro p n m₀ m hn hop hm₀ _ identity o input left _ hmember
    have hnew := hm₀.symm.trans (reset_memory hn)
    rw [hop] at hnew
    cases hnew
    cases hmember
  · intro p n m₀ m key collector hn hop hm₀ _ id group input left k _ hgroup
    have hnew := hm₀.symm.trans (reset_memory hn)
    rw [hop] at hnew
    cases hnew
    cases hgroup

/-- Nobody has left a class or a group of a node, except where somebody who has stayed has changed. -/
def stays (past net : Network kind) (p : NodeId) : Bool :=
  match past.memories.get? p, net.memories.get? p with
  | some (.distinct m₀), some (.distinct m) => m₀.members.entries.all fun e =>
    m.members.get? e.1 == some e.2 || m₀.members.entries.any fun x =>
      x.2 == e.2 && m.members.get? x.1 == some e.2 && net.factsOf x.1 != past.factsOf x.1
  | some (.group m₀), some (.group m) => m₀.members.entries.all fun e =>
    m.groupOf? e.1 == some e.2.group
  | _, _ => true

theorem bequeaths_of_stays (h : ∀ e ∈ g.nodes.entries, stays past net e.1 = true) :
    Bequeaths g past net := by
  constructor
  · intro p n m₀ m hn hop hm₀ hm identity o input left hgoes hmember _ _ hleft
    have hstays := h (p, n) (Table.get?_eq_some_iff.1 hn)
    simp only [stays, hm₀, hm, List.all_eq_true] at hstays
    have hentry := hstays (input, identity) (Table.get?_eq_some_iff.1 hmember)
    simp only [Bool.or_eq_true, beq_iff_eq, hleft, false_or, List.any_eq_true, Bool.and_eq_true,
      bne_iff_ne] at hentry
    obtain ⟨x, hx, ⟨hidentity, hstayed⟩, hchanged⟩ := hentry
    exact absurd (hgoes.unchanged (hidentity ▸ Table.get?_eq_some_iff.2 hx) hstayed) hchanged
  · intro p n m₀ m key collector hn hop hm₀ hm id group input left k _ _ hmember _ _ _ hleft
    have hstays := h (p, n) (Table.get?_eq_some_iff.1 hn)
    simp only [stays, hm₀, hm, List.all_eq_true, beq_iff_eq] at hstays
    obtain ⟨member, hlisted, rfl⟩ := Option.map_eq_some_iff.1 hmember
    exact absurd (hstays (input, member) (Table.get?_eq_some_iff.1 hlisted)) hleft

end Network

/-- What a call does about the changes that are still to be propagated. -/
inductive Call.Effect
  | waits
  | flushes
  | clears
  deriving DecidableEq

/-- Changes are propagated where the configuration asks for that, and by all calls that compute
anything. -/
def Call.effect {kind : ScoreKind} (c : Call kind) (config : Config) : Call.Effect :=
  match c with
  | .insert _ | .update _ | .retract _ =>
    if config.propagation = .immediate then .flushes else .waits
  | .setWeight .. => .waits
  | .clear => .clears
  | _ => .flushes

namespace Session

open Network (Waits Represented Bequeaths Reweighs)

variable {kind : ScoreKind} {g : Graph kind} {past : Network kind} {s s' : Session kind} {α : Type}

/-- What calls keep from flush to flush, `past` being the network as the last flush has left it. -/
structure Tends (g : Graph kind) (past : Network kind) (s : Session kind) : Prop where
  holds : Holds g s
  waits : Waits g past s.network
  represented : Represented g past

theorem flush_represents (hg : g.WellFormed) (h : s.Tends g past) :
    Action.Ensures (fun _ => True) flush s fun _ s' =>
      Bequeaths g past s'.network → Represented g s'.network := by
  unfold flush
  rw [Action.ensures_bind]
  refine (checkUsable_spec .any).mono fun _ s' hs' => ?_
  subst hs'
  rw [Action.ensures_bind, Action.ensures_get, h.holds.graph]
  obtain ⟨K, hK⟩ := h.holds.sourced.consistent
  refine ensures_guarded (Action.ensures_within.2 (Traced.ensures_flush (s := { net := s.network })
    ((Network.flush_spec hg (.any g) Error.Admits.any.toTolerates hK).mono
      fun _ s' ⟨K', hflushed⟩ hheirs => ?_)))
  exact h.represented.flushed hg h.holds.sourced h.waits hflushed hheirs

/-- What a flush achieves is still there once the score is computed. -/
theorem calculateScore_after {Q : Session kind → Prop}
    (h : Action.Ensures (fun _ => True) flush s fun _ s' => Q s') :
    Action.Ensures (fun _ => True) calculateScore s fun _ s' => Q s' := by
  unfold calculateScore
  rw [Action.ensures_bind, Action.ensures_discard]
  refine h.mono fun _ s' hs' => ?_
  rw [Action.ensures_bind, Action.ensures_get, Action.ensures_bind, Action.ensures_lift]
  refine ⟨fun score _ => ?_, fun _ _ => trivial⟩
  rw [Action.ensures_bind]
  exact ensures_guarded (Action.ensures_ofExcept.2 ⟨fun _ _ => hs', fun _ _ => trivial⟩)

/-- What a flush achieves is still there once the score is broken down. -/
theorem matchTotals_after {Q : Session kind → Prop}
    (h : Action.Ensures (fun _ => True) flush s fun _ s' => Q s') :
    Action.Ensures (fun _ => True) matchTotals s fun _ s' => Q s' := by
  unfold matchTotals
  rw [Action.ensures_bind, Action.ensures_discard]
  refine h.mono fun _ s' hs' => ensures_guarded ?_
  rw [Action.ensures_bind, Action.ensures_get, Action.ensures_lift]
  exact ⟨fun _ _ => hs', fun _ _ => trivial⟩

theorem flush_again {Q : Network kind → Prop} (hgraph : s.graph = g)
    (hrest : Network.AtRest g s.network) (hQ : Q { s.network with operations := 0 }) :
    Action.Ensures (fun _ => True) flush s fun _ s' => Q s'.network := by
  unfold Action.Ensures
  cases hrun : flush s with
  | error e s' => trivial
  | ok count s' =>
    obtain ⟨-, net, hnet, rfl⟩ := flush_eq_ok hrun
    rw [hgraph, Network.flush_of_rest hrest] at hnet
    cases hnet
    exact hQ

/-- A change, and its propagation where that is asked for. -/
theorem afterChange_represents (hg : g.WellFormed) {x : SessionAction kind Unit}
    (hx : Action.Ensures (fun _ => True) x s fun _ s' => Holds g s' ∧ s.network.Amends s'.network)
    (hstanding : KeepsStanding x) (h : s.Tends g past) :
    Action.Ensures (fun _ => True) (do x; afterChange) s fun _ s' =>
      if s.config.propagation = .immediate then
        Bequeaths g past s'.network → Represented g s'.network
      else Waits g past s'.network := by
  rw [Action.ensures_bind]
  refine (hx.and (hstanding s)).mono fun _ t ⟨⟨ht, hamends⟩, _, hconfig⟩ => ?_
  have hwaits := h.waits.trans hamends.waits
  unfold afterChange
  rw [Action.ensures_bind, Action.ensures_get, hconfig]
  split
  · next himmediate =>
    rw [Action.ensures_discard]
    exact flush_represents hg ⟨ht, hwaits, h.represented⟩
  · exact hwaits

theorem clear_represents (s : Session kind) (hgraph : s.graph = g) :
    Action.Ensures (fun _ => True) clear s fun _ s' => Represented g s'.network := by
  unfold clear
  rw [Action.ensures_bind]
  refine (checkUsable_spec .any).mono fun _ s' hs' => ?_
  subst hs'
  rw [Action.ensures_bind, Action.ensures_modify, Action.ensures_bind, Action.ensures_get, hgraph]
  refine ensures_guarded (Action.ensures_within.2 ?_)
  unfold applyWeights
  refine Action.Ensures.forM (fun _ net => Represented g net) ?_
    (Network.represented_reset g s.network)
  intro e _ net hnet
  rw [Action.ensures_bind, Action.ensures_lift]
  exact ⟨fun p _ => (Network.setWeight_reweighs p e.2 net).mono fun _ _ h => h.represented hnet,
    fun _ _ => trivial⟩

theorem setWeight_waits (s : Session kind) (hgraph : s.graph = g) (name : ConstraintId)
    (weight : Score kind) :
    Action.Ensures (fun _ => True) (setWeight name weight) s fun _ s' =>
      Waits g s.network s'.network := by
  unfold setWeight
  rw [Action.ensures_bind]
  refine (checkUsable_spec .any).mono fun _ s' hs' => ?_
  subst hs'
  rw [Action.ensures_bind, Action.ensures_get, Action.ensures_bind, Action.ensures_lift, hgraph]
  refine ⟨fun p _ => ?_, fun _ _ => trivial⟩
  split
  · trivial
  · rw [Action.ensures_bind]
    exact Action.ensures_within.2 ((Network.setWeight_reweighs p weight _).mono fun _ _ h => h.waits)

/-- What a call keeps from flush to flush. -/
theorem run_represents (hg : g.WellFormed) (h : s.Tends g past) (c : Call kind) :
    Action.Ensures (fun _ => True) c.run s fun _ s' => match c.effect s.config with
      | .waits => Waits g past s'.network
      | .flushes => Bequeaths g past s'.network → Represented g s'.network
      | .clears => Represented g s'.network := by
  have hflush := flush_represents hg h
  have change : ∀ {x : SessionAction kind Unit}, (Action.Ensures (fun _ => True) x s fun _ s' =>
      Holds g s' ∧ s.network.Amends s'.network) → KeepsStanding x →
      ∀ {c : Call kind}, c.effect s.config
        = (if s.config.propagation = .immediate then .flushes else .waits) →
      Action.Ensures (fun _ => True) (do x; afterChange) s fun _ s' => match c.effect s.config with
        | .waits => Waits g past s'.network
        | .flushes => Bequeaths g past s'.network → Represented g s'.network
        | .clears => Represented g s'.network := by
    intro x hx hstanding c hc
    refine (afterChange_represents hg hx hstanding h).mono fun _ s' hs' => ?_
    rw [hc]
    by_cases himmediate : s.config.propagation = .immediate
    · rw [if_pos himmediate] at hs' ⊢
      exact hs'
    · rw [if_neg himmediate] at hs' ⊢
      exact hs'
  cases c with
  | insert facts =>
    show Action.Ensures _ (Session.insert facts) s _
    rw [insert_eq]
    exact change (takeIn_spec .any (.any g) h.holds facts) (keepsStanding_takeIn facts) rfl
  | update facts =>
    show Action.Ensures _ (Session.update facts) s _
    rw [update_eq]
    exact change (takeOver_spec .any (.any g) h.holds facts) (keepsStanding_takeOver facts) rfl
  | retract keys =>
    show Action.Ensures _ (Session.retract keys) s _
    rw [retract_eq]
    exact change (giveUp_spec .any h.holds keys) (keepsStanding_giveUp keys) rfl
  | flush => exact Action.ensures_discard.2 hflush
  | calculateScore => exact Action.ensures_discard.2 (calculateScore_after hflush)
  | clear => exact clear_represents s h.holds.graph
  | setWeight name weight =>
    exact (setWeight_waits s h.holds.graph name weight).mono fun _ _ h' => h.waits.trans h'
  | matchTotals => exact Action.ensures_discard.2 (matchTotals_after hflush)
  | indictments =>
    refine Action.ensures_discard.2 ?_
    unfold indictments
    rw [Action.ensures_bind]
    exact matchTotals_after hflush
  | indictmentOf key =>
    refine Action.ensures_discard.2 ?_
    unfold indictmentOf indictments
    rw [Action.ensures_bind, Action.ensures_bind]
    exact matchTotals_after hflush
  | explain =>
    refine Action.ensures_discard.2 ?_
    unfold explain
    rw [Action.ensures_bind]
    have hboth : Action.Ensures (fun _ => True) flush s fun _ t => Holds g t ∧
        Network.AtRest g t.network ∧ (Bequeaths g past t.network → Represented g t.network) :=
      (hflush.and (flush_spec hg .any (.any g) h.holds)).mono
        fun _ t ⟨hrepresents, ht, _, _, hrest⟩ => ⟨ht, hrest, hrepresents⟩
    refine (calculateScore_after hboth).mono fun score t ⟨ht, hrest, hrepresents⟩ => ?_
    rw [Action.ensures_bind]
    -- The second flush has nothing to do.
    have hagain : Bequeaths g past { t.network with operations := 0 } →
        Represented g { t.network with operations := 0 } := fun hheirs =>
      have h' := hrepresents ⟨hheirs.distinct, hheirs.group⟩
      ⟨h'.distinct, h'.group⟩
    exact matchTotals_after (flush_again (Q := fun net => Bequeaths g past net → Represented g net)
      ht.graph hrest hagain)

end Session

/-- The sessions on a graph that successful calls lead to, each with its network as the last flush has
left it, while in every flush members for which outputs spoke have left heirs. -/
inductive Tended {kind : ScoreKind} (g : Graph kind) : Network kind → Session kind → Prop
  | opened (config : Config) (order : TupleStore → HashOrder := fun _ => {}) :
    Tended g (Session.new g config order).network (Session.new g config order)
  | done {past : Network kind} {s s' : Session kind} (c : Call kind) : Tended g past s →
    c.run s = .ok () s' → (c.effect s.config = .flushes → Network.Bequeaths g past s'.network) →
    Tended g (if c.effect s.config = .waits then past else s'.network) s'

theorem Tended.tends {kind : ScoreKind} {g : Graph kind} {past : Network kind} {s : Session kind}
    (hg : g.WellFormed) (h : Tended g past s) : s.Tends g past := by
  induction h with
  | opened config order =>
    exact ⟨Session.new_holds g config order, .refl g _, Network.represented_reset g _⟩
  | @done past s s' c _ hrun hheirs ih =>
    have hholds := (Session.run_spec hg .any (.any g) ih.holds c fun _ _ _ _ _ _ => trivial).of_ok hrun
    have hrepresents := (Session.run_represents hg ih c).of_ok hrun
    cases heffect : c.effect s.config with
    | waits =>
      rw [heffect] at hrepresents
      exact ⟨hholds, hrepresents, ih.represented⟩
    | flushes =>
      rw [heffect] at hrepresents
      exact ⟨hholds, .refl g _, hrepresents (hheirs heffect)⟩
    | clears =>
      rw [heffect] at hrepresents
      exact ⟨hholds, .refl g _, hrepresents⟩

namespace Session

variable {kind : ScoreKind} {g : Graph kind} {past : Network kind} {s s' : Session kind}

/-- Right after a flush every output of a distinct node carries the facts of one of its inputs, and
every output of a grouping the key of one of its inputs, as they are now, provided that members for which
outputs spoke have left heirs where they have left a class or a group that goes on as it is. -/
theorem flush_represents_current (hg : g.Built) (hs : Tended g past s) {count : Nat}
    (hflush : flush s = .ok count s') (hheirs : Network.Bequeaths g past s'.network) :
    Network.Current g s'.network := by
  have h := hs.tends hg.wellFormed
  obtain ⟨h', -, -, hrest⟩ := (flush_spec hg.wellFormed .any (.any g) h.holds).of_ok hflush
  obtain ⟨K, hK⟩ := h'.sourced.consistent
  exact ((flush_represents hg.wellFormed h).of_ok hflush hheirs).current hg.wellFormed hK hrest

/-- Entities that are marked or not. -/
def markable : EntityType := ⟨"Markable", "M", [("mark", .bool false)]⟩

/-- One entity, in one of two versions. -/
def marked (mark : Bool) : Fact := .entity ⟨markable, 1, .given mark.toNat, [("mark", .bool mark)]⟩

/-- The fact is a marked entity. -/
def isMarked : Fact → Bool
  | .entity e => e.read "mark" == .bool true
  | _ => false

/-- The declarations of a graph where every entity comes into its class as it is, and once more while it
is marked. The classes are grouped by their entities and counted. -/
def markedTwice : List (Declaration .simple) :=
  [.forEach (.entity markable) false,
    .filter (some ⟨1⟩) ⟨.given 0, fun facts => .ok (facts.all isMarked)⟩,
    .concat (some ⟨1⟩) (some ⟨2⟩), .distinct (some ⟨3⟩),
    .group (some ⟨4⟩) (some ⟨.given 1, fun facts => .ok (facts.headD (.list []))⟩) (some .count),
    .charge (some ⟨5⟩) "" (.simple 1) .penalty none]

/-- The graph of `markedTwice`. -/
def markedTwiceGraph : Graph .simple := (Blueprint.declare markedTwice {}).prune

/-- A session that took a marked entity in. -/
@[irreducible] def takenIn : Session .simple :=
  (Action.outcome? (Call.run (.insert [marked true])) (new markedTwiceGraph {})).get (by decide +kernel)

/-- And propagated it. -/
@[irreducible] def settledMarked : Session .simple :=
  (Action.outcome? (Call.run .flush) takenIn).get (by decide +kernel)

/-- Then the entity was unmarked: of the two members of its class one is to leave, and the other one is
to change where it is. -/
@[irreducible] def unmarked : Session .simple :=
  (Action.outcome? (Call.run (.update [marked false])) settledMarked).get (by decide +kernel)

/-- And that was propagated, too. -/
@[irreducible] def settledUnmarked : Session .simple :=
  (Action.outcome? flush unmarked).get (by decide +kernel)

theorem run_takenIn : Call.run (.insert [marked true]) (new markedTwiceGraph {}) = .ok () takenIn := by
  unfold takenIn
  exact Action.eq_ok_outcome _

theorem run_settledMarked : Call.run .flush takenIn = .ok () settledMarked := by
  unfold settledMarked
  exact Action.eq_ok_outcome _

theorem run_unmarked : Call.run (.update [marked false]) settledMarked = .ok () unmarked := by
  unfold unmarked
  exact Action.eq_ok_outcome _

theorem flush_unmarked : ∃ count, flush unmarked = .ok count settledUnmarked := by
  unfold settledUnmarked
  exact Action.outcome?_eq_some_iff.1 (Option.some_get _).symm

theorem tended_unmarked : Tended markedTwiceGraph settledMarked.network unmarked := by
  have htakenIn := Tended.done _ (.opened (g := markedTwiceGraph) {}) run_takenIn fun h => by cases h
  have hsettled : Tended markedTwiceGraph settledMarked.network settledMarked :=
    .done _ htakenIn run_settledMarked fun _ => Network.bequeaths_reset _ _ _
  have heffect : (.update [marked false] : Call .simple).effect settledMarked.config = .waits := by
    decide +kernel
  have hunmarked := Tended.done _ hsettled run_unmarked fun h => by
    rw [heffect] at h
    cases h
  rw [if_pos heffect] at hunmarked
  exact hunmarked

/-- The class goes on without the member that has left, and shows the one that has changed. -/
theorem flush_represents_current_unmarked : markedTwiceGraph.Built ∧
    Tended markedTwiceGraph settledMarked.network unmarked ∧
    ∃ count, flush unmarked = .ok count settledUnmarked ∧
      Network.Bequeaths markedTwiceGraph settledMarked.network settledUnmarked.network ∧
      Network.Current markedTwiceGraph settledUnmarked.network ∧
      settledMarked.network.factsOf ⟨3, 0⟩ = some [marked true] ∧
      settledUnmarked.network.factsOf ⟨3, 0⟩ = some [marked false] ∧
      settledUnmarked.network.factsOf ⟨4, 0⟩ = some [marked false, .size 1] := by
  have hbuilt : markedTwiceGraph.Built := ⟨markedTwice, rfl⟩
  obtain ⟨count, hflush⟩ := flush_unmarked
  have hheirs : Network.Bequeaths markedTwiceGraph settledMarked.network settledUnmarked.network :=
    Network.bequeaths_of_stays (by decide +kernel)
  exact ⟨hbuilt, tended_unmarked, count, hflush, hheirs,
    flush_represents_current hbuilt tended_unmarked hflush hheirs, by decide +kernel, by decide +kernel,
    by decide +kernel⟩

/-- The declarations of a graph that charges every entity, marked or not, by two ways into one class. -/
def twoWays : List (Declaration .simple) :=
  [.forEach (.entity markable) false,
    .filter (some ⟨1⟩) ⟨.given 0, fun facts => .ok (facts.all isMarked)⟩,
    .filter (some ⟨1⟩) ⟨.given 1, fun facts => .ok (!facts.all isMarked)⟩,
    .concat (some ⟨2⟩) (some ⟨3⟩), .distinct (some ⟨4⟩),
    .charge (some ⟨5⟩) "" (.simple 1) .penalty none]

/-- The graph of `twoWays`. -/
def twoWaysGraph : Graph .simple := (Blueprint.declare twoWays {}).prune

/-- An entity came in unmarked, and was marked after a flush. -/
def markCalls : List (Call .simple) :=
  [.insert [marked false], .flush, .update [marked true]]

theorem markCalls_flushes :
    (Call.replay markCalls (new twoWaysGraph {})).1.all Except.isOk = true ∧
    Action.attains flush (Call.replay markCalls (new twoWaysGraph {})).2 (fun count s' => count == 3 &&
      match s'.network.agenda.find? ⟨2, 0⟩ with
      | some t => t.node == ⟨5⟩ && t.facts == [marked false] &&
        s'.network.agenda.tuples.live.entries.all fun e =>
          s'.network.shownAt ⟨4⟩ e.1 ≠ some t.facts
      | none => false) = true := by
  decide +kernel

/-- An entity that changes so that it takes the other way into its class leaves the class with the
facts of the version that is gone: the new member comes in before the old one leaves, and the output is
not brought up to date. -/
theorem flush_represents_current_fails : twoWaysGraph.Built ∧
    (Call.replay markCalls (new twoWaysGraph {})).1.all Except.isOk = true ∧
    ∃ s', flush (Call.replay markCalls (new twoWaysGraph {})).2 = .ok 3 s' ∧
      ¬ Network.Current twoWaysGraph s'.network := by
  obtain ⟨hok, hflushes⟩ := markCalls_flushes
  obtain ⟨count, s', hrun, hend⟩ := Action.attains_iff.1 hflushes
  obtain ⟨hcount, houtput⟩ := Bool.and_eq_true_iff.1 hend
  obtain rfl : count = 3 := beq_iff_eq.1 hcount
  refine ⟨⟨twoWays, rfl⟩, hok, s', hrun, fun hcurrent => ?_⟩
  cases ht : s'.network.agenda.find? ⟨2, 0⟩ with
  | none =>
    rw [ht] at houtput
    cases houtput
  | some t =>
    rw [ht] at houtput
    obtain ⟨hwhere, hstale⟩ := Bool.and_eq_true_iff.1 houtput
    have hnode : t.node = ⟨5⟩ := beq_iff_eq.1 (Bool.and_eq_true_iff.1 hwhere).1
    obtain ⟨n, hn, hop, hparents⟩ : ∃ n, twoWaysGraph.nodes.get? ⟨5⟩ = some n ∧
        n.operator = .distinct ∧ n.parents = [⟨4⟩] := ⟨_, rfl, rfl, rfl⟩
    obtain ⟨q, hq, input, hshown⟩ := hcurrent.distinct ht (hnode ▸ hn) hop
    rw [hparents] at hq
    obtain rfl := List.mem_singleton.1 hq
    obtain ⟨u, hu, -⟩ := Network.shownAt_eq_some_iff.1 hshown
    have hother := List.all_eq_true.1 hstale (input, u) (Table.get?_eq_some_iff.1 hu)
    exact of_decide_eq_true hother hshown

end Session

end ConstraintStreams
