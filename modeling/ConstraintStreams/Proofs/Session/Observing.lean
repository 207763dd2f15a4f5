import ConstraintStreams.Proofs.Image.Rebuild

/-!
# Checks only observe

Nothing but the computation of a score looks at the mode of a session, and there the checks of the
mode pass: a flushed network is settled, its ledgers add up, and the score computed from scratch is
the same. What a check itself can fail at is adding up a ledger anew, where the sum may overflow on
the way, and propagating all facts in a single flush, where a limit may be exceeded that no flush of
the session exceeded. Where that does not happen, a run of calls is the same in every mode.
-/

namespace ConstraintStreams

namespace Session

variable {kind : ScoreKind} {α β : Type} {m : CheckMode} {g : Graph kind} {s s' : Session kind}

/-- The session as it would be in another mode. -/
def inMode (m : CheckMode) (s : Session kind) : Session kind :=
  { s with config := { s.config with mode := m } }

/-! ## Only scoring depends on the mode -/

open ConstraintStreams.Action (Commutes)

theorem commutes_onNetwork (x : NetworkAction kind α) : Commutes (inMode m) (onNetwork x) := by
  unfold onNetwork
  refine .within ?_ ?_ x
  · exact fun _ => rfl
  · exact fun _ _ => rfl

theorem commutes_guarded {x : SessionAction kind α} (hx : Commutes (inMode m) x) :
    Commutes (inMode m) (guarded x) := by
  intro s
  have h := hx s
  cases hs : x s with
  | ok a s' =>
    rw [hs] at h
    rw [guarded_ok hs, guarded_ok h]
    rfl
  | error e s' =>
    rw [hs] at h
    rw [guarded_error hs, guarded_error h]
    cases e.poisons <;> rfl

theorem commutes_checkUsable : Commutes (inMode m) (checkUsable : SessionAction kind Unit) :=
  .read (fun _ => rfl) fun s => by
    split
    · exact .throw _
    · exact .pure _

theorem commutes_attach (fact : Fact) :
    Commutes (inMode m) (attach fact : SessionAction kind Unit) := by
  have attachAt : ∀ node, Commutes (inMode m) (attachAt fact node : SessionAction kind _) :=
    fun node => .read (fun _ => rfl) fun s => .bind (.ofExcept _) fun visible => by
      split
      · exact .bind (commutes_onNetwork _) fun _ => .pure _
      · exact .pure _
  exact .read (fun _ => rfl) fun s => .bind (.mapM attachAt _) fun _ => .modify fun _ => rfl

theorem commutes_refreshAt (fact : Fact) (node : NodeId) (tuple : Option TupleId) :
    Commutes (inMode m) (refreshAt fact node tuple : SessionAction kind _) :=
  .read (fun _ => rfl) fun s => .bind (.ofExcept _) fun visible => by
    split
    · exact .bind (commutes_onNetwork _) fun _ => .pure _
    · exact .bind (commutes_onNetwork _) fun _ => .pure _
    · exact .bind (commutes_onNetwork _) fun _ => .pure _
    · exact .pure _

theorem commutes_refreshTuples (fact old : Fact) (done tuples : List (NodeId × Option TupleId)) :
    Commutes (inMode m) (refreshTuples fact old done tuples : SessionAction kind Unit) := by
  induction tuples generalizing done with
  | nil => exact .pure _
  | cons entry rest ih =>
    exact .bind (commutes_refreshAt fact _ _) fun _ => .bind (.modify fun _ => rfl) fun _ => ih _

theorem commutes_refresh (fact : Fact) :
    Commutes (inMode m) (refresh fact : SessionAction kind Unit) :=
  .read (fun _ => rfl) fun s => by
    split
    · exact .throw _
    · exact .bind (commutes_refreshTuples fact _ _ _) fun _ => .modify fun _ => rfl

theorem commutes_detach (key : Fact.Key) :
    Commutes (inMode m) (detach key : SessionAction kind Unit) := by
  refine .get_bind fun s => ?_
  have hfacts : (inMode m s).facts.get? key = s.facts.get? key := rfl
  rw [hfacts]
  cases s.facts.get? key with
  | none => rfl
  | some entry =>
    refine Commutes.set_bind ?_ (.forM (fun id => commutes_onNetwork _) _) _ _
    rfl

theorem commutes_flush : Commutes (inMode m) (flush : SessionAction kind Nat) :=
  .bind commutes_checkUsable fun _ => .read (fun _ => rfl) fun _ =>
    commutes_guarded (commutes_onNetwork _)

theorem commutes_afterChange : Commutes (inMode m) (afterChange : SessionAction kind Unit) :=
  .read (fun _ => rfl) fun s => by
    split
    · exact commutes_flush.discard
    · exact .pure _

theorem commutes_clear : Commutes (inMode m) (clear : SessionAction kind Unit) :=
  .bind commutes_checkUsable fun _ => .bind (.modify fun _ => rfl) fun _ =>
    .read (fun _ => rfl) fun _ => commutes_guarded (commutes_onNetwork _)

theorem commutes_setWeight (id : ConstraintId) (weight : Score kind) :
    Commutes (inMode m) (setWeight id weight) :=
  .bind commutes_checkUsable fun _ => .read (fun _ => rfl) fun s => .bind (.ofExcept _) fun p => by
    split
    · exact .throw _
    · exact .bind (commutes_onNetwork _) fun _ => .modify fun _ => rfl

theorem commutes_matchTotals :
    Commutes (inMode m) (matchTotals : SessionAction kind (List (MatchTotal kind))) :=
  .bind commutes_flush.discard fun _ => commutes_guarded (.read (fun _ => rfl) fun _ => .ofExcept _)

/-- A call that does not compute the score does the same in every mode. -/
theorem commutes_run (c : Call kind) (hc : c.scores = false) : Commutes (inMode m) c.run := by
  cases c with
  | insert facts =>
    exact .bind commutes_checkUsable fun _ => .read (fun _ => rfl) fun _ => .bind (.ofExcept _)
      fun _ => .bind (.ofExcept _) fun _ => .bind (commutes_guarded (.forM commutes_attach facts))
        fun _ => commutes_afterChange
  | update facts =>
    exact .bind commutes_checkUsable fun _ => .read (fun _ => rfl) fun _ => .bind (.ofExcept _)
      fun _ => .bind (commutes_guarded (.forM commutes_refresh facts)) fun _ => commutes_afterChange
  | retract keys =>
    exact .bind commutes_checkUsable fun _ => .read (fun _ => rfl) fun _ => .bind (.ofExcept _)
      fun _ => .bind (commutes_guarded (.forM commutes_detach keys)) fun _ => commutes_afterChange
  | flush => exact commutes_flush.discard
  | calculateScore => cases hc
  | clear => exact commutes_clear
  | setWeight id weight => exact commutes_setWeight id weight
  | matchTotals => exact commutes_matchTotals.discard
  | indictments => exact .discard (.bind commutes_matchTotals fun _ => .pure _)
  | indictmentOf key =>
    exact .discard (.bind (.bind commutes_matchTotals fun _ => .pure _) fun _ => .pure _)
  | explain => cases hc

end Session

/-! ## The checks pass -/

namespace Network

variable {kind : ScoreKind} {g : Graph kind} {net : Network kind}

/-- Where every match is of a settled tuple, the matches add up to what the ledger says. -/
theorem sumOfMatches_ok {c : Constraint kind} {entries : List (TupleId × Entry kind)}
    {start total : Score kind} (hsettled : ∀ e ∈ entries, net.agenda.Settled e.1)
    (hsum : Ledger.addAll start (entries.map Prod.snd) = some total) :
    net.sumOfMatches c entries start = .ok total := by
  induction entries generalizing start with
  | nil =>
    cases hsum
    rfl
  | cons e rest ih =>
    obtain ⟨id, entry⟩ := e
    obtain ⟨next, hadd, hrest⟩ := Option.bind_eq_some_iff.1 hsum
    obtain ⟨t, ht, hstage⟩ := hsettled (id, entry) List.mem_cons_self
    have hlive : net.agenda.stage id = .ok .settled := by
      simp [Agenda.stage, Agenda.tuple, TupleStore.get_eq_ok ht, hstage, pure, Except.pure, bind,
        Except.bind]
    unfold sumOfMatches
    rw [hlive]
    simp only [bind, Except.bind, Stage.isLive, Bool.not_true, Bool.false_eq_true, if_false, hadd]
    exact ih (fun e he => hsettled e (List.mem_cons_of_mem _ he)) hrest

/-- The matches of every constraint can be added up again, in the order in which the hash map of a
ledger hands out its entries. -/
def Summable (net : Network kind) : Prop :=
  ∀ p l, net.ledger? p = some l →
    (Ledger.addAll .zero ((l.entries.inOrder net.agenda.hashOrder.tuples).map Prod.snd)).isSome = true

/-- A settled network passes all checks, if its matches can be added up. -/
theorem Settled.validate (h : Settled g net) (hg : g.WellFormed) (hsums : net.Summable) :
    net.validate g = .ok () := by
  have hqueues : net.checkQueues = .ok () := if_pos h.pending
  have hstages : net.checkStages = .ok () := by
    unfold checkStages
    rw [List.find?_eq_none.2]
    rintro ⟨id, t⟩ hmem
    rw [TupleStore.toList, List.mem_mergeSort] at hmem
    simpa using h.stages (Table.get?_eq_some_iff.2 hmem)
  have hrefreshed : net.checkRefreshed = .ok () := by
    unfold checkRefreshed
    rw [List.find?_eq_none.2]
    rintro ⟨p, m⟩ hmem
    simpa using h.refreshed (Table.get?_eq_some_iff.2 hmem)
  have hledger : ∀ p ∈ g.constraints, net.checkLedger g p = .ok () := by
    intro p hp
    obtain ⟨n, c, hn, hc⟩ := hg.constraints p hp
    have hat : g.constraintAt p = .ok c := Graph.constraintAt_eq_ok.2 ⟨n, hn, hc⟩
    unfold checkLedger
    cases hl : net.ledger? p with
    | none => rfl
    | some l =>
      obtain ⟨total, htotal⟩ := Option.isSome_iff_exists.1 (hsums p l hl)
      have hperm := l.entries.inOrder_perm net.agenda.hashOrder.tuples
      have hsum : net.sumOfMatches c (l.entries.inOrder net.agenda.hashOrder.tuples) .zero
          = .ok total := by
        refine sumOfMatches_ok (fun e he => h.matched hl ?_) htotal
        rw [Table.contains_iff]
        exact List.mem_map_of_mem (hperm.mem_iff.1 he)
      have hexact : total = l.total := by
        refine Score.ext fun i => ?_
        rw [Ledger.level_addAll htotal i, h.totals hl i]
        exact ((hperm.map Prod.snd).map _).sum_eq
      simp only [hat, hsum, hexact, bind, Except.bind, ne_eq, not_true_eq_false, if_false]
      rfl
  unfold Network.validate
  rw [hqueues, hstages, hrefreshed]
  show g.constraints.forM (net.checkLedger g) = .ok ()
  generalize g.constraints = constraints at hledger
  induction constraints with
  | nil => rfl
  | cons p rest ih =>
    show (net.checkLedger g p >>= fun _ => rest.forM (net.checkLedger g)) = _
    rw [hledger p List.mem_cons_self]
    exact ih fun q hq => hledger q (List.mem_cons_of_mem _ hq)

end Network

namespace Session

variable {kind : ScoreKind} {m : CheckMode} {g : Graph kind} {s s' : Session kind}
  {score : Score kind}

/-- What the checks of a mode set out to compute exists, in the order of the hash maps of the session:
the matches of every constraint can be added up again, and the facts have a score in a network of their
own. -/
structure Checkable (m : CheckMode) (s : Session kind) : Prop where
  sums : m ≠ .production → s.network.Summable
  rebuilt : m = .fullAssert → ∃ score, s.rebuild = .ok score

/-- The bookkeeping of a flushed session is in order. -/
theorem validate_ok (hg : g.WellFormed) (h : Holds g s) (hhoused : Housed g s)
    (hrest : Network.AtRest g s.network) (hsums : s.network.Summable) :
    s.network.validate s.graph = .ok () := by
  have hgraph := h.graph
  subst hgraph
  obtain ⟨K, hK⟩ := h.sourced.consistent
  exact (hK.settled hrest hhoused.memories).validate hg hsums

/-- The checks of a flushed session pass if they can be carried through. -/
theorem selfCheck_ok (hg : g.WellFormed) (hlaw : g.Lawful) (h : Holds g s) (hhoused : Housed g s)
    (hrest : Network.AtRest g s.network) (hvalues : Network.DistinctValues g s.network)
    (hscore : s.network.score g = .ok score) (hcheckable : s.Checkable m) :
    (s.inMode m).selfCheck score = .ok () := by
  cases m with
  | production => rfl
  | fastAssert => exact validate_ok (s := s) hg h hhoused hrest (hcheckable.sums (by simp))
  | fullAssert =>
    have hvalidate := validate_ok hg h hhoused hrest (hcheckable.sums (by simp))
    obtain ⟨rebuilt, hrebuilt⟩ := hcheckable.rebuilt rfl
    have hsame : rebuilt = score := h.rebuild_eq hg hlaw hrest hvalues hscore hrebuilt
    show (do s.network.validate s.graph; (s.inMode .fullAssert).checkAgainstRebuild score) = _
    rw [hvalidate]
    show (s.rebuild >>= fun rebuilt => _) = _
    rw [hrebuilt, hsame]
    simp only [bind, Except.bind, ne_eq, not_true_eq_false, if_false]
    rfl

/-- A check against a score that cannot be computed anew fails. -/
theorem selfCheck_error {e : Error} (hvalidate : s.network.validate s.graph = .ok ())
    (hrebuild : s.rebuild = .error e) : (s.inMode .fullAssert).selfCheck score = .error e := by
  show (do s.network.validate s.graph; (s.inMode .fullAssert).checkAgainstRebuild score) = _
  rw [hvalidate]
  show (s.rebuild >>= fun rebuilt => _) = _
  rw [hrebuild]
  rfl

/-! ## Runs in two modes -/

open ConstraintStreams.Action (Commutes)

/-- What comes of computing a score once the session is flushed. -/
theorem calculateScore_of_flush {n : Nat} (hflush : flush s = .ok n s') :
    calculateScore s = match s'.network.score s'.graph with
      | .error e => .error e s'
      | .ok score => match s'.selfCheck score with
        | .ok () => .ok score s'
        | .error e => .error e (if e.poisons then { s' with poisoned := true } else s') := by
  have hflushed : discard flush s = .ok ⟨⟩ s' := Action.map_ok hflush
  unfold calculateScore
  rw [Action.bind_ok hflushed, Action.bind_ok (Action.get_eq s')]
  cases s'.network.score s'.graph with
  | error e => rfl
  | ok score =>
    show (guarded (Action.ofExcept (s'.selfCheck score)) >>= fun _ => pure score) s' = _
    dsimp only
    cases s'.selfCheck score with
    | ok u =>
      rw [Action.bind_ok (guarded_ok (x := Action.ofExcept (.ok u)) rfl)]
      rfl
    | error e =>
      rw [Action.bind_error (guarded_error (x := Action.ofExcept (.error e)) rfl)]

/-- In a mode with checks, a score that production computes is checked as well. -/
theorem calculateScore_inMode (hproduction : s.config.mode = .production) :
    calculateScore (s.inMode m) = match calculateScore s with
      | .error e s' => .error e (s'.inMode m)
      | .ok score s' => match (s'.inMode m).selfCheck score with
        | .ok () => .ok score (s'.inMode m)
        | .error e => .error e (if e.poisons then { s'.inMode m with poisoned := true }
            else s'.inMode m) := by
  have hcommutes := commutes_flush (m := m) s
  cases hflush : flush s with
  | error e s' =>
    rw [hflush] at hcommutes
    have hfails : calculateScore s = .error e s' := Action.bind_error (Action.map_error hflush)
    have hfails' : calculateScore (s.inMode m) = .error e (s'.inMode m) :=
      Action.bind_error (Action.map_error hcommutes)
    rw [hfails, hfails']
  | ok n s' =>
    rw [hflush] at hcommutes
    obtain ⟨-, hconfig⟩ := (keepsStanding_flush s).of_ok hflush
    have hchecks : ∀ score, s'.selfCheck score = .ok () := by
      intro score
      unfold selfCheck
      rw [hconfig, hproduction]
    rw [calculateScore_of_flush hflush, calculateScore_of_flush hcommutes]
    show (match s'.network.score s'.graph with | .error e => _ | .ok score => _) = _
    cases s'.network.score s'.graph with
    | error e => rfl
    | ok score => simp only [hchecks]

/-- Where the checks of a mode pass, the mode makes no difference to the score. -/
theorem calculateScore_commutes (hproduction : s.config.mode = .production)
    (hpass : ∀ score s', calculateScore s = .ok score s' → (s'.inMode m).selfCheck score = .ok ()) :
    calculateScore (s.inMode m) = Action.mapState (inMode m) (calculateScore s) := by
  rw [calculateScore_inMode hproduction]
  cases hscore : calculateScore s with
  | error e s' => rfl
  | ok score s' =>
    simp only [hpass score s' hscore]
    rfl

/-- A call does the same in a mode whose checks pass wherever the call computes the score. -/
theorem run_inMode (hproduction : s.config.mode = .production) (c : Call kind)
    (hpass : c.scores = true → ∀ score s', calculateScore s = .ok score s' →
      (s'.inMode m).selfCheck score = .ok ()) :
    c.run (s.inMode m) = Action.mapState (inMode m) (c.run s) := by
  cases c with
  | calculateScore => exact Commutes.map_at (calculateScore_commutes hproduction (hpass rfl)) _
  | explain =>
    exact Commutes.map_at (Commutes.bind_at (calculateScore_commutes hproduction (hpass rfl))
      fun _ s' _ => Commutes.bind commutes_matchTotals (fun _ => .pure _) s') _
  | _ => exact commutes_run _ rfl s

/-- A call leaves a session in production in production. -/
theorem run_production (hproduction : s.config.mode = .production) (c : Call kind) :
    Action.Ends c.run s (fun _ s' => s'.config.mode = .production)
      fun s' => s'.config.mode = .production := by
  have hself : s.inMode .production = s := by
    rw [← hproduction]
    rfl
  -- The end of the call is the same with its mode set to what it is.
  have h := run_inMode (m := .production) hproduction c fun _ _ _ _ => rfl
  rw [hself] at h
  unfold Action.Ends
  cases hrun : c.run s with
  | ok a s' =>
    rw [hrun] at h
    injection h with _ hs
    rw [hs]
    rfl
  | error e s' =>
    rw [hrun] at h
    injection h with _ hs
    rw [hs]
    rfl

/-- The session is in production, and either refuses all calls or is as calls leave it. -/
structure Sane (g : Graph kind) (s : Session kind) : Prop where
  production : s.config.mode = .production
  standing : s.poisoned = true ∨ Holds g s ∧ Housed g s

end Session

namespace Call

variable {kind : ScoreKind} {m : CheckMode} {g : Graph kind} {s s' : Session kind} {c : Call kind}

/-- A call that fails is refused before it changes anything, or else poisons the session; and where a
score is computed, the checks of the mode can be carried through. -/
structure Observable (g : Graph kind) (m : CheckMode) (c : Call kind) (s : Session kind) : Prop where
  orderly : ∀ {e s'}, c.run s = .error e s' → s' = s ∨ s'.poisoned = true
  checkable : ∀ {score s'}, c.scores = true → Session.calculateScore s = .ok score s' →
    s'.Checkable m ∧ Network.DistinctValues g s'.network

/-- Something holds of every call of a run and the session that it is made on. -/
def Along (P : Call kind → Session kind → Prop) : List (Call kind) → Session kind → Prop
  | [], _ => True
  | c :: rest, s => P c s ∧
    match c.run s with
    | .ok _ s' | .error _ s' => Along P rest s'

end Call

namespace Session

variable {kind : ScoreKind} {m : CheckMode} {g : Graph kind} {s s' : Session kind} {c : Call kind}
  {score : Score kind}

/-- Only a usable session has its score computed, and it stays usable. -/
theorem usable_of_calculateScore (hscore : calculateScore s = .ok score s') :
    s.poisoned = false ∧ s'.poisoned = false := by
  have husable : s.poisoned = false := by
    cases hp : s.poisoned with
    | false => rfl
    | true =>
      have hrefused := run_of_poisoned hp .calculateScore
      rw [show Call.run .calculateScore s = .ok () s' from Action.map_ok hscore] at hrefused
      cases hrefused
  exact ⟨husable, ((keepsStanding_calculateScore s).of_ok hscore).1.trans husable⟩

/-- A sane session whose score was computed is flushed, and the score is that of its network. -/
theorem Sane.scored (hg : g.WellFormed) (h : s.Sane g) (hscore : calculateScore s = .ok score s') :
    Holds g s' ∧ Housed g s' ∧ Network.AtRest g s'.network ∧ s'.network.score g = .ok score := by
  obtain ⟨hholds, hhoused⟩ := h.standing.resolve_left
    (by rw [(usable_of_calculateScore hscore).1]; simp)
  obtain ⟨hholds', -, -, hrest, hscore'⟩ := (calculateScore_spec hg .any (.any g)
    (fun _ _ _ _ _ => trivial) hholds).of_ok hscore
  have hkeeps : Action.Keeps (Housed g) (Call.run .calculateScore) :=
    keeps_computing (fun _ h => ⟨h.graph, h.memories⟩) keepsHoused_flush rfl
  exact ⟨hholds', (hkeeps s hhoused).of_ok (Action.map_ok hscore), hrest, hscore'⟩

/-- Where the checks can be carried through, they pass. -/
theorem Sane.pass (hg : g.WellFormed) (hlaw : g.Lawful) (h : s.Sane g) (hc : c.Observable g m s)
    (hscores : c.scores = true) (hscore : calculateScore s = .ok score s') :
    (s'.inMode m).selfCheck score = .ok () := by
  obtain ⟨hholds, hhoused, hrest, hscore'⟩ := h.scored hg hscore
  obtain ⟨hcheckable, hvalues⟩ := hc.checkable hscores hscore
  exact selfCheck_ok hg hlaw hholds hhoused hrest hvalues hscore' hcheckable

/-- A call keeps a session sane. -/
theorem Sane.run (hg : g.WellFormed) (h : s.Sane g) (hc : c.Observable g m s) :
    Action.Ends c.run s (fun _ s' => s'.Sane g) fun s' => s'.Sane g := by
  have hproduction := run_production h.production c
  unfold Action.Ends
  cases hrun : c.run s with
  | ok a s' =>
    refine ⟨hproduction.of_ok hrun, .inr ?_⟩
    have husable : ¬ s.poisoned = true := fun hp => by
      rw [run_of_poisoned hp c] at hrun
      cases hrun
    obtain ⟨hholds, hhoused⟩ := h.standing.resolve_left husable
    exact ⟨(run_spec hg .any (.any g) hholds c fun _ _ _ _ _ _ => trivial).of_ok hrun,
      (keepsHoused_run c s hhoused).of_ok hrun⟩
  | error e s' =>
    rcases hc.orderly hrun with rfl | hpoisoned
    · exact h
    · exact ⟨hproduction.of_error hrun, .inl hpoisoned⟩

/-- A run of calls does the same in a mode whose checks can be carried through. -/
theorem Sane.replay (hg : g.WellFormed) (hlaw : g.Lawful) (h : s.Sane g) {calls : List (Call kind)}
    {last : Call kind} (hcalls : Call.Along (Call.Observable g m) (calls ++ [last]) s) :
    Call.replay calls (s.inMode m) =
        ((Call.replay calls s).1, (Call.replay calls s).2.inMode m) ∧
      (Call.replay calls s).2.Sane g ∧ last.Observable g m (Call.replay calls s).2 := by
  induction calls generalizing s with
  | nil => exact ⟨rfl, h, hcalls.1⟩
  | cons c rest ih =>
    obtain ⟨hc, hrest⟩ := hcalls
    have hmode := run_inMode h.production c fun hscores _ _ => h.pass hg hlaw hc hscores
    have hends := h.run hg hc
    unfold Call.replay
    cases hrun : c.run s with
    | ok a s' =>
      rw [hrun] at hmode hrest
      obtain ⟨hreplay, hsane, hlast⟩ := ih (hends.of_ok hrun) hrest
      rw [hmode]
      simp only [Action.mapState, hreplay]
      exact ⟨trivial, hsane, hlast⟩
    | error e s' =>
      rw [hrun] at hmode hrest
      obtain ⟨hreplay, hsane, hlast⟩ := ih (hends.of_error hrun) hrest
      rw [hmode]
      simp only [Action.mapState, hreplay]
      exact ⟨trivial, hsane, hlast⟩

/-- The checks of a mode change nothing, in whichever order the hash maps hand out what they hold: a run
of calls ends call by call as it does in production, comes to the same score, and the session stays
usable, as long as the checks can be carried through in that order. -/
theorem modes_observe (hbuilt : g.Built) (hlaw : g.Lawful) {config : Config}
    (hproduction : config.mode = .production) (order : TupleStore → HashOrder)
    (calls : List (Call kind))
    (hcalls : Call.Along (Call.Observable g m) (calls ++ [.calculateScore]) (new g config order))
    (hscore : calculateScore (Call.replay calls (new g config order)).2 = .ok score s') :
    (Call.replay calls (new g { config with mode := m } order)).1 =
        (Call.replay calls (new g config order)).1 ∧
      calculateScore (Call.replay calls (new g { config with mode := m } order)).2
        = .ok score (s'.inMode m) ∧ (s'.inMode m).poisoned = false := by
  have hg := hbuilt.wellFormed
  have hsane : (new g config order).Sane g :=
    ⟨hproduction, .inr ⟨new_holds g config order, rfl, Network.housed_reset _ _⟩⟩
  obtain ⟨hreplay, hsane', hlast⟩ := hsane.replay hg hlaw hcalls
  have hmode := calculateScore_commutes (m := m) hsane'.production fun _ _ =>
    hsane'.pass hg hlaw hlast rfl
  rw [hscore] at hmode
  rw [show new g { config with mode := m } order = (new g config order).inMode m from rfl, hreplay]
  exact ⟨rfl, hmode, (usable_of_calculateScore hscore).2⟩

/-- Decides that the matches of every constraint can be added up again. -/
def isSummable (s : Session kind) : Bool :=
  s.network.memories.entries.all fun e => e.2.ledger?.all fun l =>
    (Ledger.addAll .zero ((l.entries.inOrder s.hashOrder.tuples).map Prod.snd)).isSome

theorem summable_of_isSummable (h : s.isSummable = true) : s.network.Summable := by
  intro p l hl
  obtain ⟨memory, hmemory, hledger⟩ := Option.bind_eq_some_iff.1 hl
  have hall := List.all_eq_true.1 h (p, memory) (Table.get?_eq_some_iff.1 hmemory)
  rw [hledger] at hall
  exact hall

/-- Decides that the checks of all modes can be carried through, and that only scalars come to the
distinct nodes. -/
def isCheckable (g : Graph kind) (s : Session kind) : Bool :=
  s.isSummable && s.rebuild.isOk &&
  decide (∀ e ∈ g.nodes.entries, e.2.operator.isDistinct = true →
    ∀ r ∈ s.network.inputs e.2.parents .only, ∀ a ∈ r, a.isScalar = true)

theorem checkable_of_isCheckable (h : s.isCheckable g = true) :
    s.Checkable m ∧ Network.DistinctValues g s.network := by
  obtain ⟨hrest, hscalars⟩ := Bool.and_eq_true_iff.1 h
  obtain ⟨hsums, hrebuild⟩ := Bool.and_eq_true_iff.1 hrest
  refine ⟨⟨fun _ => summable_of_isSummable hsums, fun _ => ?_⟩,
    distinctValues_of_scalars (of_decide_eq_true hscalars)⟩
  cases hok : s.rebuild with
  | ok score => exact ⟨score, rfl⟩
  | error e =>
    rw [hok] at hrebuild
    cases hrebuild

/-- Decides that all calls of a run succeed, and that checks can be carried through at the scores. -/
def isObservable (g : Graph kind) : List (Call kind) → Session kind → Bool
  | [], _ => true
  | c :: rest, s =>
    match c.run s with
    | .ok _ s' => isObservable g rest s' && (!c.scores ||
      match calculateScore s with
      | .ok _ s' => s'.isCheckable g
      | .error _ _ => true)
    | .error _ _ => false

theorem along_of_isObservable {calls : List (Call kind)} (h : isObservable g calls s = true) :
    Call.Along (Call.Observable g m) calls s := by
  induction calls generalizing s with
  | nil => trivial
  | cons c rest ih =>
    unfold isObservable at h
    unfold Call.Along
    cases hrun : c.run s with
    | error e s' =>
      rw [hrun] at h
      cases h
    | ok a s' =>
      rw [hrun] at h
      obtain ⟨hrest, hcheck⟩ := Bool.and_eq_true_iff.1 h
      refine ⟨⟨fun hfails => ?_, fun hscores hscore => ?_⟩, ih hrest⟩
      · rw [hrun] at hfails
        cases hfails
      · rw [hscores, hscore] at hcheck
        exact checkable_of_isCheckable hcheck

/-- The declarations of a graph that charges every pair of different facts of a type. -/
def distinctPairs : List (Declaration .simple) :=
  [.forEach (.scalar .bool) false, .distinct (some ⟨1⟩), .join (some ⟨2⟩) (some ⟨2⟩) [],
    .charge (some ⟨3⟩) "" (.simple 1) .penalty none]

/-- The graph of `distinctPairs`. -/
def distinctPairGraph : Graph .simple := (Blueprint.declare distinctPairs {}).prune

theorem lawful_distinctPairGraph : distinctPairGraph.Lawful := by
  apply Graph.lawful_of_entries
  refine List.forall_mem_cons.2 ⟨trivial, List.forall_mem_cons.2 ⟨trivial, List.forall_mem_cons.2
    ⟨?_, List.forall_mem_cons.2 ⟨?_, fun _ h => by cases h⟩⟩⟩⟩
  · exact fun j hj => by cases hj
  · exact fun f h => by cases h

/-- A fact joins another, and leaves it alone after the score was computed. -/
def observedCalls : List (Call .simple) :=
  [.insert [.scalar (.bool true), .scalar (.bool false)], .calculateScore,
    .retract [(Fact.scalar (.bool true)).key]]

/-- Hash maps that hand out last what came first. -/
def backwards : TupleStore → HashOrder := fun _ =>
  { tuples := ⟨List.reverse, List.reverse_perm⟩, groups := ⟨List.reverse, List.reverse_perm⟩,
    facts := ⟨List.reverse, List.reverse_perm⟩, constraints := ⟨List.reverse, List.reverse_perm⟩ }

/-- A session of a mode before these calls. -/
def observed (mode : CheckMode) : Session .simple := new distinctPairGraph { mode } backwards

theorem isObservable_observedCalls :
    isObservable distinctPairGraph (observedCalls ++ [.calculateScore]) (observed .production)
      = true := by
  decide +kernel

theorem observedCalls_score : Action.answers calculateScore
    (Call.replay observedCalls (observed .production)).2 (· == .simple (-1)) = true := by
  decide +kernel

theorem modes_observe_pairs : distinctPairGraph.Built ∧ distinctPairGraph.Lawful ∧
    Call.Along (Call.Observable distinctPairGraph .fullAssert) (observedCalls ++ [.calculateScore])
      (observed .production) ∧
    ∃ s', calculateScore (Call.replay observedCalls (observed .production)).2
        = .ok (.simple (-1)) s' ∧
      calculateScore (Call.replay observedCalls (observed .fullAssert)).2
        = .ok (.simple (-1)) (s'.inMode .fullAssert) := by
  have hbuilt : distinctPairGraph.Built := ⟨distinctPairs, rfl⟩
  have hcalls : Call.Along (Call.Observable distinctPairGraph .fullAssert)
      (observedCalls ++ [.calculateScore]) (observed .production) :=
    along_of_isObservable isObservable_observedCalls
  obtain ⟨score, s', hscore, heq⟩ := Action.answers_iff.1 observedCalls_score
  obtain rfl := beq_iff_eq.1 heq
  exact ⟨hbuilt, lawful_distinctPairGraph, hcalls, s', hscore,
    (modes_observe hbuilt lawful_distinctPairGraph rfl backwards observedCalls hcalls hscore).2.1⟩

/-- The declarations of a graph that charges every fact of a type. -/
def charges : List (Declaration .simple) :=
  [.forEach (.scalar .bool) false, .charge (some ⟨1⟩) "" (.simple 1) .penalty none]

/-- The graph of `charges`. -/
def chargedGraph : Graph .simple := (Blueprint.declare charges {}).prune

theorem lawful_chargedGraph : chargedGraph.Lawful := by
  apply Graph.lawful_of_entries
  refine List.forall_mem_cons.2 ⟨trivial, List.forall_mem_cons.2 ⟨?_, fun _ h => by cases h⟩⟩
  exact fun f h => by cases h

theorem distinctValues_chargedGraph (net : Network .simple) :
    Network.DistinctValues chargedGraph net := by
  intro p n hn hdistinct
  have h : ∀ e ∈ chargedGraph.nodes.entries, e.2.operator ≠ .distinct := by
    refine List.forall_mem_cons.2 ⟨?_, List.forall_mem_cons.2 ⟨?_, fun _ h => by cases h⟩⟩
    · exact fun h => by cases h
    · exact fun h => by cases h
  exact absurd hdistinct (h _ (Table.get?_eq_some_iff.1 hn))

/-- A single delivery is allowed in a flush. -/
def sparing (mode : CheckMode) : Config :=
  { mode, limits := { maxOperationsPerFlush := 1 } }

/-- Two facts come in one after the other, with a flush between them. -/
def sparingCalls : List (Call .simple) :=
  [.insert [.scalar (.bool true)], .calculateScore, .insert [.scalar (.bool false)]]

theorem isObservable_sparingCalls :
    isObservable chargedGraph (sparingCalls ++ [.flush]) (new chargedGraph (sparing .production))
      = true := by
  decide +kernel

/-- The ledgers add up again, but the one flush of the rebuilt network exceeds the limit. -/
theorem sparingCalls_rebuild :
    Action.attains calculateScore (Call.replay sparingCalls (new chargedGraph (sparing .production))).2
      (fun score s' => score == .simple (-2) && s'.isSummable &&
        match s'.rebuild with
        | .ok _ => false
        | .error e => e.poisons) = true := by
  decide +kernel

/-- Where each flush of a session keeps to the limits, the one flush that propagates all facts anew
may not; then the check poisons a session whose score production computes. -/
theorem modes_observe_fails : chargedGraph.Built ∧ chargedGraph.Lawful ∧
    (∀ net, Network.DistinctValues chargedGraph net) ∧
    (∀ mode, (sparing mode).validate = .ok ()) ∧
    (∃ s', calculateScore (Call.replay sparingCalls (new chargedGraph (sparing .production))).2
        = .ok (.simple (-2)) s') ∧
    ∃ e s', calculateScore (Call.replay sparingCalls (new chargedGraph (sparing .fullAssert))).2
        = .error e s' ∧ s'.poisoned = true := by
  have hbuilt : chargedGraph.Built := ⟨charges, rfl⟩
  have hg := hbuilt.wellFormed
  have hsane : (new chargedGraph (sparing .production)).Sane chargedGraph :=
    ⟨rfl, .inr ⟨new_holds _ _ _, rfl, Network.housed_reset _ _⟩⟩
  obtain ⟨hreplay, hsane', -⟩ := hsane.replay (m := .fullAssert) hg lawful_chargedGraph
    (along_of_isObservable isObservable_sparingCalls)
  obtain ⟨score, s', hscore, hend⟩ := Action.attains_iff.1 sparingCalls_rebuild
  obtain ⟨hscored, hpoisons⟩ := Bool.and_eq_true_iff.1 hend
  obtain ⟨hscored, hsums⟩ := Bool.and_eq_true_iff.1 hscored
  obtain rfl := beq_iff_eq.1 hscored
  refine ⟨hbuilt, lawful_chargedGraph, distinctValues_chargedGraph, fun _ => rfl, ⟨s', hscore⟩, ?_⟩
  rw [show new chargedGraph (sparing .fullAssert)
    = (new chargedGraph (sparing .production)).inMode .fullAssert from rfl, hreplay,
    calculateScore_inMode hsane'.production, hscore]
  cases hrebuild : s'.rebuild with
  | ok rebuilt =>
    rw [hrebuild] at hpoisons
    cases hpoisons
  | error e =>
    rw [hrebuild] at hpoisons
    obtain ⟨hholds, hhoused, hrest, -⟩ := hsane'.scored hg hscore
    have hchecks := validate_ok hg hholds hhoused hrest (summable_of_isSummable hsums)
    refine ⟨e, { s'.inMode .fullAssert with poisoned := true }, ?_, rfl⟩
    simp only [selfCheck_error hchecks hrebuild]
    rw [if_pos hpoisons]

end Session

end ConstraintStreams
