import ConstraintStreams.Proofs.Session.AddingUp

/-!
# Where breakdowns stop the program

What a match is charged, the total of a constraint and the score are all checked: a sum that is no
score is reported as an error. What a fact is blamed for is not: there the matches are added up in another
selection and another order, and a sum that is no score stops the program, though all the others can be
added up.
-/

namespace ConstraintStreams

variable {kind : ScoreKind}

/-- For each fact, the scores of the matches that blame it can be added up in the order in which they are
listed. -/
def MatchTotal.Summable (totals : List (MatchTotal kind)) : Prop :=
  ∀ key, (Match.blameSum key (totals.flatMap (·.matches))).isSome

namespace Session

variable {g : Graph kind} {s s' : Session kind} {score : Score kind}
  {totals : List (MatchTotal kind)} {e : Error}

/-- What the three calls answer that break a score down by fact, or that they stop the program. -/
structure BrokenDown (s : Session kind) (score : Score kind) (totals : List (MatchTotal kind))
    (is : Except Trap (List (Indictment kind))) : Prop where
  indictments : ∃ t, indictments s = .ok is t
  indictmentOf : ∀ key, ∃ t, indictmentOf key s =
    .ok (is.map fun is => is.find? fun i => i.fact.key = key) t
  explain : ∃ t, explain s = .ok (is.map fun is => { score, totals, indictments := is }) t

/-- The three calls report an error. -/
structure Reports (s : Session kind) (e : Error) : Prop where
  indictments : ∃ t, indictments s = .error e t
  indictmentOf : ∀ key, ∃ t, indictmentOf key s = .error e t
  explain : ∃ t, explain s = .error e t

/-- Breakdowns have one outcome only. -/
theorem BrokenDown.unique {is is' : Except Trap (List (Indictment kind))}
    (h : s.BrokenDown score totals is) (h' : s.BrokenDown score totals is') : is = is' := by
  obtain ⟨t, ht⟩ := h.indictments
  obtain ⟨t', ht'⟩ := h'.indictments
  cases ht.symm.trans ht'
  rfl

theorem matchTotals_of_flush {count : Nat} (h : flush s = .ok count s') :
    matchTotals s = readTotals s' := by
  rw [matchTotals_eq]
  exact Action.bind_ok (Action.map_ok h)

theorem readTotals_ok (h : s.collectMatchTotals = .ok totals) : readTotals s = .ok totals s :=
  guarded_ok ((Action.bind_ok (Action.get_eq s)).trans (by rw [h]; rfl))

theorem readTotals_error (h : s.collectMatchTotals = .error e) : ∃ t, readTotals s = .error e t :=
  ⟨_, guarded_error ((Action.bind_ok (Action.get_eq s)).trans (by rw [h]; rfl))⟩

/-- Where a score was computed and the totals can be listed, the breakdowns answer what the totals come
to. -/
theorem brokenDown_of_matchTotals {t t' : Session kind} (hscore : calculateScore s = .ok score s')
    (htotals : matchTotals s = .ok totals t) (hagain : matchTotals s' = .ok totals t') :
    s.BrokenDown score totals (indict totals) := by
  have hindictments : indictments s = .ok (indict totals) t := Action.bind_ok htotals
  refine ⟨⟨t, hindictments⟩, fun key => ⟨t, Action.bind_ok hindictments⟩, t', ?_⟩
  exact (Action.bind_ok hscore).trans (Action.bind_ok hagain)

theorem reports_of_matchTotals {t t' : Session kind} (hscore : calculateScore s = .ok score s')
    (htotals : matchTotals s = .error e t) (hagain : matchTotals s' = .error e t') :
    s.Reports e := by
  have hindictments : indictments s = .error e t := Action.bind_error htotals
  refine ⟨⟨t, hindictments⟩, fun key => ⟨t, Action.bind_error hindictments⟩, t', ?_⟩
  exact (Action.bind_ok hscore).trans (Action.bind_error hagain)

/-- The totals of a flushed session in which no propagation has failed can be listed, unless a function
fails that says whom to blame. -/
theorem Unbroken.collects (hg : g.WellFormed) (h : Unbroken g s) {count : Nat}
    (hflush : flush s = .ok count s')
    (hindicters : ∀ node c facts e, g.constraintAt node = .ok c → s'.Matched node facts →
      c.indicted facts ≠ .error e) : ∃ totals, s'.collectMatchTotals = .ok totals := by
  have htracked := h.tracked hg
  obtain ⟨-, net, hnet, rfl⟩ := flush_eq_ok hflush
  rw [htracked.graph] at hnet
  obtain ⟨htracks, -⟩ := htracked.tracks.flushed hg hnet
  cases hcollect : collectMatchTotals { s with network := net } with
  | ok totals => exact ⟨totals, rfl⟩
  | error e =>
    have hnever : False := collectMatchTotals_error (s := { s with network := net })
      (E := fun _ => False) hg htracked.graph htracks.consistent
      (fun hat hmatched he => hindicters _ _ _ _ hat hmatched he) hcollect
    exact hnever.elim

/-- Where a score is computed and no function fails that says whom to blame, the breakdowns by fact answer
if, for each fact, the scores of the matches that blame it can be added up; otherwise they stop the
program. Only where a propagation has failed before may they report an error. -/
theorem breakdowns_stop_iff (hg : g.Built) (config : Config) (order : TupleStore → HashOrder)
    (calls : List (Call kind))
    (hs : (Call.replay calls (new g config order)).2 = s) (hscore : calculateScore s = .ok score s')
    (hindicters : ∀ node c facts e, g.constraintAt node = .ok c → s'.Matched node facts →
      c.indicted facts ≠ .error e) :
    (∃ totals t, matchTotals s = .ok totals t ∧
      ((∃ is, s.BrokenDown score totals (.ok is)) ↔ MatchTotal.Summable totals) ∧
      (s.BrokenDown score totals (.error .addition) ↔ ¬ MatchTotal.Summable totals)) ∨
    (¬ Unbroken g s ∧ ∃ e, s.Reports e) := by
  have h : Accountable g s := hs ▸ (Accountable.opened g config order).replay hg.wellFormed calls
  obtain ⟨count, hflush, -⟩ := calculateScore_eq_ok hscore
  have hfirst := matchTotals_of_flush hflush
  -- A second flush drains nothing, so that the same totals are listed after the score.
  have hsecond := matchTotals_of_flush (h.flush_flush hg.wellFormed hflush)
  cases hcollect : s'.collectMatchTotals with
  | ok totals =>
    have hlisted : matchTotals s = .ok totals s' := hfirst.trans (readTotals_ok hcollect)
    have hbroken := brokenDown_of_matchTotals hscore hlisted (hsecond.trans (readTotals_ok hcollect))
    refine .inl ⟨totals, s', hlisted, ?_⟩
    rcases indict_spec totals with ⟨⟨is, his, -⟩, hsums⟩ | ⟨htrap, key, hsum⟩
    · rw [his] at hbroken
      refine ⟨⟨fun _ => hsums, fun _ => ⟨is, hbroken⟩⟩, ⟨fun hstops => ?_, fun hno => absurd hsums hno⟩⟩
      cases hbroken.unique hstops
    · rw [htrap] at hbroken
      have hno : ¬ MatchTotal.Summable totals := fun hsums => by
        have := hsums key
        rw [hsum] at this
        cases this
      refine ⟨⟨?_, fun hsums => absurd hsums hno⟩, ⟨fun _ => hno, fun _ => hbroken⟩⟩
      rintro ⟨is, hanswers⟩
      cases hbroken.unique hanswers
  | error e =>
    refine .inr ⟨fun hunbroken => ?_, e, ?_⟩
    · obtain ⟨totals, htotals⟩ := Unbroken.collects hg.wellFormed hunbroken hflush hindicters
      cases hcollect.symm.trans htotals
    · obtain ⟨t, ht⟩ := readTotals_error hcollect
      obtain ⟨t', ht'⟩ := readTotals_error
        (s := { s' with network := { s'.network with operations := 0 } }) hcollect
      exact reports_of_matchTotals hscore (hfirst.trans ht) (hsecond.trans ht')

theorem indicted_truthsGraph {node : NodeId} {c : Constraint .hardSoft} (facts : Facts) (e : Error)
    (hat : truthsGraph.constraintAt node = .ok c) : c.indicted facts ≠ .error e := by
  obtain ⟨n, hn, hop⟩ := Graph.constraintAt_eq_ok.1 hat
  have hall : ∀ entry ∈ truthsGraph.nodes.entries, ∀ c, entry.2.operator = .constraint c →
      c.indicted facts ≠ .error e := by
    refine List.forall_mem_cons.2 ⟨?_, List.forall_mem_cons.2 ⟨?_, List.forall_mem_cons.2 ⟨?_,
      List.forall_mem_cons.2 ⟨?_, List.forall_mem_cons.2 ⟨?_, fun _ h => by cases h⟩⟩⟩⟩⟩
    all_goals
      intro c hc
      cases hc <;> exact nofun
  exact hall _ (Table.get?_eq_some_iff.1 hn) c hop

theorem breakdowns_stop_iff_truths : truthsGraph.Built ∧ ∃ s',
    calculateScore (Call.replay truthsCalls (new truthsGraph {})).2 = .ok (.hardSoft (-2) 4) s' ∧
      (∀ node c facts e, truthsGraph.constraintAt node = .ok c → s'.Matched node facts →
        c.indicted facts ≠ .error e) ∧
      ∃ totals is, MatchTotal.Summable totals ∧
        (Call.replay truthsCalls (new truthsGraph {})).2.BrokenDown (.hardSoft (-2) 4) totals (.ok is) := by
  have hbuilt : truthsGraph.Built := ⟨truthsAndPairs, rfl⟩
  obtain ⟨r, t, hexplain, hr⟩ := Action.answers_iff.1 truthsCalls_explained
  cases r with
  | error trap => cases hr
  | ok e =>
    obtain ⟨score, s', totals, hscore, -, he⟩ := explain_eq_ok hexplain
    have hsame : e.score = score := by
      cases hindict : indict totals with
      | error trap => rw [hindict] at he; cases he
      | ok is => rw [hindict] at he; cases he; rfl
    obtain rfl : score = .hardSoft (-2) 4 :=
      hsame.symm.trans (beq_iff_eq.1 (Bool.and_eq_true_iff.1 hr).1)
    have hindicters : ∀ node c facts e, truthsGraph.constraintAt node = .ok c →
        s'.Matched node facts → c.indicted facts ≠ .error e :=
      fun _ _ facts e hat _ => indicted_truthsGraph facts e hat
    refine ⟨hbuilt, s', hscore, hindicters, ?_⟩
    rcases breakdowns_stop_iff hbuilt {} _ truthsCalls rfl hscore hindicters with
      ⟨totals, u, -, hanswers, hstops⟩ | ⟨-, e, hreports⟩
    · have hsums : MatchTotal.Summable totals := by
        by_contra hno
        obtain ⟨u, hu⟩ := (hstops.2 hno).explain
        cases hexplain.symm.trans hu
      obtain ⟨is, his⟩ := hanswers.2 hsums
      exact ⟨totals, is, hsums, his⟩
    · obtain ⟨u, hu⟩ := hreports.explain
      cases hexplain.symm.trans hu

/-- The greatest weight is charged for truths, given back for numbers, and charged for truths again. -/
def cancelling : List (Declaration .simple) :=
  [.forEach (.scalar .bool) false, .forEach (.scalar .int64) false,
    .charge (some ⟨1⟩) "first" (.simple 9223372036854775807) .penalty none,
    .charge (some ⟨2⟩) "second" (.simple 9223372036854775807) .reward none,
    .charge (some ⟨1⟩) "third" (.simple 9223372036854775807) .penalty none]

/-- The graph of `cancelling`. -/
def cancellingGraph : Graph .simple := (Blueprint.declare cancelling {}).prune

/-- A session with a truth and a number. -/
def cancellingSession : Session .simple :=
  (Call.replay [.insert [.scalar (.bool true), .int64 7]] (new cancellingGraph {})).2

/-- The program stopped at a sum. -/
def stopsAtSum {α : Type} : Except Trap α → Bool
  | .error .addition => true
  | _ => false

theorem of_stopsAtSum {α : Type} {x : SessionAction kind (Except Trap α)}
    (h : Action.answers x s stopsAtSum = true) : ∃ t, x s = .ok (.error .addition) t := by
  obtain ⟨r, t, hx, hr⟩ := Action.answers_iff.1 h
  refine ⟨t, hx.trans ?_⟩
  unfold stopsAtSum at hr
  split at hr
  · rfl
  · cases hr

/-- Where the totals of the constraints cancel each other out, what a fact is blamed for need not: then a
score is computed and its breakdowns stop the program. -/
theorem breakdowns_stop : cancellingGraph.Built ∧ Reached cancellingGraph cancellingSession ∧
    (∃ s', calculateScore cancellingSession = .ok (.simple (-9223372036854775807)) s') ∧
    (∃ t, indictments cancellingSession = .ok (.error .addition) t) ∧
    (∃ t, indictmentOf (Fact.scalar (.bool true)).key cancellingSession = .ok (.error .addition) t) ∧
    ∃ t, explain cancellingSession = .ok (.error .addition) t := by
  have hscored : Action.answers calculateScore cancellingSession
      (· == .simple (-9223372036854775807)) = true := by decide +kernel
  obtain ⟨score, s', hscore, heq⟩ := Action.answers_iff.1 hscored
  obtain rfl := beq_iff_eq.1 heq
  have hreached : Reached cancellingGraph cancellingSession :=
    .done (.insert [.scalar (.bool true), .int64 7]) (.opened {}) rfl
  exact ⟨⟨cancelling, rfl⟩, hreached, ⟨s', hscore⟩, of_stopsAtSum (by decide +kernel),
    of_stopsAtSum (by decide +kernel), of_stopsAtSum (by decide +kernel)⟩

end Session

end ConstraintStreams
