import ConstraintStreams.Proofs.Constraint.Charge
import ConstraintStreams.Proofs.Graph.Entering
import ConstraintStreams.Proofs.Session.Accountable
import ConstraintStreams.Proofs.Session.Indicting

/-!
# Explanations add up

The score of an explanation is the sum of the constraints' totals, every total is the sum of its
matches, and every match counts what the weight in force makes of its match weight. It follows from the
ledgers, which balance in every usable session.
-/

namespace ConstraintStreams

variable {kind : ScoreKind}

/-- A score that is computed is what the totals of the ledgers add up to. -/
theorem Network.level_score {g : Graph kind} {net : Network kind} {score : Score kind}
    (h : net.score g = .ok score) (i : Fin kind.depth) :
    score.level i = ((net.ledgers g).map fun l => l.total.level i).sum := by
  have hadd : Score.addUp .zero ((net.ledgers g).map Ledger.total) = some score := by
    refine Score.addUp_of_foldlM (fun sum l next hnext => ?_) h
    split at hnext
    · next hsum =>
      cases hnext
      exact hsum
    · cases hnext
  rw [Score.level_addUp hadd, Score.level_zero, Int.zero_add, List.map_map]
  rfl

namespace Session

variable {g : Graph kind} {s s' : Session kind} {c : Constraint kind} {p : NodeId}

/-! ## By constraint -/

/-- The total of a constraint is broken down into its matches, each counted with the weight in force. -/
structure BreaksDown (s : Session kind) (c : Constraint kind) (t : MatchTotal kind) : Prop where
  constraint_eq : t.constraint = c.id
  weight_eq : s.weight c.id = .ok t.weight
  total_eq : ∀ i, t.total.level i = (t.matches.map (·.score.level i)).sum
  own : ∀ m ∈ t.matches, m.constraint = c.id
  charged : ∀ m ∈ t.matches, ∀ i,
    m.score.level i = t.weight.level i * m.matchWeight.toInt * c.impact.sign.toInt
  indicted : ∀ m ∈ t.matches, c.indicted m.facts = .ok m.indicted

/-- What a match tells of the entry that it is made of. -/
theorem matchOf_eq_ok {id : TupleId} {entry : Entry kind} {m : Match kind}
    (h : s.matchOf c id entry = .ok m) : m.constraint = c.id ∧ m.matchWeight = entry.matchWeight ∧
      m.score = entry.score ∧ c.indicted m.facts = .ok m.indicted := by
  obtain ⟨facts, -, h⟩ := except_bind_eq_ok.1 h
  obtain ⟨indicted, hindicted, h⟩ := except_bind_eq_ok.1 h
  cases h
  exact ⟨rfl, rfl, rfl, hindicted⟩

/-- The total that is listed for a constraint is that of its ledger. -/
theorem Accountable.matchTotal (h : Accountable g s) (husable : s.poisoned = false)
    {t? : Option (MatchTotal kind)} (ht : s.matchTotal? p = .ok t?) :
    ∃ n c l ms, g.nodes.get? p = some n ∧ n.operator = .constraint c ∧
      s.network.ledger? p = some l ∧ l.Balanced c ∧
      (l.entries.inOrder s.hashOrder.tuples).mapM (fun (id, entry) => s.matchOf c id entry) = .ok ms ∧
      t? = some ⟨c.id, l.weight, l.total, Match.sort ms⟩ := by
  unfold matchTotal? at ht
  obtain ⟨c, hc, ht⟩ := except_bind_eq_ok.1 ht
  rw [h.graph] at hc
  obtain ⟨n, hn, hop⟩ := Graph.constraintAt_eq_ok.1 hc
  obtain ⟨l, hl, hbalanced⟩ := (h.accounts husable).balanced hn hop
  rw [hl] at ht
  obtain ⟨ms, hms, ht⟩ := except_bind_eq_ok.1 ht
  cases ht
  exact ⟨n, c, l, ms, hn, hop, hl, hbalanced, hms, rfl⟩

/-- A ledger that balances is broken down into the matches made of its entries, in whichever order. -/
theorem breaksDown_of_balanced {l : Ledger kind} {ms : List (Match kind)} {order : Arrangement TupleId}
    (hnode : s.graph.constraintNode c.id = .ok p) (hl : s.network.ledger? p = some l)
    (hbalanced : l.Balanced c)
    (hms : (l.entries.inOrder order).mapM (fun (id, entry) => s.matchOf c id entry) = .ok ms) :
    s.BreaksDown c ⟨c.id, l.weight, l.total, Match.sort ms⟩ := by
  have hmatch : ∀ m ∈ Match.sort ms, ∃ entry ∈ l.entries.inOrder order,
      s.matchOf c entry.1 entry.2 = .ok m :=
    fun m hm => except_mem_of_mapM hms ((Match.sort_perm ms).mem_iff.1 hm)
  refine ⟨rfl, ?_, fun i => ?_, fun m hm => ?_, fun m hm i => ?_, fun m hm => ?_⟩
  · unfold weight
    rw [hnode]
    simp only [bind, Except.bind, hl]
    rfl
  · have hscores : ms.map (·.score.level i) = (l.entries.inOrder order).map (·.2.score.level i) :=
      except_map_of_mapM (fun entry m hm => by rw [(matchOf_eq_ok hm).2.2.1]) hms
    rw [((Match.sort_perm ms).map _).sum_eq, hscores, hbalanced.total_eq i, Ledger.exactSum,
      Table.values, List.map_map]
    exact ((l.entries.inOrder_perm order).map _).sum_eq.symm
  · obtain ⟨entry, -, hm⟩ := hmatch m hm
    exact (matchOf_eq_ok hm).1
  · obtain ⟨entry, hentry, hm⟩ := hmatch m hm
    obtain ⟨-, hweight, hscore, -⟩ := matchOf_eq_ok hm
    rw [hscore, hweight]
    exact Constraint.level_charge (hbalanced.charged (Table.mem_inOrder.1 hentry)) i
  · obtain ⟨entry, -, hm⟩ := hmatch m hm
    exact (matchOf_eq_ok hm).2.2.2

/-- What is known of the total of every constraint is known of all that are collected. -/
theorem map_collectMatchTotals {γ : Type} {totals : List (MatchTotal kind)} {after : MatchTotal kind → γ}
    {before : NodeId → Option γ}
    (hf : ∀ p t?, s.matchTotal? p = .ok t? → t?.map after = before p)
    (h : s.collectMatchTotals = .ok totals) : totals.map after = s.graph.constraints.filterMap before := by
  obtain ⟨totals?, htotals, h⟩ := except_bind_eq_ok.1 h
  cases h
  have hmap := congrArg (List.filterMap id) (except_map_of_mapM hf htotals)
  rw [List.filterMap_map, List.filterMap_map] at hmap
  rw [List.map_filterMap]
  exact hmap

/-- The totals that are listed are those of all constraints, each broken down, in order. -/
theorem Accountable.collectMatchTotals (hg : g.WellFormed) (h : Accountable g s)
    (husable : s.poisoned = false) {totals : List (MatchTotal kind)}
    (htotals : s.collectMatchTotals = .ok totals) :
    totals.map (·.constraint) = g.constraintIds ∧
      totals.map (·.total) = (s.network.ledgers g).map (·.total) ∧
      ∀ t ∈ totals, ∃ node c, g.constraintNode t.constraint = .ok node ∧
        g.constraintAt node = .ok c ∧ s.BreaksDown c t := by
  have hgraph := h.graph
  refine ⟨?_, ?_, fun t ht => ?_⟩
  · rw [map_collectMatchTotals (fun p t? ht => ?_) htotals, hgraph]
    · rfl
    · obtain ⟨n, c, l, ms, hn, hop, -, -, -, rfl⟩ := h.matchTotal husable ht
      rw [hn]
      show some c.id = Option.map _ n.operator.constraint?
      rw [hop]
      rfl
  · have htotal : ∀ p t?, s.matchTotal? p = .ok t? →
        t?.map (·.total) = (s.network.ledger? p).map (·.total) := by
      intro p t? ht
      obtain ⟨n, c, l, ms, -, -, hl, -, -, rfl⟩ := h.matchTotal husable ht
      rw [hl]
      rfl
    rw [map_collectMatchTotals htotal htotals, hgraph, Network.ledgers, List.map_filterMap]
  · obtain ⟨totals?, hmap, heq⟩ := except_bind_eq_ok.1 htotals
    cases heq
    obtain ⟨t?, ht?, htotal⟩ := List.mem_filterMap.1 ht
    obtain ⟨p, hp, ht?⟩ := except_mem_of_mapM hmap ht?
    obtain ⟨n, c, l, ms, hn, hop, hl, hbalanced, hms, rfl⟩ := h.matchTotal husable ht?
    cases htotal
    rw [hgraph] at hp
    obtain ⟨name, hname⟩ := hg.named p hp
    obtain ⟨-, n', c', hn', hop', rfl⟩ := hg.names hname
    cases hn.symm.trans hn'
    cases hop.symm.trans hop'
    have hnode := Graph.constraintNode_eq_ok.2 hname
    refine ⟨p, c, hnode, Graph.constraintAt_eq_ok.2 ⟨n, hn, hop⟩, ?_⟩
    exact breaksDown_of_balanced (by rw [hgraph]; exact hnode) hl hbalanced hms

/-! ## The score -/

/-- A score that is computed is that of the flushed network, which it leaves as it is. -/
theorem calculateScore_eq_ok {score : Score kind} (h : calculateScore s = .ok score s') :
    ∃ count, flush s = .ok count s' ∧ s'.network.score s'.graph = .ok score := by
  rw [calculateScore_eq] at h
  obtain ⟨_, t, hflush, h⟩ := Action.bind_eq_ok.1 h
  obtain ⟨count, _, hflush, hdone⟩ := Action.bind_eq_ok.1 hflush
  cases hdone
  unfold readScore at h
  rw [Action.bind_ok (Action.get_eq t)] at h
  obtain ⟨score', u, hscore, h⟩ := Action.bind_eq_ok.1 h
  obtain ⟨hscore, rfl⟩ := Action.lift_eq_ok.1 hscore
  rw [Action.bind_eq_ok] at h
  obtain ⟨_, v, hcheck, hdone⟩ := h
  cases hdone
  obtain ⟨-, rfl⟩ := Action.lift_eq_ok.1 (guarded_eq_ok.1 hcheck)
  exact ⟨count, hflush, hscore⟩

/-- Totals that are listed are those of the flushed session, which listing leaves as it is. -/
theorem matchTotals_eq_ok {totals : List (MatchTotal kind)} (h : matchTotals s = .ok totals s') :
    ∃ count, flush s = .ok count s' ∧ s'.collectMatchTotals = .ok totals := by
  rw [matchTotals_eq] at h
  obtain ⟨_, t, hflush, h⟩ := Action.bind_eq_ok.1 h
  obtain ⟨count, _, hflush, hdone⟩ := Action.bind_eq_ok.1 hflush
  cases hdone
  have hread := guarded_eq_ok.1 h
  rw [Action.bind_ok (Action.get_eq t)] at hread
  obtain ⟨htotals, rfl⟩ := Action.lift_eq_ok.1 hread
  exact ⟨count, hflush, htotals⟩

/-- An explanation is put together from a score and the totals that are listed right after. -/
theorem explain_eq_ok {r : Except Trap (Explanation kind)} (h : explain s = .ok r s') :
    ∃ score t totals, calculateScore s = .ok score t ∧ matchTotals t = .ok totals s' ∧
      r = (indict totals).map fun indictments => { score, totals, indictments } := by
  obtain ⟨score, t, hscore, h⟩ := Action.bind_eq_ok.1 h
  obtain ⟨totals, _, htotals, h⟩ := Action.bind_eq_ok.1 h
  cases h
  exact ⟨score, t, totals, hscore, htotals, rfl⟩

end Session

/-- An explanation of a session on a graph that some declarations were built into adds up. -/
structure Explanation.AddsUp (ds : List (Declaration kind)) (g : Graph kind) (s : Session kind)
    (e : Explanation kind) : Prop where
  /-- The score is the sum of the totals. -/
  score_eq : ∀ i, e.score.level i = (e.totals.map (·.total.level i)).sum
  /-- There is a total for every constraint, in the order of the declarations. -/
  constraints : e.totals.map (·.constraint) = Blueprint.entered ds {}
  /-- Every total is the sum of its matches, counted with the weight in force. -/
  totals : ∀ t ∈ e.totals, ∃ node c, g.constraintNode t.constraint = .ok node ∧
    g.constraintAt node = .ok c ∧ s.BreaksDown c t
  /-- The facts that are blamed are indicted for the matches that blame them. -/
  indictments : Indicts (e.totals.flatMap (·.matches)) e.indictments
  /-- Those of facts with numbers for ids come by score, then by type, then by number. -/
  ascending : e.indictments.Pairwise fun a b =>
    a.fact.isDigested = false → b.fact.isDigested = false → a.Before b

namespace Session

variable {g : Graph kind} {s s' : Session kind}

/-- Whatever calls were made, an explanation adds up. -/
theorem explain_addsUp {ds : List (Declaration kind)}
    (hbuild : (Blueprint.build (Blueprint.declare ds {})).1 = .ok g) (config : Config)
    (order : TupleStore → HashOrder) (calls : List (Call kind)) {e : Explanation kind}
    (hexplain : explain (Call.replay calls (new g config order)).2 = .ok (.ok e) s') :
    e.AddsUp ds g s' := by
  have hg : g.WellFormed := Graph.Built.wellFormed ⟨ds, hbuild⟩
  have h : Accountable g (Call.replay calls (new g config order)).2 :=
    (Accountable.opened g config order).replay hg calls
  obtain ⟨score, t, totals, hscore, htotals, hindict⟩ := explain_eq_ok hexplain
  obtain ⟨count, hflush, hscore⟩ := calculateScore_eq_ok hscore
  obtain ⟨count', hflush', htotals⟩ := matchTotals_eq_ok htotals
  -- Nothing is left to flush between the score and the totals, so the ledgers are the same.
  rw [h.flush_flush hg hflush] at hflush'
  cases hflush'
  have ht : Accountable g t := (Accountable.keeps_flush hg _ h).of_ok hflush
  have ht' : Accountable g { t with network := { t.network with operations := 0 } } :=
    (Accountable.keeps_flush hg t ht).of_ok (h.flush_flush hg hflush)
  have husable : t.poisoned = false := by
    obtain ⟨husable, net, -, rfl⟩ := flush_eq_ok hflush
    exact husable
  obtain ⟨hconstraints, hsums, hbreaks⟩ := ht'.collectMatchTotals hg husable htotals
  rcases indict_spec totals with ⟨⟨is, his, hindicts⟩, -⟩ | ⟨htrap, -⟩
  · rw [his] at hindict
    cases hindict
    refine ⟨fun i => ?_, ?_, hbreaks, hindicts,
      hindicts.sorted.imp fun h ha hb => Indictment.before_of_order ha hb h⟩
    · rw [ht.graph] at hscore
      have hlevels := congrArg (List.map fun total : Score kind => total.level i) hsums
      rw [List.map_map, List.map_map] at hlevels
      exact (Network.level_score hscore i).trans (congrArg List.sum hlevels.symm)
    · rw [hconstraints, Graph.constraintIds_of_build hbuild]
  · rw [htrap] at hindict
    cases hindict

/-- Truths are charged, each blamed twice, and paired with numbers they are rewarded. -/
def truthsAndPairs : List (Declaration .hardSoft) :=
  [.forEach (.scalar .bool) false,
    .charge (some ⟨1⟩) "truths" (.hardSoft 2 1) .penalty none,
    .indict (some ⟨2⟩) fun facts => .ok (facts ++ facts),
    .forEach (.scalar .int64) false,
    .join (some ⟨1⟩) (some ⟨3⟩) [],
    .charge (some ⟨4⟩) "pairs" (.hardSoft 0 3) .reward none]

/-- The graph of `truthsAndPairs`. -/
def truthsGraph : Graph .hardSoft := (Blueprint.declare truthsAndPairs {}).prune

/-- A truth and a number come in, and pairs are given another weight. -/
def truthsCalls : List (Call .hardSoft) :=
  [.insert [.scalar (.bool true), .int64 7], .flush,
    .setWeight ⟨defaultPackage, "pairs"⟩ (.hardSoft 0 5)]

theorem truthsCalls_explained : Action.answers explain
    (Call.replay truthsCalls (new truthsGraph {})).2 (fun r => match r with
      | .ok e => e.score == .hardSoft (-2) 4 &&
          e.totals.map (·.total) == [.hardSoft (-2) (-1), .hardSoft 0 5]
      | .error _ => false) = true := by
  decide +kernel

theorem explain_addsUp_truths : ∃ (e : Explanation .hardSoft) (s' : Session .hardSoft),
    (Blueprint.build (Blueprint.declare truthsAndPairs {})).1 = .ok truthsGraph ∧
      explain (Call.replay truthsCalls (new truthsGraph {})).2 = .ok (.ok e) s' ∧
      e.score = .hardSoft (-2) 4 ∧ e.AddsUp truthsAndPairs truthsGraph s' := by
  obtain ⟨r, s', hexplain, hr⟩ := Action.answers_iff.1 truthsCalls_explained
  cases r with
  | error trap => cases hr
  | ok e =>
    obtain ⟨hscore, -⟩ := Bool.and_eq_true_iff.1 hr
    exact ⟨e, s', rfl, hexplain, beq_iff_eq.1 hscore, explain_addsUp rfl {} _ truthsCalls hexplain⟩

end Session

end ConstraintStreams
