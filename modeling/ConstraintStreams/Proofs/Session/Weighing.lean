import ConstraintStreams.Proofs.Constraint.Charge
import ConstraintStreams.Proofs.Operator.Summing
import ConstraintStreams.Proofs.Session.Accountable
import ConstraintStreams.Proofs.Session.Booking
import ConstraintStreams.Proofs.Session.Effects

/-!
# Weights in force, and totals

After any calls, the weight in force of a constraint is the one that was set last, or the one that was
declared, and every match counts what that weight makes of its match weight. The total is the exact sum
of the matches, unless that sum is out of range; and that happens to poisoned sessions only.
-/

namespace ConstraintStreams

variable {kind : ScoreKind}

/-! ## Weights that were set -/

namespace Call

/-- The weight that a call sets for a constraint, if it succeeds. -/
def sets (name : ConstraintId) : Call kind × Except Error Unit → Option (Score kind)
  | (setWeight id weight, .ok ()) => if id = name then some weight else none
  | _ => none

/-- The weight that calls set for a constraint last, if they set one. -/
def lastSet (name : ConstraintId) (calls : List (Call kind)) (outcomes : List (Except Error Unit)) :
    Option (Score kind) :=
  ((calls.zip outcomes).filterMap (sets name)).getLast?

theorem lastSet_cons (name : ConstraintId) (c : Call kind) (outcome : Except Error Unit)
    (calls : List (Call kind)) (outcomes : List (Except Error Unit)) :
    lastSet name (c :: calls) (outcome :: outcomes) =
      (lastSet name calls outcomes).or (sets name (c, outcome)) := by
  unfold lastSet
  rw [List.zip_cons_cons, List.filterMap_cons]
  cases sets name (c, outcome) with
  | none => simp
  | some weight => simp [List.getLast?_cons]

end Call

namespace Session

variable {g : Graph kind} {s s' : Session kind} {c : Call kind}

/-- Of the weights that are set, a call changes the one that it sets. -/
theorem weight_of_run (hrun : c.run s = .ok () s') (name : ConstraintId) :
    s'.weights.get? name = (Call.sets name (c, .ok ())).or (s.weights.get? name) := by
  rw [(run_settings hrun).1]
  cases c with
  | setWeight id weight =>
    show (s.weights.insert id weight).get? name = Option.or (if id = name then _ else _) _
    rw [Table.get?_insert]
    split <;> rfl
  | _ => rfl

/-- A call that fails changes none of the weights that are set. -/
theorem weights_of_failed {e : Error} (hrun : c.run s = .error e s') : s'.weights = s.weights := by
  cases c with
  | setWeight name weight => rw [(setWeight_failed name weight s).of_error hrun]
  | _ => exact ((keeps_settings (by simp) s.weights s.config s ⟨rfl, rfl⟩).of_error hrun).1

/-- The weight that is set for a constraint after some calls is the one that they set last. -/
theorem weight_of_replay (calls : List (Call kind)) (s : Session kind) (name : ConstraintId) :
    (Call.replay calls s).2.weights.get? name =
      (Call.lastSet name calls (Call.replay calls s).1).or (s.weights.get? name) := by
  induction calls generalizing s with
  | nil => rfl
  | cons c rest ih =>
    unfold Call.replay
    cases hrun : c.run s with
    | ok _ s' =>
      show _ = (Call.lastSet name (c :: rest) (.ok () :: (Call.replay rest s').1)).or _
      rw [ih, Call.lastSet_cons, Option.or_assoc, weight_of_run hrun]
    | error e s' =>
      have hnone : Call.sets name (c, .error e) = none := by cases c <;> rfl
      show _ = (Call.lastSet name (c :: rest) (.error e :: (Call.replay rest s').1)).or _
      rw [ih, Call.lastSet_cons, hnone, Option.or_none, weights_of_failed hrun]

/-! ## What sessions keep of their ledgers -/

/-- The weight in force is the one that was set, or else the one that was declared. -/
theorem retains_priced : Ledger.Retains fun set? (c : Constraint kind) l =>
    l.Priced c (set?.getD c.weight) where
  opened _ := ⟨.empty, rfl⟩
  posted _ c _ hp := Ledger.keepsPriced_post c _ hp
  reweighed _ c weight order l _ := (Ledger.setWeight_ends c weight order l).mono
    (fun _ _ h => ⟨⟨h.weight_eq ▸ h.balanced.charged⟩, h.weight_eq⟩) fun _ => id

end Session

/-! ## The ledgers after some calls -/

/-- What is true of the ledger of a constraint after calls that ended as they did. -/
structure Ledger.InOrder (c : Constraint kind) (calls : List (Call kind))
    (outcomes : List (Except Error Unit)) (s : Session kind) (l : Ledger kind) : Prop where
  /-- The weight in force is the one that was set last, or else the one that was declared. -/
  weight_eq : l.weight = (Call.lastSet c.id calls outcomes).getD c.weight
  shown : s.weight c.id = .ok l.weight
  /-- Every entry counts the weight, times its match weight, times the sign of the impact. -/
  scored : ∀ entry ∈ l.entries.values, ∀ i,
    entry.score.level i = l.weight.level i * entry.matchWeight.toInt * c.impact.sign.toInt
  /-- The total is the sum of the entries, if that is a score; as long as the session is usable, it is. -/
  total_eq : ¬ Exceeds l.entries → ∀ i, l.total.level i = (l.entries.values.map (·.score.level i)).sum
  usable : s.poisoned = false → ¬ Exceeds l.entries

namespace Session

variable {g : Graph kind}

/-- The weight that a session shows is that of the ledger. -/
theorem weight_eq {s : Session kind} {name : ConstraintId} {p : NodeId} {l : Ledger kind}
    (hname : s.graph.names.get? name = some p) (hl : s.network.ledger? p = some l) :
    s.weight name = .ok l.weight := by
  unfold weight
  rw [Graph.constraintNode_eq_ok.2 hname]
  simp only [bind, Except.bind, hl]
  rfl

theorem inOrder_of_replay (hg : g.Built) (config : Config) (order : TupleStore → HashOrder)
    (calls : List (Call kind)) {p : NodeId} {c : Constraint kind} (hc : g.constraintAt p = .ok c) :
    ∃ l, (Call.replay calls (new g config order)).2.network.ledger? p = some l ∧
      l.InOrder c calls (Call.replay calls (new g config order)).1
        (Call.replay calls (new g config order)).2 := by
  obtain ⟨n, hn, hop⟩ := Graph.constraintAt_eq_ok.1 hc
  have hpriced := (Booked.opened retains_priced config order).replay retains_priced hg calls
  have haccountable := (Accountable.opened g config order).replay hg.wellFormed calls
  have hset := weight_of_replay calls (new g config order) c.id
  rw [show (new g config order).weights.get? c.id = none from rfl, Option.or_none] at hset
  obtain ⟨l, hl, hlpriced⟩ := hpriced.books.ledger hn hop
  refine ⟨l, hl, hset ▸ hlpriced.weight_eq, ?_, fun entry he i => ?_, fun hfits => ?_, fun husable => ?_⟩
  · exact weight_eq (by rw [hpriced.graph]; exact hg.name_of_constraint hn hop) hl
  · obtain ⟨id, hid⟩ := Table.mem_values.1 he
    rw [hlpriced.weight_eq]
    exact Constraint.level_charge (hlpriced.charged hid) i
  · obtain ⟨l', hl', h'⟩ := haccountable.sound.ledger hn hop
    cases hl.symm.trans hl'
    exact (h'.resolve_left hfits).total_eq
  · obtain ⟨l', hl', h'⟩ := (haccountable.accounts husable).balanced hn hop
    cases hl.symm.trans hl'
    exact h'.not_exceeds

/-- Whatever calls were made, the ledger of every constraint is in order. It does not matter when a
weight was put in force: postings that all succeed lead to the entries and the total to which they lead
when the weight of the end is put in force first. And a weight that cannot be set changes nothing. -/
theorem weights_and_totals {ds : List (Declaration kind)}
    (hbuild : (Blueprint.build (Blueprint.declare ds {})).1 = .ok g) (config : Config)
    (order : TupleStore → HashOrder) (calls : List (Call kind)) :
    let outcomes := (Call.replay calls (new g config order)).1
    let s := (Call.replay calls (new g config order)).2
    (∀ {p c}, g.constraintAt p = .ok c →
      ∃ l, s.network.ledger? p = some l ∧ l.InOrder c calls outcomes s) ∧
    (∀ {c : Constraint kind} {l l' l₁ l₂ : Ledger kind} {postings} {order : Arrangement TupleId},
      l.Kept c → Posting.postAll c postings l = .ok () l₁ →
      Ledger.setWeight c l₁.weight order l = .ok () l' →
      Posting.postAll c (postings.filter fun posting => !posting.reweighs) l' = .ok () l₂ →
      l₂.entries = l₁.entries ∧ l₂.total = l₁.total) ∧
    ∀ {name weight e s'}, s.poisoned = false → setWeight name weight s = .error e s' →
      s' = s ∧ s'.poisoned = false := by
  refine ⟨inOrder_of_replay ⟨ds, hbuild⟩ config order calls, fun h hrun hset hreplay => ?_,
    fun husable hfailed => ?_⟩
  · rw [Ledger.postAll_reordered h.balanced hrun hset hreplay]
    exact ⟨rfl, rfl⟩
  · have hsame := (setWeight_failed _ _ _).of_error hfailed
    exact ⟨hsame, hsame ▸ husable⟩

/-- Numbers are rewarded with themselves. -/
def amounts : List (Declaration .simple) :=
  [.forEach (.scalar .int64) false,
    .charge (some ⟨1⟩) "amount" rewardOfAmount.weight .reward rewardOfAmount.weigher]

/-- The graph of `amounts`. -/
def amountsGraph : Graph .simple := (Blueprint.declare amounts {}).prune

/-- Numbers come in, are given another weight, go, and one comes in again. -/
def amountsCalls : List (Call .simple) :=
  [.insert [.int64 3, .int64 4], .flush, .setWeight rewardOfAmount.id (.simple 5), .clear,
    .insert [.int64 4], .flush]

/-- A number is entered and counted with another weight before a second one is entered. -/
def reweighed : List (Posting .simple) :=
  [.insert ⟨0, 0⟩ [.int64 3], .reweigh (.simple 5), .insert ⟨1, 0⟩ [.int64 4], .retract ⟨0, 0⟩]

/-- The session after `amountsCalls`. -/
def amountsSession : Session .simple := (Call.replay amountsCalls (new amountsGraph {})).2

theorem weights_and_totals_amounts :
    let outcomes := (Call.replay amountsCalls (new amountsGraph {})).1
    let l₁ := (Action.outcome? (Posting.postAll rewardOfAmount reweighed) (.new (.simple 1))).get rfl
    let l₂ := (Action.outcome? (Posting.postAll rewardOfAmount (reweighed.filter fun p => !p.reweighs))
      (.new (.simple 5))).get rfl
    (Blueprint.build (Blueprint.declare amounts {})).1 = .ok amountsGraph ∧
      Call.lastSet rewardOfAmount.id amountsCalls outcomes = some (.simple 5) ∧
      (∃ l, amountsSession.network.ledger? ⟨2⟩ = some l ∧ l.weight = .simple 5 ∧
        l.total = .simple 20 ∧ l.InOrder rewardOfAmount amountsCalls outcomes amountsSession) ∧
      Posting.postAll rewardOfAmount reweighed (.new (.simple 1)) = .ok () l₁ ∧
      l₂.entries = l₁.entries ∧ l₂.total = l₁.total ∧
      ∃ e, setWeight rewardOfAmount.id (.simple Int64.maxValue) amountsSession =
        .error e amountsSession := by
  intro outcomes l₁ l₂
  have hbuild : (Blueprint.build (Blueprint.declare amounts {})).1 = .ok amountsGraph := rfl
  have hset : Call.lastSet rewardOfAmount.id amountsCalls outcomes = some (.simple 5) := by decide +kernel
  have htotal : (amountsSession.network.ledger? ⟨2⟩).map Ledger.total = some (.simple 20) := by
    decide +kernel
  obtain ⟨hinOrder, hreordered, hfailed⟩ := weights_and_totals hbuild {} _ amountsCalls
  obtain ⟨l, hl, h⟩ := hinOrder (show amountsGraph.constraintAt ⟨2⟩ = .ok rewardOfAmount from rfl)
  rw [show (Call.replay amountsCalls (new amountsGraph {})).2 = amountsSession from rfl] at hl h hfailed
  rw [hl] at htotal
  have hfirst : Ledger.setWeight rewardOfAmount l₁.weight .arrival (.new (.simple 1))
      = .ok () (.new (.simple 5)) := by
    rw [show l₁.weight = .simple 5 from by decide +kernel]
    exact Ledger.setWeight_unmatched _ _ _ rfl
  have hrun : Posting.postAll rewardOfAmount reweighed (.new (.simple 1)) = .ok () l₁ := rfl
  have hreplay : Posting.postAll rewardOfAmount (reweighed.filter fun p => !p.reweighs)
      (.new (.simple 5)) = .ok () l₂ := rfl
  obtain ⟨hentries, hsum⟩ := hreordered (.opened (.simple 1)) hrun hfirst hreplay
  refine ⟨hbuild, hset, ⟨l, hl, by rw [h.weight_eq, hset]; rfl, Option.some.inj htotal, h⟩, hrun, hentries,
    hsum, ?_⟩
  have hoverflow : Action.answers (setWeight rewardOfAmount.id (.simple Int64.maxValue)) amountsSession
      (fun _ => true) = false := by decide +kernel
  have husable : amountsSession.poisoned = false := by decide +kernel
  obtain ⟨e, s', hfails⟩ := Action.error_of_answers hoverflow
  have hsame := (hfailed husable hfails).1
  rw [hsame] at hfails
  exact ⟨e, hfails⟩

/-- The greatest number and two that outweigh it come in, and the greatest goes. -/
def outweighed : List (Call .simple) :=
  [.insert [.int64 Int64.maxValue, .int64 (-Int64.maxValue), .int64 (1 - Int64.maxValue)], .flush,
    .retract [Fact.key (.int64 Int64.maxValue)], .flush]

/-- The total of a session that is poisoned is not the sum of the matches that are left. -/
theorem outweighed_total : ∃ l : Ledger .simple,
    (Blueprint.build (Blueprint.declare amounts {})).1 = .ok amountsGraph ∧
      (Call.replay outweighed (new amountsGraph {})).2.network.ledger? ⟨2⟩ = some l ∧
      ∃ i, l.total.level i ≠ (l.entries.values.map (·.score.level i)).sum := by
  have hlost : ((Call.replay outweighed (new amountsGraph {})).2.network.ledger? ⟨2⟩).any
      (fun l => decide (∃ i, l.total.level i ≠ (l.entries.values.map (·.score.level i)).sum)) = true := by
    decide +kernel
  obtain ⟨l, hl, hlost⟩ := (Option.any_eq_true _ _).1 hlost
  exact ⟨l, rfl, hl, of_decide_eq_true hlost⟩

end Session

end ConstraintStreams
