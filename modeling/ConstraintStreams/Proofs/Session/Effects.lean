import ConstraintStreams.Proofs.Session.Atomicity
import ConstraintStreams.Proofs.Session.Representing

/-!
# What successful calls come to

Apart from its network, what a call makes of a session follows from the call and from what the session
was before, whatever graph it is on. Of the network it is known whether it is at rest, or its memories
are as they were.
-/

namespace ConstraintStreams

namespace Call

variable {kind : ScoreKind}

/-- The facts after a call that succeeds, by their keys. -/
def factsAfter (c : Call kind) (held : Fact.Key → Option Fact) : Fact.Key → Option Fact :=
  match c with
  | insert facts | update facts =>
    facts.foldl (fun held fact => Function.update held fact.key (some fact)) held
  | retract keys => keys.foldl (fun held key => Function.update held key none) held
  | clear => fun _ => none
  | _ => held

/-- The weights that were set after a call that succeeds. -/
def weightsAfter (c : Call kind) (weights : Table ConstraintId (Score kind)) :
    Table ConstraintId (Score kind) :=
  match c with
  | setWeight name weight => weights.insert name weight
  | _ => weights

end Call

namespace Session

variable {kind : ScoreKind} {g : Graph kind} {s s' : Session kind}

open ConstraintStreams.Action (Keeps)

/-! ## Facts -/

theorem fact?_insert (facts : Table Fact.Key SourceFact) (k : Fact.Key) (entry : SourceFact) :
    fact? { s with facts := facts.insert k entry }
      = Function.update (fact? { s with facts }) k (some entry.fact) := by
  funext k'
  unfold fact?
  rw [Table.get?_insert, Function.update_apply]
  by_cases hk : k = k'
  · rw [if_pos hk, if_pos hk.symm]
    rfl
  · rw [if_neg hk, if_neg (Ne.symm hk)]

theorem attach_fact? (fact : Fact) (s : Session kind) :
    Action.Ensures (fun _ => True) (attach fact) s fun _ s' =>
      s'.fact? = Function.update s.fact? fact.key (some fact) := by
  refine (attach_enters (Covers.any s.graph) fact).mono fun _ s' hs' => ?_
  obtain ⟨tuples, htuples⟩ := hs'
  have hinsert := fact?_insert (s := s') s.facts fact.key ⟨fact, tuples⟩
  rw [← htuples] at hinsert
  exact hinsert

/-- While the tuples of a fact are brought up to date, its old version is listed. -/
theorem refreshTuples_fact? {held : Fact.Key → Option Fact} {fact old : Fact}
    (hold : held fact.key = some old) (done tuples : List (NodeId × Option TupleId)) :
    Keeps (fun s : Session kind => s.fact? = held) (refreshTuples fact old done tuples) := by
  induction tuples generalizing done with
  | nil => exact .pure _
  | cons entry rest ih =>
    refine .bind (keeps_refreshAt (.of_network fun _ _ h => h) fact _ _) fun _ =>
      .bind (.modify fun s hs => ?_) fun _ => ih _
    rw [fact?_insert]
    show Function.update s.fact? fact.key (some old) = held
    rw [hs, ← hold, Function.update_eq_self]

theorem refresh_fact? (fact : Fact) (s : Session kind) :
    Action.Ensures (fun _ => True) (refresh fact) s fun _ s' =>
      s'.fact? = Function.update s.fact? fact.key (some fact) := by
  unfold refresh
  rw [Action.ensures_bind, Action.ensures_get]
  cases hentry : s.facts.get? fact.key with
  | none => trivial
  | some entry =>
    have hold : s.fact? fact.key = some entry.fact := by simp [fact?, hentry]
    rw [Action.ensures_bind]
    refine ((refreshTuples_fact? hold [] entry.tuples s rfl).ensures).mono fun _ s' hs' => ?_
    rw [Action.ensures_modify]
    have hlisted : (s'.facts.get? fact.key).map (·.fact) = some entry.fact := by
      rw [← hold, ← hs']
      rfl
    obtain ⟨entry', hentry', -⟩ := Option.map_eq_some_iff.1 hlisted
    rw [← hs']
    funext k
    unfold fact?
    rw [Table.get?_modify, Function.update_apply]
    by_cases hk : fact.key = k
    · subst hk
      rw [if_pos rfl, if_pos rfl, hentry']
      rfl
    · rw [if_neg hk, if_neg (Ne.symm hk)]

theorem detach_fact? (key : Fact.Key) (s : Session kind) :
    Action.Ensures (fun _ => True) (detach key) s fun _ s' =>
      s'.fact? = Function.update s.fact? key none := by
  refine (detach_erases (fun _ _ => trivial) s.facts s rfl).mono fun _ s' hs' => ?_
  funext k
  unfold fact?
  rw [hs', Table.get?_erase, Function.update_apply]
  by_cases hk : key = k
  · rw [if_pos hk, if_pos hk.symm]
    rfl
  · rw [if_neg hk, if_neg (Ne.symm hk)]

/-- A batch changes the facts as its members do, one after the other. -/
theorem forM_fact? {α : Type} {f : α → SessionAction kind PUnit}
    {step : (Fact.Key → Option Fact) → α → Fact.Key → Option Fact}
    (hf : ∀ a s, Action.Ensures (fun _ => True) (f a) s fun _ s' => s'.fact? = step s.fact? a)
    {as : List α} (hrun : as.forM f s = .ok ⟨⟩ s') : s'.fact? = as.foldl step s.fact? := by
  refine (Action.Ensures.forM (E := fun _ => True)
    (fun rest t => rest.foldl step t.fact? = as.foldl step s.fact?) ?_ rfl).of_ok hrun
  intro a rest t ht
  refine (hf a t).mono fun _ t' ht' => ?_
  rw [ht']
  exact ht

/-- The facts after a call are those before it, but for what the call changes. -/
theorem run_fact? {c : Call kind} (hrun : c.run s = .ok () s') : s'.fact? = c.factsAfter s.fact? := by
  have hflush : ∀ held, Keeps (fun t : Session kind => t.fact? = held) flush := fun held =>
    keeps_flush (fun _ _ h => h) fun _ h => h
  have hafter : ∀ t, afterChange t = .ok () s' → s'.fact? = t.fact? := fun t =>
    (keeps_afterChange (hflush t.fact?) t rfl).of_ok
  cases c with
  | insert facts =>
    replace hrun : (do takeIn facts; afterChange) s = .ok () s' := (insert_eq facts).symm ▸ hrun
    obtain ⟨_, t, htaken, hpropagated⟩ := Action.bind_eq_ok.1 hrun
    obtain ⟨-, -, -, hforM⟩ := takeIn_eq_ok.1 htaken
    rw [hafter t hpropagated]
    exact forM_fact? attach_fact? hforM
  | update facts =>
    replace hrun : (do takeOver facts; afterChange) s = .ok () s' := (update_eq facts).symm ▸ hrun
    obtain ⟨_, t, htaken, hpropagated⟩ := Action.bind_eq_ok.1 hrun
    obtain ⟨-, -, hforM⟩ := takeOver_eq_ok.1 htaken
    rw [hafter t hpropagated]
    exact forM_fact? refresh_fact? hforM
  | retract keys =>
    replace hrun : (do giveUp keys; afterChange) s = .ok () s' := (retract_eq keys).symm ▸ hrun
    obtain ⟨_, t, htaken, hpropagated⟩ := Action.bind_eq_ok.1 hrun
    obtain ⟨-, -, hforM⟩ := giveUp_eq_ok.1 htaken
    rw [hafter t hpropagated]
    exact forM_fact? detach_fact? hforM
  | clear =>
    have hkeeps : Action.Ensures (fun _ => True) clear s fun _ s' => s'.fact? = fun _ => none := by
      unfold clear
      rw [Action.ensures_bind]
      refine (checkUsable_spec .any).mono fun _ t ht => ?_
      subst ht
      rw [Action.ensures_bind, Action.ensures_modify, Action.ensures_bind, Action.ensures_get]
      exact (keeps_guarded (I := fun t : Session kind => t.fact? = fun _ => none) (fun _ h => h)
        (keeps_onNetwork (fun _ _ h => h) _) _ rfl).ensures
    exact hkeeps.of_ok hrun
  | setWeight name weight =>
    have hkeeps : Keeps (fun t : Session kind => t.fact? = s.fact?) (setWeight name weight) := by
      refine .bind keeps_checkUsable fun _ => .get_bind fun _ _ => .lift_bind fun _ _ => ?_
      split
      · exact .bind (.throw _) fun _ => .bind (keeps_onNetwork (fun _ _ h => h) _) fun _ => .modify fun _ h => h
      · exact .bind (keeps_onNetwork (fun _ _ h => h) _) fun _ => .modify fun _ h => h
    exact (hkeeps s rfl).of_ok hrun
  | _ => exact ((keeps_computing (fun _ h => h) (hflush s.fact?) rfl) s rfl).of_ok hrun

/-! ## Weights and settings -/

/-- Only setting a weight touches the weights that are set, and nothing touches the configuration. -/
theorem keeps_settings {c : Call kind} (hc : ∀ name weight, c ≠ .setWeight name weight)
    (weights : Table ConstraintId (Score kind)) (config : Config) :
    Keeps (fun t : Session kind => t.weights = weights ∧ t.config = config) c.run := by
  cases c with
  | insert | update | retract =>
    exact keeps_changing (fun _ _ h => h) (fun _ _ h => h) (fun _ h => h) rfl
  | clear =>
    exact .bind keeps_checkUsable fun _ => .bind (.modify fun _ ht => ht) fun _ => .get_bind fun _ _ =>
      keeps_guarded (fun _ h => h) (keeps_onNetwork (fun _ _ h => h) _)
  | setWeight name weight => exact absurd rfl (hc name weight)
  | _ => exact keeps_computing (fun _ h => h) (keeps_flush (fun _ _ h => h) fun _ h => h) rfl

/-- The weights that are set after a call are those before it, but for one that the call sets, and the
configuration stays. -/
theorem run_settings {c : Call kind} (hrun : c.run s = .ok () s') :
    s'.weights = c.weightsAfter s.weights ∧ s'.config = s.config := by
  cases c with
  | setWeight name weight =>
    have hset : Action.Ensures (fun _ => True) (setWeight name weight) s fun _ s' =>
        s'.weights = s.weights.insert name weight ∧ s'.config = s.config := by
      unfold setWeight
      rw [Action.ensures_bind]
      refine (checkUsable_spec .any).mono fun _ t ht => ?_
      subst ht
      rw [Action.ensures_bind, Action.ensures_get, Action.ensures_bind, Action.ensures_lift]
      refine ⟨fun p _ => ?_, fun _ _ => trivial⟩
      split
      · trivial
      · rw [Action.ensures_bind]
        exact Action.ensures_within.2 ((Action.Ensures.any _ _).mono fun _ _ _ => ⟨rfl, rfl⟩)
    exact hset.of_ok hrun
  | _ => exact (keeps_settings (by simp) s.weights s.config s ⟨rfl, rfl⟩).of_ok hrun

/-! ## The network -/

/-- After a change that is propagated at once the network is at rest; otherwise the memories do not
know of the change yet. -/
theorem change_network (hg : g.WellFormed) {x : SessionAction kind Unit}
    (hx : Action.Ensures (fun _ => True) x s fun _ t => Holds g t ∧ s.network.Amends t.network)
    (hstanding : KeepsStanding x) (hrun : (do x; afterChange) s = .ok () s') :
    if s.config.propagation = .immediate then Network.AtRest g s'.network
      else s'.network.memories = s.network.memories := by
  obtain ⟨_, t, hchange, hafter⟩ := Action.bind_eq_ok.1 hrun
  obtain ⟨ht, hamends⟩ := hx.of_ok hchange
  obtain ⟨-, hconfig⟩ := (hstanding s).of_ok hchange
  have hends : Action.Ensures (fun _ => True) afterChange t fun _ t' =>
      if s.config.propagation = .immediate then Network.AtRest g t'.network
        else t'.network.memories = s.network.memories := by
    unfold afterChange
    rw [Action.ensures_bind, Action.ensures_get, hconfig]
    split
    · rw [Action.ensures_discard]
      exact (flush_spec hg .any (.any g) ht).mono fun _ _ h' => h'.2.2.2
    · exact hamends.memories
  exact hends.of_ok hafter

/-- A call that computes something leaves the network at rest. -/
theorem computing_rests (hg : g.WellFormed) (h : Holds g s) {c : Call kind} (hc : c.computes = true) :
    Action.Ensures (fun _ => True) c.run s fun _ s' => Network.AtRest g s'.network := by
  have hflush : ∀ {t}, Holds g t → Action.Ensures (fun _ => True) flush t fun _ t' =>
      Holds g t' ∧ Network.AtRest g t'.network := fun ht =>
    (flush_spec hg .any (.any g) ht).mono fun _ _ h' => ⟨h'.1, h'.2.2.2⟩
  have htotals : ∀ {t}, Holds g t → Action.Ensures (fun _ => True) matchTotals t fun _ t' =>
      Network.AtRest g t'.network := fun ht => matchTotals_after ((hflush ht).mono fun _ _ h' => h'.2)
  cases c with
  | flush => exact Action.ensures_discard.2 ((hflush h).mono fun _ _ h' => h'.2)
  | calculateScore =>
    exact Action.ensures_discard.2 (calculateScore_after ((hflush h).mono fun _ _ h' => h'.2))
  | matchTotals => exact Action.ensures_discard.2 (htotals h)
  | indictments =>
    refine Action.ensures_discard.2 ?_
    unfold indictments
    rw [Action.ensures_bind]
    exact htotals h
  | indictmentOf key =>
    refine Action.ensures_discard.2 ?_
    unfold indictmentOf indictments
    rw [Action.ensures_bind, Action.ensures_bind]
    exact htotals h
  | explain =>
    refine Action.ensures_discard.2 ?_
    unfold explain
    rw [Action.ensures_bind]
    refine (calculateScore_after (hflush h)).mono fun _ t ht => ?_
    rw [Action.ensures_bind]
    exact htotals ht.1
  | _ => cases hc

/-- After a change of facts the network is at rest, or its memories are as before. -/
theorem changing_network (hg : g.WellFormed) (h : Holds g s) {c : Call kind} (hc : c.changes = true)
    (hrun : c.run s = .ok () s') : if s.config.propagation = .immediate then Network.AtRest g s'.network
      else s'.network.memories = s.network.memories := by
  cases c with
  | insert facts =>
    exact change_network hg (takeIn_spec .any (.any g) h facts) (keepsStanding_takeIn facts)
      ((insert_eq facts).symm ▸ hrun)
  | update facts =>
    exact change_network hg (takeOver_spec .any (.any g) h facts) (keepsStanding_takeOver facts)
      ((update_eq facts).symm ▸ hrun)
  | retract keys =>
    exact change_network hg (giveUp_spec .any h keys) (keepsStanding_giveUp keys)
      ((retract_eq keys).symm ▸ hrun)
  | _ => cases hc

end Session

end ConstraintStreams
