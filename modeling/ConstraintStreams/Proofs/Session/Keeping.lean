import ConstraintStreams.Proofs.Session.Poisoning

/-!
# What calls keep, whichever way they end

A property of sessions that a flush keeps, and that poisoning does not touch, is kept by every call that
does nothing but flush and compute something of the outcome; and one that does not speak of facts and
networks, by every call that changes facts.
-/

namespace ConstraintStreams

/-- The call changes neither facts nor weights; it propagates what is queued, and answers something. -/
def Call.computes {kind : ScoreKind} : Call kind → Bool
  | flush | calculateScore | matchTotals | indictments | indictmentOf _ | explain => true
  | _ => false

/-- The call changes facts. -/
def Call.changes {kind : ScoreKind} : Call kind → Bool
  | insert _ | update _ | retract _ => true
  | _ => false

namespace Session

variable {kind : ScoreKind} {I : Session kind → Prop} {α : Type} {x : SessionAction kind α}

theorem ends_guarded {s : Session kind} {Q : α → Session kind → Prop}
    (hpoison : ∀ s, I s → I { s with poisoned := true }) (h : Action.Ends x s Q I) :
    Action.Ends (guarded x) s Q I := by
  unfold Action.Ends at h ⊢
  cases hx : x s with
  | ok a s' =>
    rw [guarded_ok hx]
    rwa [hx] at h
  | error e s' =>
    rw [guarded_error hx]
    rw [hx] at h
    show I (if e.poisons = true then _ else _)
    split
    · exact hpoison s' h
    · exact h

theorem keeps_guarded (hpoison : ∀ s, I s → I { s with poisoned := true }) (hx : Action.Keeps I x) :
    Action.Keeps I (guarded x) := fun s h => ends_guarded hpoison (hx s h)

theorem keeps_checkUsable : Action.Keeps I (checkUsable : SessionAction kind Unit) := by
  refine .get_bind fun s _ => ?_
  split
  · exact .throw _
  · exact .pure _

theorem keeps_afterChange (hflush : Action.Keeps I (flush : SessionAction kind Nat)) :
    Action.Keeps I (afterChange : SessionAction kind Unit) := by
  refine .get_bind fun s _ => ?_
  split
  · exact .discard hflush
  · exact .pure _

/-- The part of `calculateScore` after propagation. -/
def readScore : SessionAction kind (Score kind) := do
  let s ← get
  let score ← s.network.score s.graph
  guarded (Action.ofExcept (s.selfCheck score))
  pure score

/-- The part of `matchTotals` after propagation. -/
def readTotals : SessionAction kind (List (MatchTotal kind)) :=
  guarded do
    let s ← get
    (s.collectMatchTotals : Except Error _)

theorem calculateScore_eq : (calculateScore : SessionAction kind _) = (do discard flush; readScore) := rfl

theorem matchTotals_eq : (matchTotals : SessionAction kind _) = (do discard flush; readTotals) := rfl

theorem keeps_readScore (hpoison : ∀ s, I s → I { s with poisoned := true }) :
    Action.Keeps I (readScore : SessionAction kind (Score kind)) :=
  .get_bind fun _ _ => .lift_bind fun _ _ =>
    .bind (keeps_guarded hpoison (.ofExcept _)) fun _ => .pure _

theorem keeps_readTotals (hpoison : ∀ s, I s → I { s with poisoned := true }) :
    Action.Keeps I (readTotals : SessionAction kind (List (MatchTotal kind))) :=
  keeps_guarded hpoison (.get_bind fun _ _ => .lift _)

theorem keeps_computing (hpoison : ∀ s, I s → I { s with poisoned := true })
    (hflush : Action.Keeps I (flush : SessionAction kind Nat)) {c : Call kind}
    (hc : c.computes = true) : Action.Keeps I c.run := by
  have hscore : Action.Keeps I (calculateScore : SessionAction kind (Score kind)) := by
    rw [calculateScore_eq]
    exact .bind (.discard hflush) fun _ => keeps_readScore hpoison
  have htotals : Action.Keeps I (matchTotals : SessionAction kind (List (MatchTotal kind))) := by
    rw [matchTotals_eq]
    exact .bind (.discard hflush) fun _ => keeps_readTotals hpoison
  cases c with
  | flush => exact .discard hflush
  | calculateScore => exact .discard hscore
  | matchTotals => exact .discard htotals
  | indictments => exact .discard (.map htotals _)
  | indictmentOf key => exact .discard (.map (.map htotals _) _)
  | explain => exact .discard (.bind hscore fun _ => .map htotals _)
  | _ => cases hc

/-! ## Changes of facts -/

open ConstraintStreams.Action (Keeps)

/-- Work at the sources of the network keeps the property, whichever way it ends. -/
structure KeepsSources (I : Session kind → Prop) : Prop where
  insert : ∀ p fact, Keeps I (onNetwork (Network.insertSource p fact))
  update : ∀ id fact, Keeps I (onNetwork (Network.updateSource id fact))
  retract : ∀ id, Keeps I (onNetwork (Network.retractSource id))

section Sources

variable (hsources : KeepsSources I)

include hsources

theorem keeps_refreshAt (fact : Fact) (node : NodeId) (tuple : Option TupleId) :
    Keeps I (refreshAt fact node tuple) := by
  refine .get_bind fun s _ => .lift_bind fun visible _ => ?_
  cases tuple <;> cases visible
  · exact .pure _
  · exact .bind (hsources.insert node fact) fun _ => .pure _
  · exact .bind (hsources.retract _) fun _ => .pure _
  · exact .bind (hsources.update _ fact) fun _ => .pure _

variable (hfacts : ∀ s facts, I s → I { s with facts })

include hfacts

theorem keeps_attach (fact : Fact) : Keeps I (attach fact) := by
  refine .get_bind fun s _ => .bind (.mapM (fun node => ?_) _) fun tuples =>
    .modify fun s h => hfacts s _ h
  refine .get_bind fun s _ => .lift_bind fun visible _ => ?_
  split
  · exact .bind (hsources.insert node fact) fun _ => .pure _
  · exact .pure _

theorem keeps_refreshTuples (fact old : Fact) (done tuples : List (NodeId × Option TupleId)) :
    Keeps I (refreshTuples fact old done tuples) := by
  induction tuples generalizing done with
  | nil => exact .pure _
  | cons entry rest ih =>
    exact .bind (keeps_refreshAt hsources fact _ _) fun _ =>
      .bind (.modify fun s h => hfacts s _ h) fun _ => ih _

theorem keeps_refresh (fact : Fact) : Keeps I (refresh fact) := by
  refine .get_bind fun s _ => ?_
  split
  · exact .throw _
  · exact .bind (keeps_refreshTuples hsources hfacts fact _ _ _) fun _ => .modify fun s h => hfacts s _ h

theorem keeps_detach (key : Fact.Key) : Keeps I (detach key) := by
  refine .get_bind fun s hs => ?_
  split
  · exact .pure _
  · exact .bind (.set (hfacts s _ hs)) fun _ => .forM hsources.retract _

variable (hpoison : ∀ s, I s → I { s with poisoned := true })

include hpoison

theorem keeps_takeIn (facts : List Fact) : Keeps I (takeIn facts) :=
  .bind keeps_checkUsable fun _ => .get_bind fun _ _ => .lift_bind fun _ _ => .lift_bind fun _ _ =>
    keeps_guarded hpoison (.forM (keeps_attach hsources hfacts) _)

theorem keeps_takeOver (facts : List Fact) : Keeps I (takeOver facts) :=
  .bind keeps_checkUsable fun _ => .get_bind fun _ _ => .lift_bind fun _ _ =>
    keeps_guarded hpoison (.forM (keeps_refresh hsources hfacts) _)

theorem keeps_giveUp (keys : List Fact.Key) : Keeps I (giveUp keys) :=
  .bind keeps_checkUsable fun _ => .get_bind fun _ _ => .lift_bind fun _ _ =>
    keeps_guarded hpoison (.forM (keeps_detach hsources hfacts) _)

/-- What work at the sources and flushes keep, a change of facts keeps. -/
theorem keeps_sourcesChanging (hflush : Keeps I (flush : SessionAction kind Nat)) {c : Call kind}
    (hc : c.changes = true) : Keeps I c.run := by
  have hafter := keeps_afterChange hflush
  cases c with
  | insert facts =>
    show Keeps I (Session.insert facts)
    rw [insert_eq]
    exact .bind (keeps_takeIn hsources hfacts hpoison facts) fun _ => hafter
  | update facts =>
    show Keeps I (Session.update facts)
    rw [update_eq]
    exact .bind (keeps_takeOver hsources hfacts hpoison facts) fun _ => hafter
  | retract keys =>
    show Keeps I (Session.retract keys)
    rw [retract_eq]
    exact .bind (keeps_giveUp hsources hfacts hpoison keys) fun _ => hafter
  | _ => cases hc

end Sources

section Changing

variable (hnetwork : ∀ s network, I s → I { s with network })
  (hfacts : ∀ s facts, I s → I { s with facts }) (hpoison : ∀ s, I s → I { s with poisoned := true })

include hnetwork

theorem keeps_onNetwork (x : NetworkAction kind α) : Keeps I (onNetwork x) := by
  intro s h
  refine Action.ends_within.2 ?_
  unfold Action.Ends
  split <;> exact hnetwork s _ h

theorem KeepsSources.of_network : KeepsSources I :=
  ⟨fun _ _ => keeps_onNetwork hnetwork _, fun _ _ => keeps_onNetwork hnetwork _,
    fun _ => keeps_onNetwork hnetwork _⟩

include hpoison

theorem keeps_flush : Keeps I (flush : SessionAction kind Nat) :=
  .bind keeps_checkUsable fun _ => .get_bind fun _ _ =>
    keeps_guarded hpoison (keeps_onNetwork hnetwork _)

include hfacts

/-- A change of facts touches nothing of a session but its facts, its network and its usability. -/
theorem keeps_changing {c : Call kind} (hc : c.changes = true) : Keeps I c.run :=
  keeps_sourcesChanging (.of_network hnetwork) hfacts hpoison (keeps_flush hnetwork hpoison) hc

end Changing

/-! ## Runs of calls -/

/-- What every call keeps, whichever way it ends, a run of calls keeps. -/
theorem keeps_replay (hrun : ∀ c : Call kind, Keeps I c.run) {s : Session kind} (h : I s)
    (calls : List (Call kind)) : I (Call.replay calls s).2 := by
  induction calls generalizing s with
  | nil => exact h
  | cons c rest ih =>
    unfold Call.replay
    cases hc : c.run s with
    | ok _ s' => exact ih ((hrun c s h).of_ok hc)
    | error e s' => exact ih ((hrun c s h).of_error hc)

end Session

end ConstraintStreams
