import ConstraintStreams.Proofs.Network.Blank
import ConstraintStreams.Proofs.Session.Faultless
import ConstraintStreams.Proofs.Session.Keeping

/-!
# Sessions without facts

A session that has given up all its facts has nothing left after a flush: no tuple, nothing in any
memory, and zero at every constraint.
-/

namespace ConstraintStreams

namespace Session

variable {kind : ScoreKind} {g : Graph kind} {s s' : Session kind} {α : Type}

/-- The session works on a graph, and every memory is that of a node of the graph. -/
structure Housed (g : Graph kind) (s : Session kind) : Prop where
  graph : s.graph = g
  memories : Network.Housed g s.network

theorem keepsHoused_onNetwork {x : NetworkAction kind α} (hx : Action.Keeps (Network.Housed g) x) :
    Action.Keeps (Housed g) (onNetwork x) := fun _ h =>
  Action.ends_within.2 ((hx _ h.memories).mono (fun _ _ h' => ⟨h.graph, h'⟩) fun _ h' => ⟨h.graph, h'⟩)

theorem keepsHoused_guarded {x : SessionAction kind α} (hx : Action.Keeps (Housed g) x) :
    Action.Keeps (Housed g) (guarded x) := keeps_guarded (fun _ h => ⟨h.graph, h.memories⟩) hx

theorem keepsHoused_flush : Action.Keeps (Housed g) (flush : SessionAction kind Nat) := by
  refine .bind keeps_checkUsable fun _ => .get_bind fun s h => ?_
  rw [h.graph]
  exact keepsHoused_guarded (keepsHoused_onNetwork (Network.keepsHoused_flush g))

/-- Changing tuples houses nothing. -/
theorem keepsHoused_source (x : Action Agenda α) :
    Action.Keeps (Housed g) (onNetwork (Network.onAgenda x : NetworkAction kind α)) :=
  keepsHoused_onNetwork (Network.keepsHoused_onAgenda x)

theorem keepsHoused_attach (fact : Fact) :
    Action.Keeps (Housed g) (attach fact : SessionAction kind Unit) := by
  have attachAt (node : NodeId) : Action.Keeps (Housed g) (attachAt fact node) := by
    refine .get_bind fun s _ => .lift_bind fun visible _ => ?_
    split
    · exact .bind (keepsHoused_source _) fun _ => .pure _
    · exact .pure _
  exact .get_bind fun s _ => .bind (.mapM attachAt _) fun _ => .modify fun _ h => ⟨h.graph, h.memories⟩

theorem keepsHoused_refresh (fact : Fact) :
    Action.Keeps (Housed g) (refresh fact : SessionAction kind Unit) := by
  have refreshAt (node : NodeId) (tuple : Option TupleId) :
      Action.Keeps (Housed g) (refreshAt fact node tuple) := by
    refine .get_bind fun s _ => .lift_bind fun visible _ => ?_
    split
    · exact .bind (keepsHoused_source _) fun _ => .pure _
    · exact .bind (keepsHoused_source _) fun _ => .pure _
    · exact .bind (keepsHoused_source _) fun _ => .pure _
    · exact .pure _
  have refreshTuples (old : Fact) (rest : List (NodeId × Option TupleId)) :
      ∀ done, Action.Keeps (Housed g) (refreshTuples fact old done rest) := by
    induction rest with
    | nil => exact fun _ => .pure _
    | cons e rest ih =>
      intro done
      exact .bind (refreshAt e.1 e.2) fun _ => .bind (.modify fun _ h => ⟨h.graph, h.memories⟩) fun _ =>
        ih _
  refine .get_bind fun s _ => ?_
  split
  · exact .throw _
  · exact .bind (refreshTuples _ _ _) fun _ => .modify fun _ h => ⟨h.graph, h.memories⟩

theorem keepsHoused_detach (key : Fact.Key) :
    Action.Keeps (Housed g) (detach key : SessionAction kind Unit) := by
  refine .get_bind fun s h => ?_
  split
  · exact .pure _
  · exact .bind (.set ⟨h.graph, h.memories⟩) fun _ => .forM (fun _ => keepsHoused_source _) _

theorem keepsHoused_clear : Action.Keeps (Housed g) (clear : SessionAction kind Unit) := by
  refine .bind keeps_checkUsable fun _ => .bind (.modify fun s h => ?_) fun _ => .get_bind fun s h => ?_
  · exact ⟨h.graph, h.graph ▸ Network.housed_reset s.graph s.network⟩
  · rw [h.graph]
    exact keepsHoused_guarded (keepsHoused_onNetwork
      (.forM (fun e => .lift_bind fun p _ => Network.keepsHoused_setWeight p e.2) _))

theorem keepsHoused_setWeight (id : ConstraintId) (weight : Score kind) :
    Action.Keeps (Housed g) (setWeight id weight) := by
  refine .bind keeps_checkUsable fun _ => .get_bind fun s h => .lift_bind fun p _ => ?_
  rw [h.graph]
  split
  · exact .throw _
  · exact .bind (keepsHoused_onNetwork (Network.keepsHoused_setWeight p weight)) fun _ =>
      .modify fun _ h => ⟨h.graph, h.memories⟩

theorem keepsHoused_run (c : Call kind) : Action.Keeps (Housed g) c.run := by
  have hafter : Action.Keeps (Housed g) (afterChange : SessionAction kind Unit) :=
    keeps_afterChange keepsHoused_flush
  cases c with
  | insert facts =>
    exact .bind keeps_checkUsable fun _ => .get_bind fun _ _ => .lift_bind fun _ _ =>
      .lift_bind fun _ _ => .bind (keepsHoused_guarded (.forM keepsHoused_attach facts)) fun _ => hafter
  | update facts =>
    exact .bind keeps_checkUsable fun _ => .get_bind fun _ _ => .lift_bind fun _ _ =>
      .bind (keepsHoused_guarded (.forM keepsHoused_refresh facts)) fun _ => hafter
  | retract keys =>
    exact .bind keeps_checkUsable fun _ => .get_bind fun _ _ => .lift_bind fun _ _ =>
      .bind (keepsHoused_guarded (.forM keepsHoused_detach keys)) fun _ => hafter
  | clear => exact keepsHoused_clear
  | setWeight id weight => exact keepsHoused_setWeight id weight
  | _ => exact keeps_computing (fun _ h => ⟨h.graph, h.memories⟩) keepsHoused_flush rfl

end Session

/-- Calls that all succeed lead from a session that was reached to another. -/
theorem Reached.replay {kind : ScoreKind} {g : Graph kind} {s : Session kind} (h : Reached g s)
    (calls : List (Call kind)) (hok : (Call.replay calls s).1.all Except.isOk = true) :
    Reached g (Call.replay calls s).2 := by
  induction calls generalizing s with
  | nil => exact h
  | cons c rest ih =>
    unfold Call.replay at hok ⊢
    cases hrun : c.run s with
    | ok _ s' =>
      rw [hrun] at hok
      exact ih (.done c h hrun) hok
    | error e s' =>
      rw [hrun] at hok
      cases hok

/-- Calls leave the memories those of the nodes. -/
theorem Reached.housed {kind : ScoreKind} {g : Graph kind} {s : Session kind} (h : Reached g s) :
    s.Housed g := by
  induction h with
  | opened config order => exact ⟨rfl, Network.housed_reset _ _⟩
  | done c _ hrun ih => exact (Session.keepsHoused_run c _ ih).of_ok hrun
  | refused c _ _ ih => exact ih

namespace Session

variable {kind : ScoreKind} {g : Graph kind} {s s' : Session kind}

/-- A session that was reached and holds no facts is blank after a flush: no tuple is left and nothing
waits, every memory is empty, and every total is zero. -/
theorem flush_leaves_nothing (hg : g.Built) (hs : Reached g s) (hempty : s.factCount = 0) {count : Nat}
    (hflush : flush s = .ok count s') : Network.Blank s'.network := by
  have hfacts : s.facts = ∅ := Table.ext (List.eq_nil_of_length_eq_zero hempty)
  obtain ⟨h', hfacts', -, hrest⟩ := (flush_spec hg.wellFormed .any (.any g)
    (hs.holds hg.wellFormed)).of_ok hflush
  obtain ⟨K, hK⟩ := h'.sourced.consistent
  refine hK.blank hg.wellFormed hrest (keepsHoused_flush _ hs.housed |>.of_ok hflush).memories ?_
  intro p n hn hsource
  refine (h'.sourced.listing hn hsource).out_eq_none fun k => ?_
  rw [shown, hfacts', hfacts]
  rfl

/-- A session on `pairGraph` that took a fact in, propagated it, and gave it up again. -/
def emptiedPairSession : Session .simple :=
  (Call.replay [.insert [.scalar (.bool true)], .flush, .retract [(Fact.scalar (.bool true)).key]]
    (new pairGraph {})).2

theorem reached_emptiedPairSession : Reached pairGraph emptiedPairSession :=
  Reached.replay (.opened {}) _ (by decide +kernel)

/-- The fact, its pair with itself, and their count are drained. -/
theorem emptiedPairSession_flushes : Action.answers flush emptiedPairSession (· == 3) = true := by
  decide +kernel

theorem flush_leaves_nothing_pairs : pairGraph.Built ∧ Reached pairGraph emptiedPairSession ∧
    emptiedPairSession.factCount = 0 ∧
    ∃ s', flush emptiedPairSession = .ok 3 s' ∧ Network.Blank s'.network := by
  have hbuilt : pairGraph.Built := ⟨pairCount, rfl⟩
  have hempty : emptiedPairSession.factCount = 0 := by decide +kernel
  obtain ⟨count, s', hrun, hcount⟩ := Action.answers_iff.1 emptiedPairSession_flushes
  obtain rfl : count = 3 := beq_iff_eq.1 hcount
  exact ⟨hbuilt, reached_emptiedPairSession, hempty, s', hrun,
    flush_leaves_nothing hbuilt reached_emptiedPairSession hempty hrun⟩

end Session

end ConstraintStreams
