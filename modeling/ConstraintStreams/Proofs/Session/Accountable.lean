import ConstraintStreams.Proofs.Network.Accounts
import ConstraintStreams.Proofs.Session.Settling

/-!
# Sessions keep their accounts

Whatever calls were made on a session, and whichever way they ended, its memories list only what was
made at their nodes, and as long as it is usable, every ledger balances; when it is poisoned, every ledger
does that some total could bring into balance. So a score that was computed can be broken down without
anything happening in between.
-/

namespace ConstraintStreams

open ConstraintStreams.Action (Ends Keeps)

namespace Session

variable {kind : ScoreKind} {g : Graph kind} {s s' : Session kind}

/-- What holds of a session on a graph between calls. -/
structure Accountable (g : Graph kind) (s : Session kind) : Prop where
  graph : s.graph = g
  owning : Network.Owning g s.network
  accounts : s.poisoned = false → Network.Accounts g s.network
  sound : Network.Books Network.Sound g s.network

namespace Accountable

theorem poison (s : Session kind) (h : Accountable g s) : Accountable g { s with poisoned := true } :=
  ⟨h.graph, h.owning, Bool.noConfusion, h.sound⟩

theorem withFacts (s : Session kind) (facts : Table Fact.Key SourceFact) (h : Accountable g s) :
    Accountable g { s with facts } := ⟨h.graph, h.owning, h.accounts, h.sound⟩

/-- Work on the network keeps a session accountable if it does so for networks. -/
theorem keeps_onNetwork {α : Type} {x : NetworkAction kind α} (howning : Keeps (Network.Owning g) x)
    (haccounts : Keeps (Network.Accounts g) x) (hsound : Keeps (Network.Books Network.Sound g) x) :
    Keeps (Accountable g) (onNetwork x) := by
  intro s h
  cases hp : s.poisoned with
  | true =>
    have hnever {net : Network kind} (hf : s.poisoned = false) : Network.Accounts g net :=
      absurd (hp.symm.trans hf) (by decide)
    refine Action.ends_within.2 (((howning _ h.owning).and (hsound _ h.sound)).mono ?_ ?_)
    · exact fun _ _ h' => ⟨h.graph, h'.1, hnever, h'.2⟩
    · exact fun _ h' => ⟨h.graph, h'.1, hnever, h'.2⟩
  | false =>
    refine Action.ends_within.2 (((howning _ h.owning).and (haccounts _ (h.accounts hp))).mono ?_ ?_)
    · exact fun _ _ h' => ⟨h.graph, h'.1, fun _ => h'.2, h'.2.sound⟩
    · exact fun _ h' => ⟨h.graph, h'.1, fun _ => h'.2, h'.2.sound⟩

theorem keeps_onAgenda {α : Type} {x : Action Agenda α}
    (hx : ∀ g₀, Keeps (Agenda.Later g₀) x) :
    Keeps (Accountable g) (onNetwork (Network.onAgenda x) : SessionAction kind α) :=
  keeps_onNetwork (Network.Owning.keeps_onAgenda hx) (Network.Accounts.keeps_onAgenda x)
    (Network.Books.keeps_onAgenda x)

theorem keepsSources : KeepsSources (Accountable g) where
  insert p fact := keeps_onAgenda fun g₀ => (Agenda.Later.outlasts g₀).create p [fact] .none
  update id fact := keeps_onAgenda fun g₀ =>
    .bind ((Agenda.Later.outlasts g₀).setFacts id [fact]) fun _ => (Agenda.Later.outlasts g₀).update id
  retract id := keeps_onAgenda fun g₀ => (Agenda.Later.outlasts g₀).retract id

/-- A flush that fails leaves every ledger balanced, or the session poisoned. -/
theorem keeps_flush (hg : g.WellFormed) : Keeps (Accountable g) (flush : SessionAction kind Nat) := by
  intro s h
  cases hp : s.poisoned with
  | true =>
    have hrefused : flush s = .error .sessionPoisoned s :=
      Action.bind_error (checkUsable_of_poisoned hp)
    unfold Ends
    rw [hrefused]
    exact h
  | false =>
    have howning := h.owning.flush hg
    have haccounts := Network.keepsAccounts_flush g s.network (h.accounts hp)
    unfold Ends
    cases hnet : Network.flush s.graph s.network with
    | ok count net =>
      rw [flush_ok hp hnet]
      rw [h.graph] at hnet
      have hbalanced := haccounts.of_ok hnet
      exact ⟨h.graph, (howning.of_ok hnet).1, fun _ => hbalanced, hbalanced.sound⟩
    | error e net =>
      rw [flush_error hp hnet]
      rw [h.graph] at hnet
      refine ⟨h.graph, howning.of_error hnet, fun hclean => (haccounts.of_error hnet).resolve_left ?_,
        (haccounts.of_error hnet).elim And.right Network.Accounts.sound⟩
      exact fun he => absurd (hclean.symm.trans he.1) (by decide)

theorem keeps_startOver : Keeps (Accountable g) startOver :=
  .modify fun s h => ⟨h.graph, h.graph ▸ Network.owning_reset s.graph s.network,
    fun _ => h.graph ▸ Network.accounts_reset s.graph s.network,
    h.graph ▸ (Network.accounts_reset s.graph s.network).sound⟩

theorem keeps_setWeightAt (p : NodeId) (weight : Score kind) :
    Keeps (Accountable g) (onNetwork (Network.setWeight g p weight)) :=
  keeps_onNetwork (Network.keepsOwning_setWeight p weight) (Network.keepsAccounts_setWeight p weight)
    (Network.keepsSound_setWeight p weight)

theorem keeps_reweigh : Keeps (Accountable g) reweigh := by
  refine .get_bind fun s h => keeps_guarded poison ?_
  rw [h.graph]
  exact keeps_onNetwork
    (.forM (fun e => .lift_bind fun p _ => Network.keepsOwning_setWeight p e.2) _)
    (.forM (fun e => .lift_bind fun p _ => Network.keepsAccounts_setWeight p e.2) _)
    (.forM (fun e => .lift_bind fun p _ => Network.keepsSound_setWeight p e.2) _)

theorem keeps_setWeight (name : ConstraintId) (weight : Score kind) :
    Keeps (Accountable g) (setWeight name weight) := by
  refine .bind keeps_checkUsable fun _ => .get_bind fun s h => .lift_bind fun p _ => ?_
  rw [h.graph]
  split
  · exact .throw _
  · exact .bind (keeps_setWeightAt p weight) fun _ =>
      .modify fun _ h => ⟨h.graph, h.owning, h.accounts, h.sound⟩

/-- Whichever way a call ends, the session stays accountable. -/
theorem keeps_run (hg : g.WellFormed) (c : Call kind) : Keeps (Accountable g) c.run := by
  have hflush := keeps_flush hg
  cases c with
  | insert | update | retract =>
    exact keeps_sourcesChanging keepsSources withFacts poison hflush rfl
  | clear =>
    show Keeps _ clear
    rw [clear_eq]
    exact .bind keeps_checkUsable fun _ => .bind keeps_startOver fun _ => keeps_reweigh
  | setWeight name weight => exact keeps_setWeight name weight
  | _ => exact keeps_computing poison hflush rfl

theorem opened (g : Graph kind) (config : Config) (order : TupleStore → HashOrder) :
    Accountable g (new g config order) :=
  ⟨rfl, Network.owning_new g config.limits order, fun _ => Network.accounts_new g config.limits order,
    (Network.accounts_new g config.limits order).sound⟩

/-- Whatever calls are made, and whichever way they end, the session stays accountable. -/
theorem replay (hg : g.WellFormed) (h : Accountable g s) (calls : List (Call kind)) :
    Accountable g (Call.replay calls s).2 :=
  keeps_replay (keeps_run hg) h calls

/-- A session that has been flushed has nothing to flush. -/
theorem flush_flush (hg : g.WellFormed) (h : Accountable g s) {count : Nat}
    (hflush : flush s = .ok count s') :
    flush s' = .ok 0 { s' with network := { s'.network with operations := 0 } } := by
  obtain ⟨husable, net, hnet, rfl⟩ := flush_eq_ok hflush
  rw [h.graph] at hnet
  exact flush_ok husable (by rw [show _ = _ from h.graph]; exact h.owning.flush_flush hg hnet)

end Accountable

end Session

end ConstraintStreams
