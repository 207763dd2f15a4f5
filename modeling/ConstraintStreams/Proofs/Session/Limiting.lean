import ConstraintStreams.Proofs.Network.Limiting
import ConstraintStreams.Proofs.Session.Accountable
import ConstraintStreams.Proofs.Session.Telling

/-!
# Flushes keep to their limit

Whatever calls were made on a session, and whichever way they ended, the tuples that wait are dirty, and
the limits are those of the configuration. So a flush that succeeds answers how many tuples it has
drained, each of them once, and keeps to the limit in its deliveries. A tuple that is withdrawn before
the children of its node saw it takes no delivery, but is drained like any other: it does not count
against the limit.
-/

namespace ConstraintStreams

open ConstraintStreams.Action (Keeps)
open Agenda (Waiting)

namespace Session

variable {kind : ScoreKind} {g : Graph kind} {l : Limits}

/-- What waits is dirty, under the given limits. -/
abbrev Limited (l : Limits) : Session kind → Prop := On fun agenda => Waiting [] agenda ∧ agenda.limits = l

namespace Limited

theorem keeps_flush : Keeps (Limited l) (flush : SessionAction kind Nat) :=
  .bind keeps_checkUsable fun _ => .get_bind fun s _ => keeps_guarded (fun _ h => h) <| keeps_asking <|
    (Network.keepsWaiting_flush s.graph).and (Network.keepsLimits_flush s.graph l)

/-- A session that starts over is as limited as it was. -/
theorem keeps_startOver : Keeps (Limited l) (startOver : SessionAction kind Unit) :=
  .modify fun s h => ⟨.of_blank (Network.reset_agenda s.graph s.network).1,
    (Network.reset_limits s.graph s.network).trans h.2⟩

/-- Whichever way a call ends, the session stays limited. -/
theorem keeps_run (c : Call kind) : Keeps (Limited l) c.run := by
  have hpoison (s : Session kind) (h : Limited l s) : Limited l { s with poisoned := true } := h
  cases c with
  | insert | update | retract =>
    exact keeps_sourcesChanging
      (keepsSources_asking ((Waiting.outlasts []).and (Agenda.limits_outlast l)))
      (fun _ _ h => h) hpoison keeps_flush rfl
  | clear =>
    show Keeps _ clear
    rw [clear_eq]
    exact .bind keeps_checkUsable fun _ => .bind keeps_startOver fun _ => keeps_asking_reweigh
  | setWeight name weight => exact keeps_asking_setWeight name weight
  | _ => exact keeps_computing hpoison keeps_flush rfl

theorem opened (g : Graph kind) (config : Config) (order : TupleStore → HashOrder) :
    Limited config.limits (new g config order) :=
  ⟨.of_blank (Network.reset_agenda g _).1, Network.reset_limits g _⟩

theorem replay (g : Graph kind) (config : Config) (order : TupleStore → HashOrder)
    (calls : List (Call kind)) :
    Limited config.limits (Call.replay calls (new g config order)).2 :=
  keeps_replay keeps_run (opened g config order) calls

end Limited

/-- A flush that succeeds answers how many tuples it has drained, whatever calls were made before and
whichever way they ended: no tuple is drained twice, and each is dirty as its turn comes. It made no more
deliveries than the limit. The tuples are no more than that together with those that were withdrawn
before the children of their nodes saw them; where there are none of these, the limit is one on tuples. -/
theorem flush_within_limit (hg : g.Built) (config : Config) (order : TupleStore → HashOrder)
    (calls : List (Call kind)) {n : Nat} {s' : Session kind}
    (hflush : flush (Call.replay calls (new g config order)).2 = .ok n s') :
    let drained := (Call.replay calls (new g config order)).2.network.drained g
    n = drained.length ∧ (drained.map Prod.fst).Nodup ∧ (∀ e ∈ drained, e.2.isDirty = true) ∧
      s'.network.operations ≤ config.limits.maxOperationsPerFlush ∧
      n ≤ config.limits.maxOperationsPerFlush + drained.countP (fun e => e.2 = .aborting) ∧
      ((∀ e ∈ drained, e.2 ≠ .aborting) → n ≤ config.limits.maxOperationsPerFlush) := by
  have hgraph := ((Accountable.opened g config order).replay hg.wellFormed calls).graph
  obtain ⟨hwaiting, hlimits⟩ := Limited.replay g config order calls
  generalize (Call.replay calls (new g config order)).2 = s at *
  obtain ⟨-, net, hnet, rfl⟩ := flush_eq_ok hflush
  rw [hgraph] at hnet
  obtain ⟨hcount, hnodup, hdirty, hdeliveries, hbound⟩ := Network.flush_drained hg hwaiting hnet
  rw [hlimits] at hdeliveries hbound
  refine ⟨hcount, hnodup, hdirty, hdeliveries, hbound, fun hseen => ?_⟩
  have hnone : (s.network.drained g).countP (fun e => e.2 = .aborting) = 0 :=
    List.countP_eq_zero.2 fun e he => by simpa using hseen e he
  rwa [hnone] at hbound

/-- The declarations of a graph that charges each of two flags. -/
def flags : List (Declaration .simple) :=
  [.forEach (.scalar .bool) false, .charge (some ⟨1⟩) "flags" (.simple 1) .penalty none]

/-- The graph of `flags`. -/
def flagGraph : Graph .simple := (Blueprint.declare flags {}).prune

/-- One delivery is allowed in a flush. -/
def oneDelivery : Config := { limits := { maxOperationsPerFlush := 1 } }

/-- Both flags come in, and some are withdrawn before they are seen. -/
def withdrawing (values : List Bool) : List (Call .simple) :=
  [.insert [.scalar (.bool true), .scalar (.bool false)],
    .retract (values.map fun b => (Fact.scalar (.bool b)).key)]

/-- The delivery that is allowed is made, and one tuple more is drained. -/
theorem flush_within_limit_flags : flagGraph.Built ∧ ∃ s',
    let s := (Call.replay (withdrawing [false]) (new flagGraph oneDelivery)).2
    flush s = .ok 2 s' ∧ 2 ≤ oneDelivery.limits.maxOperationsPerFlush +
      (s.network.drained flagGraph).countP fun e => e.2 = .aborting := by
  have hbuilt : flagGraph.Built := ⟨flags, rfl⟩
  have hanswers : Action.answers flush
      (Call.replay (withdrawing [false]) (new flagGraph oneDelivery)).2 (· == 2) = true := by
    decide +kernel
  obtain ⟨n, s', hflush, hn⟩ := Action.answers_iff.1 hanswers
  obtain rfl := beq_iff_eq.1 hn
  exact ⟨hbuilt, s', hflush, (flush_within_limit hbuilt oneDelivery _ _ hflush).2.2.2.2.1⟩

/-- Both flags are withdrawn before they are seen: two tuples are drained, where the limit is one. -/
theorem flush_over_limit : (Blueprint.build (Blueprint.declare flags {})).1 = .ok flagGraph ∧
    oneDelivery.validate = .ok () ∧ ∃ n s',
      let s := (Call.replay (withdrawing [true, false]) (new flagGraph oneDelivery)).2
      flush s = .ok n s' ∧ n = (s.network.drained flagGraph).length ∧
        ¬ n ≤ oneDelivery.limits.maxOperationsPerFlush := by
  have hanswers : Action.answers flush
      (Call.replay (withdrawing [true, false]) (new flagGraph oneDelivery)).2 (· == 2) = true := by
    decide +kernel
  have hdrained : ((Call.replay (withdrawing [true, false])
      (new flagGraph oneDelivery)).2.network.drained flagGraph).length = 2 := by
    decide +kernel
  obtain ⟨n, s', hflush, hn⟩ := Action.answers_iff.1 hanswers
  obtain rfl := beq_iff_eq.1 hn
  exact ⟨rfl, rfl, 2, s', hflush, hdrained.symm, by decide⟩

end Session

end ConstraintStreams
