import ConstraintStreams.Proofs.Graph.Layout
import ConstraintStreams.Proofs.Network.Turns
import ConstraintStreams.Proofs.Tuple.Waiting

/-!
# What the limit on deliveries says about tuples

A flush counts the deliveries that it makes, and the limit is on these. Every tuple that it drains is
delivered to the children of its node at least once, but for those that were withdrawn before the children
ever saw them: they are drained without a delivery. So a flush that succeeds has drained no more tuples
than the limit allows deliveries, and those.
-/

namespace ConstraintStreams

open ConstraintStreams.Action (Ends Ensures Keeps KeepsUnless)
open Agenda (Belongs Continues Waiting)

/-! ## Limits stay -/

namespace Agenda

/-- The limits of an agenda are what they were. -/
theorem keepsLimits_enqueue (l : Limits) (p : NodeId) (u : TupleId) :
    Keeps (·.limits = l) (enqueue p u) := by
  refine .get_bind fun g h => ?_
  split
  · exact .throw _
  · exact .set h

theorem keepsLimits_setTuple (l : Limits) (u : TupleId) (t : Tuple) :
    Keeps (·.limits = l) (setTuple u t) := .modify fun _ h => h

/-- Operators do not touch the limits. -/
theorem limits_outlast (l : Limits) : Outlasts (·.limits = l) where
  create p facts sources := by
    refine .get_bind fun g h => .lift_bind fun made _ => .bind (.set h) fun _ => fun g h => ?_
    rw [Action.ends_bind]
    exact Ends.handle (keepsLimits_enqueue l p made.1 g h) fun _ _ h' => h'
  update u := by
    refine .get_bind fun g h => .lift_bind fun t _ => ?_
    split
    · exact .bind (keepsLimits_setTuple l u _) fun _ => keepsLimits_enqueue l _ u
    · exact .pure _
    · exact .pure _
    · exact .throw _
  retract u := by
    refine .get_bind fun g h => .lift_bind fun t _ => ?_
    split
    · exact keepsLimits_setTuple l u _
    · exact .bind (keepsLimits_setTuple l u _) fun _ => keepsLimits_enqueue l _ u
    · exact keepsLimits_setTuple l u _
    · exact .throw _
  setFacts u facts := .get_bind fun g h => .lift_bind fun t _ => keepsLimits_setTuple l u _
  number _ _ h := h

theorem keepsLimits_setStage (l : Limits) (u : TupleId) (stage : Stage) :
    Keeps (·.limits = l) (setStage u stage) :=
  .get_bind fun _ _ => .lift_bind fun _ _ => keepsLimits_setTuple l u _

theorem keepsLimits_release (l : Limits) (u : TupleId) : Keeps (·.limits = l) (release u) :=
  .modify fun _ h => h

theorem keepsLimits_takeQueue (l : Limits) (p : NodeId) : Keeps (·.limits = l) (takeQueue p) := by
  refine .get_bind fun g h => ?_
  split
  · exact .pure _
  · exact .lift_bind fun _ _ => .bind (.set h) fun _ => .pure _

end Agenda

namespace Network

variable {kind : ScoreKind} {g : Graph kind} {net net' : Network kind} {l : Limits} {k : Nat}
  {p q : NodeId} {n : Node kind} {u x : TupleId} {queue rest : List TupleId} {nodes : List NodeId}

theorem keepsLimits_flush (g : Graph kind) (l : Limits) : Keeps (On (·.limits = l)) (flush g) := by
  have hI := Agenda.limits_outlast l
  have withstands : Withstands g (fun _ _ => False) (On (·.limits = l)) :=
    { toConserves := conserves hI g
      refresh := fun p => .of_keeps (keeps_refresh hI g p)
      settle := fun u => keeps_onAgenda (Agenda.keepsLimits_setStage l u .settled)
      release := fun u => keeps_onAgenda (Agenda.keepsLimits_release l u)
      takeQueue := fun p => keeps_onAgenda (Agenda.keepsLimits_takeQueue l p) }
  exact withstands.flush.keeps fun _ _ => False.elim

/-! ## Deliveries are counted -/

/-- In a flush under some limits, so many deliveries were made at least, and no more than is allowed. -/
structure Counted (l : Limits) (k : Nat) (net : Network kind) : Prop where
  limits : net.agenda.limits = l
  made : k ≤ net.operations
  allowed : net.operations ≤ l.maxOperationsPerFlush

theorem Counted.mono {k' : Nat} (h : Counted l k' net) (hle : k ≤ k') : Counted l k net :=
  ⟨h.limits, Nat.le_trans hle h.made, h.allowed⟩

/-- Work that keeps the agenda's limits and makes no deliveries. -/
theorem Counted.of_keeps {α : Type} {x : NetworkAction kind α} (h : Counted l k net)
    (hlimits : Keeps (On (·.limits = l)) x) (hcount : Keeps (·.operations = net.operations) x) :
    Ensures (fun _ => True) x net fun _ => Counted l k := by
  refine ((hlimits net h.limits).and (hcount net rfl)).ensures.mono ?_
  rintro _ net' ⟨hlimits', hcount'⟩
  exact ⟨hlimits', hcount' ▸ h.made, hcount' ▸ h.allowed⟩

theorem keepsCount_onAgenda {α : Type} (c : Nat) (x : Action Agenda α) :
    Keeps (·.operations = c) (onAgenda x : NetworkAction kind α) := by
  intro net h
  refine Action.ends_within.2 ?_
  unfold Ends
  split <;> exact h

theorem keepsCount_onMemory {μ α : Type} (c : Nat) (p : NodeId) (m : μ) (wrap : μ → NodeMemory kind)
    (x : Work μ α) : Keeps (·.operations = c) (onMemory p m wrap x) := by
  intro net h
  refine Action.ends_within.2 ?_
  unfold Ends
  split <;> exact h

theorem keepsCount_act (c : Nat) (p : NodeId) (n : Node kind) (side : Side) (u : TupleId)
    (signal : Signal) : Keeps (·.operations = c) (act p n side u signal) := by
  unfold act
  refine .bind (keeps_memoryOf p) fun m => ?_
  split
  · exact keepsCount_onMemory c _ _ _ _
  all_goals first
    | exact .bind (keepsCount_onMemory c _ _ _ _) fun _ => .pure _
    | exact .throw _

/-- A delivery is counted, however far it goes on from there. -/
theorem Counted.deliver (h : Counted l k net) (g : Graph kind) (depth : Nat) (signal : Signal)
    (u : TupleId) (link : Link) :
    Ensures (fun _ => True) (deliver g depth signal u link) net fun _ => Counted l (k + 1) := by
  induction depth generalizing k net signal link with
  | zero => trivial
  | succ depth ih =>
    unfold Network.deliver countOperation
    simp only [Action.ensures_bind, Action.ensures_modify, Action.ensures_get, Action.ensures_lift,
      implies_true, and_true]
    intro _ hcheck n _
    have hallowed : net.operations + 1 ≤ l.maxOperationsPerFlush := by
      unfold Limits.check at hcheck
      split at hcheck
      · cases hcheck
      · next hle => exact h.limits ▸ Nat.not_lt.1 hle
    have hcounted : Counted l (k + 1) { net with operations := net.operations + 1 } :=
      ⟨h.limits, Nat.succ_le_succ h.made, hallowed⟩
    refine (hcounted.of_keeps (keeps_act (Agenda.limits_outlast l) _ _ _ _ _)
      (keepsCount_act _ _ _ _ _ _)).mono fun next net' h' => ?_
    cases next with
    | none => exact h'
    | some next =>
      exact Ensures.forM (fun _ => Counted l (k + 1))
        (fun _ _ net h => (ih h next _).mono fun _ _ h' => h'.mono (Nat.le_succ _)) h'

/-- So many children, so many deliveries. -/
theorem Counted.forward (h : Counted l k net) (hn : g.nodes.get? p = some n) (signal : Signal)
    (u : TupleId) :
    Ensures (fun _ => True) (forward g p signal u) net fun _ =>
      Counted l (k + n.children.length) := by
  unfold Network.forward
  rw [Action.ensures_bind, Action.ensures_lift_of_ok (Graph.node_eq_ok.2 hn)]
  generalize n.children = links
  induction links generalizing k net with
  | nil => exact h
  | cons link rest ih =>
    rw [Action.ensures_forM_cons]
    refine (h.deliver g g.height signal u link).mono fun _ _ h' => (ih h').mono fun _ _ h'' => ?_
    exact h''.mono (by rw [List.length_cons]; omega)

/-! ## What is drained -/

/-- The tuples of a queue that a node deals with, each with the stage in which its turn finds it. -/
def dealtWith (g : Graph kind) (p : NodeId) : List TupleId → Network kind → List (TupleId × Stage)
  | [], _ => []
  | u :: rest, net =>
    (u, net.agenda.stageOf u) :: match process g p u net with
      | .ok _ net' => dealtWith g p rest net'
      | .error _ _ => []

/-- What a node does before it deals with its tuples: it settles its outputs, and takes its queue. -/
def take (g : Graph kind) (p : NodeId) : NetworkAction kind (List TupleId) := do
  refresh g p
  onAgenda (Agenda.takeQueue p)

/-- The tuples that are drained when nodes have their turns, in order. -/
def drainedBy (g : Graph kind) : List NodeId → Network kind → List (TupleId × Stage)
  | [], _ => []
  | p :: rest, net => match take g p net with
    | .error _ _ => []
    | .ok queue net' =>
      dealtWith g p queue net' ++ match queue.forM (process g p) net' with
        | .ok _ net'' => drainedBy g rest net''
        | .error _ _ => []

/-- The tuples that a flush drains, in order, each with the stage in which its turn finds it. -/
def drained (g : Graph kind) (net : Network kind) : List (TupleId × Stage) :=
  drainedBy g g.layers.flatten { net with operations := 0 }

theorem drain_eq (g : Graph kind) (p : NodeId) : drain g p = (do
    let queue ← take g p
    queue.forM (process g p)
    pure queue.length) := by
  unfold drain take
  rw [bind_assoc]

/-- What it means that nodes have their turns without a failure. -/
theorem drainAll_cons_ok {count : Nat} (h : drainAll g (p :: nodes) net = .ok count net') :
    ∃ queue taken left count', take g p net = .ok queue taken ∧
      queue.forM (process g p) taken = .ok () left ∧ drainAll g nodes left = .ok count' net' ∧
      count = queue.length + count' ∧
      drainedBy g (p :: nodes) net = dealtWith g p queue taken ++ drainedBy g nodes left := by
  unfold drainAll at h
  rw [drain_eq] at h
  obtain ⟨_, left, hdrain, h⟩ := Action.bind_eq_ok.1 h
  obtain ⟨queue, taken, htake, hdrain⟩ := Action.bind_eq_ok.1 hdrain
  obtain ⟨_, left', hqueue, hdrain⟩ := Action.bind_eq_ok.1 hdrain
  cases hdrain
  obtain ⟨count', _, hrest, h⟩ := Action.bind_eq_ok.1 h
  cases h
  refine ⟨queue, taken, left, count', htake, hqueue, hrest, rfl, ?_⟩
  conv => lhs; unfold drainedBy
  simp only [htake, hqueue]

/-! ### What waits, waits on -/

/-- Once a tuple is dealt with, the rest of the queue is dirty still. -/
theorem waiting_process (g : Graph kind) (p : NodeId) (h : Waiting (u :: rest) net.agenda) :
    Ends (process g p u) net (fun _ => On (Waiting rest)) (On (Waiting [])) := by
  have settle (net : Network kind) (h : Waiting (u :: rest) net.agenda) :
      Ends (onAgenda (Agenda.setStage u .settled)) net (fun _ => On (Waiting rest))
        (On (Waiting [])) := Action.ends_within.2 (h.setStage .settled)
  have release (net : Network kind) (h : Waiting (u :: rest) net.agenda) :
      Ends (onAgenda (Agenda.release u)) net (fun _ => On (Waiting rest)) (On (Waiting [])) :=
    Action.ends_within.2 h.release
  have told {away : List TupleId} (net : Network kind) (signal : Signal)
      (h : Waiting away net.agenda) :
      Ends (forward g p signal u) net (fun _ => On (Waiting away)) (On (Waiting [])) :=
    (keeps_forward (Waiting.outlasts away) g p signal u net h).mono (fun _ _ => id)
      fun _ h' => Waiting.forget h'
  unfold process
  rw [Action.ends_bind, Action.ends_get, Action.ends_bind, Action.ends_lift]
  refine ⟨fun stage _ => ?_, fun _ _ => h.forget⟩
  cases stage with
  | creating =>
    rw [Action.ends_bind]
    exact (settle net h).mono (fun _ net h => told net .insert h) fun _ => id
  | updating =>
    rw [Action.ends_bind]
    exact (settle net h).mono (fun _ net h => told net .update h) fun _ => id
  | dying =>
    rw [Action.ends_bind]
    exact (told net .retract h).mono (fun _ net h => release net h) fun _ => id
  | aborting => exact release net h
  | settled => exact h.lose (List.sublist_cons_self u rest)
  | dead => exact h.lose (List.sublist_cons_self u rest)

/-- What a node is about to deal with, is dirty and belongs to the node. -/
theorem take_ends (g : Graph kind) (p : NodeId) (h : Waiting [] net.agenda) :
    Ends (take g p) net
      (fun queue net' => Waiting queue net'.agenda ∧ ∀ u ∈ queue, Belongs p u net'.agenda)
      (On (Waiting [])) := by
  unfold take
  rw [Action.ends_bind]
  exact (keeps_refresh (Waiting.outlasts []) g p net h).mono
    (fun _ net (h : Waiting [] net.agenda) => Action.ends_within.2 (h.takeQueue p)) fun _ => id

theorem waiting_queue (g : Graph kind) (p : NodeId) (h : Waiting queue net.agenda) :
    Ends (queue.forM (process g p)) net (fun _ => On (Waiting [])) (On (Waiting [])) :=
  Ends.forM (fun rest (net : Network kind) => Waiting rest net.agenda)
    (fun _ _ _ h => waiting_process g p h) h

/-- After a flush the queues hold dirty tuples as before, whichever way it ended. -/
theorem keepsWaiting_flush (g : Graph kind) : Keeps (On (Waiting [])) (flush g) := by
  have drain (p : NodeId) : Keeps (On (Waiting [])) (drain g p) := by
    rw [drain_eq]
    intro net h
    rw [Action.ends_bind]
    refine (take_ends g p h).mono (fun queue taken h => ?_) fun _ => id
    rw [Action.ends_bind]
    exact waiting_queue g p h.1
  have drainAll (nodes : List NodeId) : Keeps (On (Waiting [])) (drainAll g nodes) := by
    induction nodes with
    | nil => exact .pure _
    | cons p rest ih => exact .bind (drain p) fun _ => .bind ih fun _ => .pure _
  exact .bind (.modify fun _ h => h) fun _ => drainAll _

/-! ### Every tuple once -/

/-- What a node deals with are the tuples of its queue. -/
theorem map_dealtWith (hqueue : queue.forM (process g p) net = .ok () net') :
    (dealtWith g p queue net).map Prod.fst = queue := by
  induction queue generalizing net with
  | nil => rfl
  | cons u rest ih =>
    obtain ⟨_, net₁, hprocess, hrest⟩ := Action.bind_eq_ok.1 hqueue
    simp only [dealtWith, hprocess]
    rw [List.map_cons, ih hrest]

/-- Names go on belonging to their nodes while nodes take their queues. -/
theorem belongs_take (h : net.agenda.Orderly) (hx : Belongs q x net.agenda)
    (htake : take g p net = .ok queue net') : Belongs q x net'.agenda := by
  have hlasts := withstands_continues g net.agenda
  have hkeeps : Keeps (On (Continues net.agenda)) (take g p) :=
    (KeepsUnless.bind (hlasts.refresh p) fun _ => .of_keeps (hlasts.takeQueue p)).keeps
      fun _ _ => False.elim
  exact hx.continues ((hkeeps net h.start).of_ok htake)

/-- And while they deal with them. -/
theorem belongs_queue (h : net.agenda.Orderly) (hx : Belongs q x net.agenda)
    (hqueue : queue.forM (process g p) net = .ok () net') : Belongs q x net'.agenda := by
  have hkeeps : Keeps (On (Continues net.agenda)) (queue.forM (process g p)) :=
    (KeepsUnless.forM ((withstands_continues g net.agenda).process p) queue).keeps
      fun _ _ => False.elim
  exact hx.continues ((hkeeps net h.start).of_ok hqueue)

/-- A name that belongs to a node that has no turn is not drained. -/
theorem not_drained (h : Waiting [] net.agenda) (hx : Belongs q x net.agenda) (hq : q ∉ nodes)
    {count : Nat} (hdrain : drainAll g nodes net = .ok count net') :
    x ∉ (drainedBy g nodes net).map Prod.fst := by
  induction nodes generalizing net count with
  | nil => exact List.not_mem_nil
  | cons p rest ih =>
    obtain ⟨queue, taken, left, count', htake, hqueue, hrest, -, heq⟩ := drainAll_cons_ok hdrain
    obtain ⟨hwaiting, hbelongs⟩ := (take_ends g p h).of_ok htake
    have hxtaken := belongs_take h.orderly hx htake
    have hxleft := belongs_queue hwaiting.orderly hxtaken hqueue
    rw [heq, List.map_append, map_dealtWith hqueue, List.mem_append]
    rintro (hmem | hmem)
    · -- A tuple of the queue is there, and of the node whose turn it is.
      obtain ⟨t, ht, -⟩ := hwaiting.away_dirty hmem
      refine hq (List.mem_cons.2 (.inl ?_))
      rw [← hxtaken.node_eq ht, (hbelongs x hmem).node_eq ht]
    · exact ih ((waiting_queue g p hwaiting).of_ok hqueue) hxleft
        (fun hm => hq (List.mem_cons_of_mem p hm)) hrest hmem

/-- No tuple is drained twice. -/
theorem drainedBy_nodup (h : Waiting [] net.agenda) (hnodes : nodes.Nodup) {count : Nat}
    (hdrain : drainAll g nodes net = .ok count net') :
    ((drainedBy g nodes net).map Prod.fst).Nodup := by
  induction nodes generalizing net count with
  | nil => exact List.nodup_nil
  | cons p rest ih =>
    obtain ⟨hp, hrestnodup⟩ := List.nodup_cons.1 hnodes
    obtain ⟨queue, taken, left, count', htake, hqueue, hrest, -, heq⟩ := drainAll_cons_ok hdrain
    obtain ⟨hwaiting, hbelongs⟩ := (take_ends g p h).of_ok htake
    have hleft := (waiting_queue g p hwaiting).of_ok hqueue
    rw [heq, List.map_append, map_dealtWith hqueue, List.nodup_append']
    exact ⟨hwaiting.away_nodup, ih hleft hrestnodup hrest, fun x hx =>
      not_drained hleft (belongs_queue hwaiting.orderly (hbelongs x hx) hqueue) hp hrest⟩

/-! ### How many -/

theorem Counted.take (h : Counted l k net) (g : Graph kind) (p : NodeId) :
    Ensures (fun _ => True) (take g p) net fun _ => Counted l k := by
  refine h.of_keeps (.bind (keeps_refresh (Agenda.limits_outlast l) g p) fun _ =>
    keeps_onAgenda (Agenda.keepsLimits_takeQueue l p)) (.bind ?_ fun _ => keepsCount_onAgenda _ _)
  unfold refresh
  refine .bind (.lift _) fun n => .get_bind fun net _ => ?_
  split
  · exact keepsCount_onMemory _ _ _ _ _
  · exact keepsCount_onMemory _ _ _ _ _
  · exact .pure _

/-- The children of a node are told about a tuple, unless it was withdrawn before they saw it. -/
theorem process_counted (hn : g.nodes.get? p = some n) (hchildren : n.children ≠ [])
    (h : Waiting (u :: rest) net.agenda) (hcounted : Counted l k net) :
    Ensures (fun _ => True) (process g p u) net fun _ =>
      Counted l (k + if net.agenda.stageOf u = .aborting then 0 else 1) := by
  obtain ⟨t, ht, hdirty⟩ := h.away_dirty List.mem_cons_self
  have hstage : net.agenda.stageOf u = t.stage := by simp [Agenda.stageOf, ht]
  have hpos : 1 ≤ n.children.length := List.length_pos_iff.2 hchildren
  have told {net : Network kind} (hcounted : Counted l k net) (signal : Signal) :
      Ensures (fun _ => True) (forward g p signal u) net fun _ => Counted l (k + 1) :=
    (hcounted.forward hn signal u).mono fun _ _ h' => h'.mono (by omega)
  have aside {k : Nat} {net : Network kind} (hcounted : Counted l k net) {x : Action Agenda Unit}
      (hx : Keeps (·.limits = l) x) :
      Ensures (fun _ => True) (onAgenda x) net fun _ => Counted l k :=
    hcounted.of_keeps (keeps_onAgenda hx) (keepsCount_onAgenda _ _)
  have settled := Agenda.keepsLimits_setStage l u .settled
  have released := Agenda.keepsLimits_release l u
  unfold process
  rw [hstage, Action.ensures_bind, Action.ensures_get, Action.ensures_bind,
    Action.ensures_lift_of_ok (Agenda.stage_eq ht)]
  cases hs : t.stage with
  | creating =>
    rw [Action.ensures_bind]
    exact (aside hcounted settled).mono fun _ _ h' => told h' .insert
  | updating =>
    rw [Action.ensures_bind]
    exact (aside hcounted settled).mono fun _ _ h' => told h' .update
  | dying =>
    rw [Action.ensures_bind]
    exact (told hcounted .retract).mono fun _ _ h' => aside h' released
  | aborting => exact aside hcounted released
  | settled =>
    rw [hs] at hdirty
    cases hdirty
  | dead =>
    rw [hs] at hdirty
    cases hdirty

/-- What a node deals with in its turn is dirty, and counted but for what nobody saw. -/
theorem dealtWith_spec (hn : g.nodes.get? p = some n) (hchildren : n.children ≠ [])
    (h : Waiting queue net.agenda) (hcounted : Counted l k net)
    (hqueue : queue.forM (process g p) net = .ok () net') :
    (∀ e ∈ dealtWith g p queue net, e.2.isDirty = true) ∧
      Counted l (k + (dealtWith g p queue net).countP fun e => e.2 ≠ .aborting) net' := by
  induction queue generalizing net k with
  | nil =>
    cases hqueue
    exact ⟨nofun, hcounted⟩
  | cons u rest ih =>
    obtain ⟨_, net₁, hprocess, hrest⟩ := Action.bind_eq_ok.1 hqueue
    have hwaiting := (waiting_process g p h).of_ok hprocess
    have hcounted' := (process_counted hn hchildren h hcounted).of_ok hprocess
    obtain ⟨hdirty, hmade⟩ := ih hwaiting hcounted' hrest
    obtain ⟨t, ht, hstage⟩ := h.away_dirty List.mem_cons_self
    simp only [dealtWith, hprocess]
    refine ⟨fun e he => ?_, ?_⟩
    · rcases List.mem_cons.1 he with rfl | he
      · simpa [Agenda.stageOf, ht] using hstage
      · exact hdirty e he
    · refine hmade.mono (Nat.le_of_eq ?_)
      rw [List.countP_cons]
      by_cases ha : net.agenda.stageOf u = .aborting
      · simp [ha]
      · simp [ha]
        omega

/-- So is what the nodes drain one after the other. -/
theorem drainedBy_spec (hnodes : ∀ p ∈ nodes, ∃ n, g.nodes.get? p = some n ∧ n.children ≠ [])
    (h : Waiting [] net.agenda) (hcounted : Counted l k net) {count : Nat}
    (hdrain : drainAll g nodes net = .ok count net') :
    count = (drainedBy g nodes net).length ∧ (∀ e ∈ drainedBy g nodes net, e.2.isDirty = true) ∧
      Counted l (k + (drainedBy g nodes net).countP fun e => e.2 ≠ .aborting) net' := by
  induction nodes generalizing net k count with
  | nil =>
    cases hdrain
    exact ⟨rfl, nofun, hcounted⟩
  | cons p rest ih =>
    obtain ⟨queue, taken, left, count', htake, hqueue, hrest, rfl, heq⟩ := drainAll_cons_ok hdrain
    obtain ⟨n, hn, hchildren⟩ := hnodes p List.mem_cons_self
    have hwaiting := ((take_ends g p h).of_ok htake).1
    obtain ⟨hdirty, hmade⟩ :=
      dealtWith_spec hn hchildren hwaiting ((hcounted.take g p).of_ok htake) hqueue
    obtain ⟨hcount, hdirty', hmade'⟩ := ih (fun q hq => hnodes q (List.mem_cons_of_mem p hq))
      ((waiting_queue g p hwaiting).of_ok hqueue) hmade hrest
    rw [heq]
    refine ⟨?_, fun e he => ?_, hmade'.mono (Nat.le_of_eq ?_)⟩
    · have hlength := congrArg List.length (map_dealtWith hqueue)
      rw [List.length_map] at hlength
      rw [List.length_append, ← hcount, hlength]
    · exact (List.mem_append.1 he).elim (hdirty e) (hdirty' e)
    · rw [List.countP_append, Nat.add_assoc]

/-- A flush that succeeds answers how many tuples it has drained. None of them is drained twice, each has
a dirty stage as its turn comes, and they are no more than deliveries are allowed and tuples were
withdrawn unseen. -/
theorem flush_drained (hg : g.Built) (h : Waiting [] net.agenda) {count : Nat}
    (hflush : flush g net = .ok count net') :
    count = (drained g net).length ∧ ((drained g net).map Prod.fst).Nodup ∧
      (∀ e ∈ drained g net, e.2.isDirty = true) ∧
      net'.operations ≤ net.agenda.limits.maxOperationsPerFlush ∧
      count ≤ net.agenda.limits.maxOperationsPerFlush +
        (drained g net).countP fun e => e.2 = .aborting := by
  let start : Network kind := { net with operations := 0 }
  have hstart : Waiting [] start.agenda := h
  have hdrain : drainAll g g.layers.flatten start = .ok count net' := hflush
  have hcounted : Counted net.agenda.limits 0 start := ⟨rfl, Nat.le_refl 0, Nat.zero_le _⟩
  have hnodes : ∀ p ∈ g.layers.flatten, ∃ n, g.nodes.get? p = some n ∧ n.children ≠ [] := by
    intro p hp
    obtain ⟨n, hn, howns⟩ := Graph.mem_layers.1 hp
    refine ⟨n, hn, hg.children_ne_nil hn fun c hc => ?_⟩
    rw [hc] at howns
    cases howns
  obtain ⟨hcount, hdirty, hmade⟩ := drainedBy_spec hnodes hstart hcounted hdrain
  refine ⟨hcount, drainedBy_nodup hstart (g.layers_sorted.imp fun hpq => hpq.2) hdrain, hdirty,
    hmade.allowed, ?_⟩
  have hallowed := Nat.le_trans hmade.made hmade.allowed
  have hsplit := List.length_eq_countP_add_countP (fun e : TupleId × Stage => e.2 = .aborting)
    (l := drainedBy g g.layers.flatten start)
  show count ≤ _ + (drainedBy g g.layers.flatten start).countP _
  rw [hcount, hsplit]
  simp only [decide_eq_true_eq, decide_not] at hallowed ⊢
  omega

end Network

end ConstraintStreams
