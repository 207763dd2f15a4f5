import ConstraintStreams.Proofs.Network.Rest
import ConstraintStreams.Proofs.Operator.Owning

/-!
# A second flush has nothing to do

Whatever happened to a network before, half done work included, every memory lists as outputs only what
was made at its node. So draining a node concerns no queue but that of the node and of those above it,
and a flush that succeeds leaves nothing to do at any node.
-/

namespace ConstraintStreams

open ConstraintStreams.Action (Keeps Ends)
open Agenda (Apart Belongs Later)

variable {kind : ScoreKind}

/-- The memory is one for the operator. -/
def NodeMemory.Serves : NodeMemory kind → Operator kind → Prop
  | .source, .source .. => True
  | .filter _, .filter _ => True
  | .join _, .join _ => True
  | .semijoin _, .semijoin .. => True
  | .group _, .group .. => True
  | .map _, .map _ => True
  | .flatten _, .flatten _ => True
  | .distinct _, .distinct => True
  | .concat _, .concat => True
  | .constraint _, .constraint _ => True
  | _, _ => False

/-- The memory lists an output. -/
def NodeMemory.Lists : NodeMemory kind → TupleId → Prop
  | .join m => m.Lists
  | .semijoin m => m.Lists
  | .group m => m.Lists
  | .map m => m.Lists
  | .flatten m => m.Lists
  | .distinct m => m.Lists
  | .concat m => m.Lists
  | .source | .filter _ | .constraint _ => fun _ => False

theorem NodeMemory.serves_new (op : Operator kind) : (NodeMemory.new op).Serves op := by
  cases op <;> trivial

theorem NodeMemory.lists_new (op : Operator kind) (u : TupleId) : ¬ (NodeMemory.new op).Lists u := by
  cases op with
  | source | filter | constraint => exact False.elim
  | join => rintro (⟨_, h, _⟩ | ⟨_, h, _⟩) <;> cases h
  | semijoin | group | flatten | distinct =>
    rintro ⟨_, h, _⟩
    cases h
  | map | concat =>
    intro h
    cases h

namespace Network

variable {g : Graph kind} {net net' : Network kind} {p q : NodeId} {n : Node kind}

/-- Every node has a memory of its own kind, which lists as outputs only what was made at the node. -/
structure Owning (g : Graph kind) (net : Network kind) : Prop where
  orderly : net.agenda.Orderly
  queued : ∀ {p n}, g.nodes.get? p = some n → n.operator.ownsTuples = true →
    (net.agenda.queues.get? p).isSome = true
  served : ∀ {p n}, g.nodes.get? p = some n → ∃ m, net.memories.get? p = some m ∧ m.Serves n.operator
  listed : ∀ {p m u}, net.memories.get? p = some m → m.Lists u → Belongs p u net.agenda

namespace Owning

/-- Work on the agenda alone. -/
theorem of_later (h : Owning g net) (hlater : Later net.agenda net'.agenda)
    (hmemories : net'.memories = net.memories) : Owning g net' where
  orderly := hlater.orderly
  queued hn ho := (hlater.queued _).trans (h.queued hn ho)
  served hn := hmemories ▸ h.served hn
  listed hm hu := (h.listed (hmemories ▸ hm) hu).continues hlater.continues

theorem keeps_onAgenda {α : Type} {x : Action Agenda α} (hx : ∀ g₀, Keeps (Later g₀) x) :
    Keeps (Owning g) (onAgenda x : NetworkAction kind α) := by
  intro net h
  refine Action.ends_within.2 ((hx net.agenda net.agenda (.start h.orderly)).mono ?_ ?_)
  · exact fun _ _ hlater => h.of_later hlater rfl
  · exact fun _ hlater => h.of_later hlater rfl

end Owning

/-- Nothing was done but at one node. -/
structure Beside (g : Graph kind) (p : NodeId) (net net' : Network kind) : Prop where
  owning : Owning g net'
  memories : ∀ q, q ≠ p → net'.memories.get? q = net.memories.get? q
  apart : Apart p net.agenda net'.agenda

theorem Beside.calm (h : Beside g p net net') (hq : q ≠ p) (hcalm : net.Calm q) : net'.Calm q where
  queue := (h.apart.queues q hq).trans hcalm.queue
  refreshed m hm := hcalm.refreshed m (h.memories q hq ▸ hm)

theorem Owning.beside (h : Owning g net) (p : NodeId) : Beside g p net net :=
  ⟨h, fun _ _ => rfl, .refl p net.agenda⟩

/-- An operator that minds its own outputs does nothing but at its node. -/
theorem Owning.onMemory {μ α : Type} {m : μ} {wrap : μ → NodeMemory kind}
    {outs : μ → TupleId → Prop} {x : Work μ α} (h : Owning g net) (hn : g.nodes.get? p = some n)
    (hm : net.memories.get? p = some (wrap m)) (hserves : ∀ m, (wrap m).Serves n.operator)
    (houts : ∀ m, (wrap m).Lists = outs m)
    (hx : Keeps (Work.Minds p net.agenda outs fun _ => False) x) :
    Ends (Network.onMemory p m wrap x) net (fun _ => Beside g p net) (Beside g p net) := by
  have hstart : Work.Minds p net.agenda outs (fun _ => False) ⟨m, net.agenda⟩ :=
    ⟨.start h.orderly, .refl p net.agenda, fun u hu => h.listed hm (houts m ▸ hu), fun _ => False.elim⟩
  have hbeside {w : Workbench μ} (hw : Work.Minds p net.agenda outs (fun _ => False) w) :
      Beside g p net { net with
        agenda := w.agenda, memories := net.memories.insert p (wrap w.memory) } := by
    have hget (q : NodeId) : (net.memories.insert p (wrap w.memory)).get? q =
        if p = q then some (wrap w.memory) else net.memories.get? q := Table.get?_insert ..
    refine ⟨⟨hw.later.orderly, fun hn ho => (hw.later.queued _).trans (h.queued hn ho), ?_, ?_⟩,
      fun q hq => (hget q).trans (if_neg (Ne.symm hq)), hw.apart⟩
    · intro q nq hnq
      by_cases hq : p = q
      · subst hq
        cases hn.symm.trans hnq
        exact ⟨_, (hget p).trans (if_pos rfl), hserves _⟩
      · obtain ⟨mq, hmq, hsq⟩ := h.served hnq
        exact ⟨mq, (hget q).trans ((if_neg hq).trans hmq), hsq⟩
    · intro q mq u hmq hu
      replace hmq := (hget q).symm.trans hmq
      split at hmq
      · next hq =>
        cases hmq
        exact hq ▸ hw.outs u (houts _ ▸ hu)
      · exact (h.listed hmq hu).continues hw.later.continues
  exact Action.ends_within.2 ((hx _ hstart).mono (fun _ _ => hbeside) fun _ => hbeside)

/-- Whatever the operator at a node does on a signal, it does it at the node. -/
theorem Owning.act (h : Owning g net) (hn : g.nodes.get? p = some n) (side : Side) (id : TupleId)
    (signal : Signal) :
    Ends (Network.act p n side id signal) net (fun _ => Beside g p net) (Beside g p net) := by
  unfold Network.act
  rw [Action.ends_bind]
  refine (Network.memoryOf_ends p net).mono ?_ fun _ hsame => hsame ▸ h.beside p
  rintro m _ ⟨rfl, hm⟩
  split
  · next hop =>
    exact h.onMemory hn hm (fun _ => by rw [hop]; trivial) (fun _ => rfl)
      (Work.minds_of_still fun g => FilterMemory.keeps_accept _ _ _)
  · next hop =>
    rw [Action.ends_bind]
    exact h.onMemory hn hm (fun _ => by rw [hop]; trivial) (fun _ => rfl) (minds_signalJoin _ _ _ _)
  · next hop =>
    rw [Action.ends_bind]
    exact h.onMemory hn hm (fun _ => by rw [hop]; trivial) (fun _ => rfl)
      (minds_signalSemijoin _ _ _ _)
  · next hop =>
    rw [Action.ends_bind]
    exact h.onMemory hn hm (fun _ => by rw [hop]; trivial) (fun _ => rfl) (minds_signalGroup _ _ _ _)
  · next hop =>
    rw [Action.ends_bind]
    exact h.onMemory hn hm (fun _ => by rw [hop]; trivial) (fun _ => rfl) (minds_signalMap _ _ _ _)
  · next hop =>
    rw [Action.ends_bind]
    exact h.onMemory hn hm (fun _ => by rw [hop]; trivial) (fun _ => rfl) (minds_signalFlatten _ _ _)
  · next hop =>
    rw [Action.ends_bind]
    exact h.onMemory hn hm (fun _ => by rw [hop]; trivial) (fun _ => rfl) (minds_signalDistinct _ _)
  · next hop =>
    rw [Action.ends_bind]
    exact h.onMemory hn hm (fun _ => by rw [hop]; trivial) (fun _ => rfl) (minds_signalConcat _ _ _)
  · next hop =>
    rw [Action.ends_bind]
    exact h.onMemory hn hm (fun _ => by rw [hop]; trivial) (fun _ => rfl)
      (Work.minds_of_still fun g => keeps_signalConstraint _ _ _)
  · exact h.beside p

/-! ## Signals that leave a node go up -/

/-- Nothing is left to do at some nodes. -/
structure Quiet (g : Graph kind) (done : NodeId → Prop) (net : Network kind) : Prop where
  owning : Owning g net
  calm : ∀ q, done q → net.Calm q

variable {done : NodeId → Prop} {k : Nat}

theorem Beside.quiet (h : Beside g p net net') (hnet : Quiet g done net) (hp : ¬ done p) :
    Quiet g done net' :=
  ⟨h.owning, fun q hq => h.calm (fun he => hp (he ▸ hq)) (hnet.calm q hq)⟩

/-- Work on the agenda that leaves the queues alone. -/
theorem keepsQuiet_onAgenda {α : Type} {x : Action Agenda α} (hlater : ∀ g₀, Keeps (Later g₀) x)
    (hqueues : ∀ queues, Keeps (fun agenda => agenda.queues = queues) x) :
    Keeps (Quiet g done) (onAgenda x : NetworkAction kind α) := by
  intro net h
  have hquiet {agenda : Agenda} (hnow : Later net.agenda agenda)
      (hsame : agenda.queues = net.agenda.queues) : Quiet g done { net with agenda } :=
    ⟨h.owning.of_later hnow rfl, fun q hq => ⟨hsame ▸ (h.calm q hq).queue, (h.calm q hq).refreshed⟩⟩
  exact Action.ends_within.2 (((hlater _ _ (.start h.owning.orderly)).and (hqueues _ _ rfl)).mono
    (fun _ _ h' => hquiet h'.1 h'.2) fun _ h' => hquiet h'.1 h'.2)

theorem keepsQuiet_setStage (id : TupleId) (stage : Stage) :
    Keeps (Quiet g done) (onAgenda (Agenda.setStage id stage) : NetworkAction kind Unit) :=
  keepsQuiet_onAgenda (fun _ agenda h => (Agenda.setStage_ends agenda id stage).mono
    (fun _ _ ⟨_, hreplaces⟩ => h.replaces hreplaces) fun _ hsame => hsame ▸ h)
    fun _ => .get_bind fun _ _ => .bind (.lift _) fun _ => .modify fun _ h => h

theorem keepsQuiet_release (id : TupleId) :
    Keeps (Quiet g done) (onAgenda (Agenda.release id) : NetworkAction kind Unit) :=
  keepsQuiet_onAgenda (fun _ => .modify fun _ h => ⟨h.continues.release id, h.queued⟩)
    fun _ => .modify fun _ h => h

theorem keepsQuiet_deliver (hg : g.WellFormed) (hdone : ∀ q, done q → g.layerOf q ≤ k) (depth : Nat)
    (signal : Signal) (id : TupleId) {l : Link} (hl : k < g.layerOf l.node) :
    Keeps (Quiet g done) (deliver g depth signal id l) := by
  induction depth generalizing signal l with
  | zero => exact .throw _
  | succ depth ih =>
    have count : Keeps (Quiet g done) (countOperation : NetworkAction kind Unit) :=
      .bind (.modify fun _ h => ⟨h.owning.of_later (.start h.owning.orderly) rfl, fun q hq =>
        ⟨(h.calm q hq).queue, (h.calm q hq).refreshed⟩⟩) fun _ => .get_bind fun _ _ => .lift _
    unfold deliver
    refine .bind count fun _ => .lift_bind fun n hn => ?_
    replace hn := Graph.node_eq_ok.1 hn
    have hfree : ¬ done l.node := fun hd => Nat.not_le_of_lt hl (hdone _ hd)
    have act (side : Side) : Keeps (Quiet g done) (act l.node n side id signal) := fun net h =>
      (h.owning.act hn side id signal).mono (fun _ _ h' => h'.quiet h hfree)
        fun _ h' => h'.quiet h hfree
    refine .bind (act _) fun next => ?_
    split
    · exact .forM_mem fun c hc => ih _ (Nat.lt_trans hl (hg.layerOf_lt ⟨n, hn, hc⟩))
    · exact .pure _

theorem keepsQuiet_forward (hg : g.WellFormed) (hdone : ∀ q, done q → g.layerOf q ≤ g.layerOf p)
    (signal : Signal) (id : TupleId) : Keeps (Quiet g done) (forward g p signal id) := by
  unfold forward
  exact .lift_bind fun n hn => .forM_mem fun c hc =>
    keepsQuiet_deliver hg hdone _ _ _ (hg.layerOf_lt ⟨n, Graph.node_eq_ok.1 hn, hc⟩)

theorem keepsQuiet_process (hg : g.WellFormed) (hdone : ∀ q, done q → g.layerOf q ≤ g.layerOf p)
    (id : TupleId) : Keeps (Quiet g done) (process g p id) := by
  have forward (signal : Signal) : Keeps (Quiet g done) (forward g p signal id) :=
    keepsQuiet_forward hg hdone signal id
  unfold process
  refine .get_bind fun net _ => .lift_bind fun stage _ => ?_
  split
  · exact .bind (keepsQuiet_setStage _ _) fun _ => forward _
  · exact .bind (keepsQuiet_setStage _ _) fun _ => forward _
  · exact .bind (forward _) fun _ => keepsQuiet_release _
  · exact keepsQuiet_release _
  all_goals exact .pure _

/-! ## Draining -/

/-- The memory that an operator leaves is that of its node. -/
theorem onMemory_leaves {μ α : Type} {M : μ → Prop} {m : μ} (wrap : μ → NodeMemory kind)
    {x : Work μ α} (hx : Ends x ⟨m, net.agenda⟩ (fun _ => Work.Recalls M) fun _ => True) :
    Ends (onMemory p m wrap x) net
      (fun _ net' => ∃ m', M m' ∧ net'.memories.get? p = some (wrap m')) fun _ => True :=
  Action.ends_within.2 (hx.mono
    (fun _ w hw => ⟨w.memory, hw, (Table.get?_insert ..).trans (if_pos rfl)⟩) fun _ => id)

/-- Refreshing a node does nothing but at the node, and leaves nothing to refresh. -/
theorem Owning.refresh (h : Owning g net) (hn : g.nodes.get? p = some n) :
    Ends (Network.refresh g p) net (fun _ net' => Beside g p net net' ∧
      ∀ m, net'.memories.get? p = some m → m.hasDirty = false) (Beside g p net) := by
  have hnode : g.node p = .ok n := by simp [Graph.node, hn]
  unfold Network.refresh
  rw [hnode, Action.ends_bind, Action.ends_lift]
  refine ⟨fun _ hn' => ?_, fun _ _ => h.beside p⟩
  cases hn'
  rw [Action.ends_bind, Action.ends_get]
  split
  · next hop hm =>
    refine ((h.onMemory hn hm (fun _ => by rw [hop]; trivial) (fun _ => rfl)
      GroupMemory.minds_refresh).and (onMemory_leaves .group (GroupMemory.refresh_clean p _))).mono
      ?_ fun _ h' => h'.1
    rintro _ net' ⟨hbeside, m', hclean, hm'⟩
    refine ⟨hbeside, fun m'' hm'' => ?_⟩
    cases hm'.symm.trans hm''
    exact hclean
  · next hop hm =>
    refine ((h.onMemory hn hm (fun _ => by rw [hop]; trivial) (fun _ => rfl)
      (SemijoinMemory.minds_refresh _)).and
        (onMemory_leaves .semijoin (SemijoinMemory.refresh_clean p _ _))).mono ?_ fun _ h' => h'.1
    rintro _ net' ⟨hbeside, m', hclean, hm'⟩
    refine ⟨hbeside, fun m'' hm'' => ?_⟩
    cases hm'.symm.trans hm''
    exact hclean
  · next hgroup hsemijoin =>
    refine ⟨h.beside p, fun m hm => ?_⟩
    obtain ⟨m', hm', hserves⟩ := h.served hn
    cases hm.symm.trans hm'
    cases m with
    | group m =>
      cases hop : n.operator with
      | group key collector => exact (hgroup key collector m hop hm).elim
      | _ => rw [hop] at hserves; exact hserves.elim
    | semijoin m =>
      cases hop : n.operator with
      | semijoin expected joiners => exact (hsemijoin expected joiners m hop hm).elim
      | _ => rw [hop] at hserves; exact hserves.elim
    | _ => rfl

/-- Taking the queue of a node that is refreshed leaves nothing to do at it. -/
theorem Quiet.takeQueue (h : Quiet g done net) (hn : g.nodes.get? p = some n)
    (ho : n.operator.ownsTuples = true)
    (hclean : ∀ m, net.memories.get? p = some m → m.hasDirty = false) :
    Ends (onAgenda (Agenda.takeQueue p) : NetworkAction kind _) net
      (fun _ => Quiet g fun q => q = p ∨ done q) (Owning g) := by
  obtain ⟨queue, hqueue⟩ := Option.isSome_iff_exists.1 (h.owning.queued hn ho)
  have hlater : Ends (Agenda.takeQueue p) net.agenda (fun _ => Later net.agenda) (· = net.agenda) :=
    (Agenda.takeQueue_ends net.agenda p).mono
      (fun _ _ h' => (Later.start h.owning.orderly).unmoved h'.2) fun _ => id
  refine Action.ends_within.2 ?_
  unfold Agenda.takeQueue at hlater ⊢
  rw [Action.ends_bind, Action.ends_get, hqueue, Action.ends_bind, Action.ends_lift] at hlater ⊢
  refine ⟨fun pending hpending => ?_, fun _ _ => h.owning⟩
  have hnow : Later net.agenda { net.agenda with
      queues := net.agenda.queues.insert p [], pending } := hlater.1 pending hpending
  refine ⟨h.owning.of_later hnow rfl, fun q hq => ⟨?_, fun m hm => ?_⟩⟩
  · show (net.agenda.queues.insert p []).get? q = some []
    rw [Table.get?_insert]
    split
    · rfl
    · next hne => exact (h.calm q (hq.resolve_left fun he => hne he.symm)).queue
  · rcases hq with rfl | hq
    · exact hclean m hm
    · exact (h.calm q hq).refreshed m hm

/-- Draining a node leaves nothing to do at it, nor at the nodes drained before. -/
theorem Quiet.drain (hg : g.WellFormed) (h : Quiet g done net) (hn : g.nodes.get? p = some n)
    (ho : n.operator.ownsTuples = true) (hfresh : ¬ done p)
    (hdone : ∀ q, done q → g.layerOf q ≤ g.layerOf p) :
    Ends (Network.drain g p) net (fun _ => Quiet g fun q => q = p ∨ done q) (Owning g) := by
  unfold Network.drain
  rw [Action.ends_bind]
  refine (h.owning.refresh hn).mono ?_ fun _ h' => h'.owning
  rintro _ net₁ ⟨hbeside, hclean⟩
  rw [Action.ends_bind]
  refine ((hbeside.quiet h hfresh).takeQueue hn ho hclean).mono (fun queue net₂ h₂ => ?_) fun _ => id
  have hdone' : ∀ q, q = p ∨ done q → g.layerOf q ≤ g.layerOf p := by
    rintro q (rfl | hq)
    · exact Nat.le_refl _
    · exact hdone q hq
  rw [Action.ends_bind]
  exact (Keeps.forM (fun id => keepsQuiet_process hg hdone' id) queue net₂ h₂).mono
    (fun _ _ h₃ => h₃) fun _ h₃ => h₃.owning

/-- Draining nodes in the order of their layers leaves nothing to do at any of them. -/
theorem Quiet.drainAll (hg : g.WellFormed) {nodes past : List NodeId}
    (hnodes : ∀ p ∈ nodes, ∃ n, g.nodes.get? p = some n ∧ n.operator.ownsTuples = true)
    (hsorted : nodes.Pairwise fun p q => g.layerOf p ≤ g.layerOf q ∧ p ≠ q)
    (hpast : ∀ q ∈ past, ∀ p ∈ nodes, g.layerOf q ≤ g.layerOf p ∧ q ≠ p)
    (h : Quiet g (· ∈ past) net) :
    Ends (Network.drainAll g nodes) net (fun _ => Quiet g fun q => q ∈ nodes ∨ q ∈ past)
      (Owning g) := by
  induction nodes generalizing past net with
  | nil => exact ⟨h.owning, fun q hq => h.calm q (hq.resolve_left List.not_mem_nil)⟩
  | cons p rest ih =>
    obtain ⟨n, hn, ho⟩ := hnodes p List.mem_cons_self
    obtain ⟨hfirst, hsorted'⟩ := List.pairwise_cons.1 hsorted
    unfold Network.drainAll
    rw [Action.ends_bind]
    refine (h.drain hg hn ho (fun hp => (hpast p hp p List.mem_cons_self).2 rfl)
      fun q hq => (hpast q hq p List.mem_cons_self).1).mono (fun _ net₁ h₁ => ?_) fun _ => id
    have hp₁ : Quiet g (· ∈ p :: past) net₁ := ⟨h₁.owning, fun q hq => h₁.calm q (List.mem_cons.1 hq)⟩
    rw [Action.ends_bind]
    refine (ih (fun q hq => hnodes q (List.mem_cons_of_mem p hq)) hsorted' ?_ hp₁).mono
      (fun _ net₂ h₂ => ⟨h₂.owning, fun q hq => h₂.calm q ?_⟩) fun _ => id
    · intro q hq r hr
      rcases List.mem_cons.1 hq with rfl | hq
      · exact hfirst r hr
      · exact hpast q hq r (List.mem_cons_of_mem p hr)
    · rcases hq with hq | hq
      · exact (List.mem_cons.1 hq).elim (fun he => .inr (he ▸ List.mem_cons_self)) .inl
      · exact .inr (List.mem_cons_of_mem p hq)

/-- A flush that succeeds leaves nothing to do at any node that has tuples. -/
theorem Owning.flush (hg : g.WellFormed) (h : Owning g net) :
    Ends (Network.flush g) net (fun _ net' => Owning g net' ∧
      ∀ {p n}, g.nodes.get? p = some n → n.operator.ownsTuples = true → net'.Calm p) (Owning g) := by
  have hstart : Quiet g (· ∈ []) { net with operations := 0 } :=
    ⟨h.of_later (.start h.orderly) rfl, fun q hq => by cases hq⟩
  unfold Network.flush
  rw [Action.ends_bind, Action.ends_modify]
  refine (hstart.drainAll hg (fun p hp => Graph.mem_layers.1 hp) g.layers_sorted
    (fun q hq => by cases hq)).mono ?_ fun _ => id
  exact fun _ _ h' => ⟨h'.owning, fun hn ho => h'.calm _ (.inl (Graph.mem_layers.2 ⟨_, hn, ho⟩))⟩

/-- After a flush that succeeds, another one drains nothing and changes nothing but the count of
deliveries. -/
theorem Owning.flush_flush (hg : g.WellFormed) (h : Owning g net) {count : Nat}
    (hflush : Network.flush g net = .ok count net') :
    Network.flush g net' = .ok 0 { net' with operations := 0 } :=
  flush_of_calm ((h.flush hg).of_ok hflush).2

/-! ## Other changes -/

theorem owning_reset (g : Graph kind) (net : Network kind) : Owning g (reset g net) := by
  obtain ⟨hblank, hregistered⟩ := reset_agenda g net
  refine ⟨⟨hblank.store, fun x t ht => ?_⟩, fun hn ho => (hregistered _).2 (.inr ⟨_, hn, ho⟩),
    fun hn => ⟨_, reset_memory hn, NodeMemory.serves_new _⟩, fun {p m u} hm hu => ?_⟩
  · rw [show _ = _ from hblank.find?_none x] at ht
    cases ht
  · obtain ⟨n, -, rfl⟩ := Option.map_eq_some_iff.1 ((Table.get?_mapValues g.nodes _ p).symm.trans hm)
    exact (NodeMemory.lists_new _ _ hu).elim

theorem owning_new (g : Graph kind) (limits : Limits) (order : TupleStore → HashOrder) :
    Owning g (new g limits order) := owning_reset g _

theorem keepsOwning_setWeight (p : NodeId) (weight : Score kind) :
    Keeps (Owning g) (setWeight g p weight) := by
  unfold setWeight
  refine .lift_bind fun c hc => .get_bind fun net _ => ?_
  obtain ⟨n, hn, hop⟩ := Graph.constraintAt_eq_ok.1 hc
  split
  · intro net h
    have hput (l : Ledger kind) :
        Owning g { net with memories := net.memories.insert p (.constraint l) } := by
      have hget (q : NodeId) : (net.memories.insert p (.constraint l)).get? q =
          if p = q then some (.constraint l) else net.memories.get? q := Table.get?_insert ..
      refine ⟨h.orderly, h.queued, fun {q nq} hnq => ?_, fun {q m u} hm hu => ?_⟩
      · by_cases hq : p = q
        · subst hq
          cases hn.symm.trans hnq
          exact ⟨_, (hget p).trans (if_pos rfl), by rw [hop]; trivial⟩
        · obtain ⟨m, hm, hserves⟩ := h.served hnq
          exact ⟨m, (hget q).trans ((if_neg hq).trans hm), hserves⟩
      · replace hm := (hget q).symm.trans hm
        split at hm
        · cases hm
          exact hu.elim
        · exact h.listed hm hu
    refine Action.ends_within.2 ?_
    unfold Ends
    split
    · exact hput _
    · exact hput _
  · exact .pure _

end Network

end ConstraintStreams
