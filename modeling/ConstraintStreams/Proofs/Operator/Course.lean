import ConstraintStreams.Network.Basic
import ConstraintStreams.Proofs.Operator.Bench
import ConstraintStreams.Proofs.Operator.Lasting
import ConstraintStreams.Proofs.Tuple.Drain

/-!
# The course of an operator

An operator is told about its inputs one signal after the other. In between it may be asked to settle
its outputs, its queue may be drained, and others go on with their work: they change the inputs, also
those that the operator has not been told about yet. A `Course` is any such sequence of events. What
every single event upholds holds after all of them.
-/

namespace ConstraintStreams

/-! ## What happens between the signals -/

/-- The view of a node that was told nothing. -/
def View.blank : View := ⟨fun _ _ => none, fun _ _ => False, fun _ _ => False⟩

/-- The view after the agenda has changed: an input whose facts are others now is not fresh. -/
def View.fade (v : View) (g g' : Agenda) : View :=
  { v with fresh := fun side input => v.fresh side input ∧ g'.facts input = g.facts input }

/-- The node was told of every change of the inputs it holds. -/
def View.Delivered (v : View) : Prop := ∀ side input, v.Held side input → v.fresh side input

theorem View.fades_fade (v : View) (g g' : Agenda) : View.Fades v (v.fade g g') where
  told := rfl
  fresh h := h.1

theorem View.Delivered.known {v : View} (h : v.Delivered) {side : Side} {input : TupleId}
    {facts : Facts} (ht : v.told side input = some facts) : v.Known side input facts :=
  ⟨h side input (by simp [View.Held, ht]), ht⟩

theorem View.delivered_blank : View.blank.Delivered := fun _ _ h => by cases h

theorem View.Delivered.tell {v : View} (h : v.Delivered) (side : Side) (input : TupleId)
    (facts : Facts) : (v.tell side input facts).Delivered :=
  fun s x hx => (held_tell.1 hx).imp_right (h s x)

namespace Agenda

/-- What others may have done to the agenda: the tuples of the node and its queue are as they were, and
the inputs that the node holds are still live tuples of other nodes. -/
structure Elsewhere (node : NodeId) (v : View) (g g' : Agenda) : Prop where
  sound : ∃ away, g'.Sound away
  queue : g'.queues.get? node = g.queues.get? node
  own : ∀ {id t}, t.node = node → (g'.find? id = some t ↔ g.find? id = some t)
  inputs : ∀ {side input}, v.Held side input → ∃ t, g'.find? input = some t ∧ t.node ≠ node

/-- Settles or releases a tuple that was taken out of its queue. -/
def conclude (id : TupleId) : Action Agenda Unit := do
  match ← (← get).stage id with
  | .creating | .updating => setStage id .settled
  | .dying | .aborting => release id
  | .settled | .dead => pure ()

/-- Drains the queue of a node that has no one to tell. -/
def drain (node : NodeId) : Action Agenda Unit := do
  (← takeQueue node).forM conclude

variable {E : Error → Prop} {node : NodeId} {v : View} {g g' g₀ : Agenda}

theorem Elsewhere.openAt (h : Elsewhere node v g g') : g'.openAt node = g.openAt node := by
  funext id
  refine Option.ext fun e => ?_
  rw [openAt_eq_some_iff, openAt_eq_some_iff]
  constructor
  · rintro ⟨t, ht, hn, hrest⟩
    exact ⟨t, (h.own hn).1 ht, hn, hrest⟩
  · rintro ⟨t, ht, hn, hrest⟩
    exact ⟨t, (h.own hn).2 ht, hn, hrest⟩

theorem Elsewhere.feeds (h : Elsewhere node v g g') (hf : g.Feeds node v) :
    g'.Feeds node (v.fade g g') := by
  intro side input facts htold
  obtain ⟨t, ht, -, hfacts⟩ := hf htold
  have hheld : v.Held side input := by
    rw [View.Held, show v.told side input = some facts from htold]
    rfl
  obtain ⟨t', ht', hn'⟩ := h.inputs hheld
  refine ⟨t', ht', hn', fun hfresh => ?_⟩
  have hsame := hfresh.2
  rw [facts_eq ht, facts_eq ht'] at hsame
  rw [Except.ok.inj hsame]
  exact hfacts hfresh.1

/-- The queue of a node is being drained: the tuples in `rest` are taken out of it and not concluded
yet, none is closed, and all tuples of other nodes are as they were. -/
structure Draining (node : NodeId) (g₀ : Agenda) (rest : List TupleId) (g : Agenda) : Prop where
  sound : Sound rest g
  mine : ∀ id ∈ rest, ∃ t, g.find? id = some t ∧ t.node = node
  openAt : g.openAt node = g₀.openAt node
  empty : g.queues.get? node = some []
  others : ∀ {id t}, g₀.find? id = some t → t.node ≠ node → g.find? id = some t

/-- A tuple that was taken out is replaced or released. -/
theorem Draining.proceed {id : TupleId} {rest : List TupleId} {e : Option Tuple}
    (h : Draining node g₀ (id :: rest) g) (hs : Sound rest g')
    (hfind : ∀ x, g'.find? x = if id = x then e else g.find? x) (hqueues : g'.queues = g.queues)
    (hopen : g'.openAt node = g.openAt node) : Draining node g₀ rest g' where
  sound := hs
  mine x hx := by
    have hne : id ≠ x := fun he => (List.nodup_cons.1 h.sound.away_nodup).1 (he ▸ hx)
    rw [hfind, if_neg hne]
    exact h.mine x (List.mem_cons_of_mem id hx)
  openAt := hopen.trans h.openAt
  empty := by rw [hqueues, h.empty]
  others {x u} hu hn := by
    have hne : id ≠ x := by
      rintro rfl
      obtain ⟨t', ht', hn'⟩ := h.mine id List.mem_cons_self
      rw [h.others hu hn] at ht'
      cases ht'
      exact hn hn'
    rw [hfind, if_neg hne]
    exact h.others hu hn

theorem Draining.conclude {id : TupleId} {rest : List TupleId} (h : Draining node g₀ (id :: rest) g) :
    Action.Ensures E (conclude id) g fun _ => Draining node g₀ rest := by
  obtain ⟨t, ht, hn⟩ := h.mine id List.mem_cons_self
  have hdirty : t.stage.isDirty = true := (h.sound.dirty_iff ht).2 (.inl List.mem_cons_self)
  have settled (hisOpen : t.stage.isOpen = true) :
      Action.Ensures E (setStage id .settled) g fun _ => Draining node g₀ rest :=
    settle_spec h.sound ht fun _ hs hfind hqueues _ _ =>
      h.proceed hs hfind hqueues (openAt_settle ht hisOpen hfind node)
  have released (hclosed : t.stage.isOpen = false) :
      Action.Ensures E (release id) g fun _ => Draining node g₀ rest :=
    release_spec h.sound ht fun _ hs hfind hqueues _ _ =>
      h.proceed hs hfind hqueues (openAt_release ht hclosed hfind node)
  unfold Agenda.conclude
  simp only [Action.ensures_bind, Action.ensures_get, Action.ensures_lift_of_ok (stage_eq ht)]
  cases hstage : t.stage with
  | creating => exact settled (by rw [hstage]; rfl)
  | updating => exact settled (by rw [hstage]; rfl)
  | dying => exact released (by rw [hstage]; rfl)
  | aborting => exact released (by rw [hstage]; rfl)
  | settled => rw [hstage] at hdirty; cases hdirty
  | dead => rw [hstage] at hdirty; cases hdirty

/-- Draining the queue of a node never fails, closes no tuple and touches no tuple of another node. -/
theorem drain_spec (h : Sound [] g) (hreg : ∃ queue, g.queues.get? node = some queue) :
    Action.Ensures E (drain node) g fun _ => Draining node g [] := by
  obtain ⟨queue, hq⟩ := hreg
  unfold drain
  rw [Action.ensures_bind]
  refine takeQueue_spec h hq fun g₁ hs₁ hfind₁ _ _ hqueues₁ => ?_
  have hstart : Draining node g queue g₁ := by
    refine ⟨hs₁, fun id hid => ?_, ?_, by rw [hqueues₁, if_pos rfl], fun hu _ => (hfind₁ _).trans hu⟩
    · obtain ⟨t, ht, hn⟩ := h.queued ⟨queue, hq, hid⟩
      exact ⟨t, (hfind₁ id).trans ht, hn⟩
    · funext id
      unfold Agenda.openAt
      rw [hfind₁]
  exact Action.Ensures.forM (Draining node g) (fun _ _ _ hd => hd.conclude) hstart

end Agenda

/-- To the agenda, a node without children does nothing but conclude its queued tuples. -/
theorem Network.follows_conclude {kind : ScoreKind} {graph : Graph kind} {node : NodeId}
    {n : Node kind} (hnode : graph.node node = .ok n) (hchildren : n.children = []) (id : TupleId) :
    Action.Follows Network.agenda (Network.process graph node id) (Agenda.conclude id) := by
  have hforward (signal : Signal) : Network.forward graph node signal id = pure () := by
    unfold Network.forward
    rw [hnode]
    funext net
    rw [Action.bind_ok (Action.lift_eq_ok.2 ⟨rfl, rfl⟩), hchildren]
    rfl
  have hon (x : Action Agenda Unit) : Action.Follows Network.agenda
      (Network.onAgenda x : NetworkAction kind Unit) x := .within (fun _ _ => rfl) x
  refine .get fun net => (Action.Follows.lift _).bind fun stage => ?_
  simp only [hforward, bind_pure_unit, pure_bind]
  cases stage with
  | creating => exact hon _
  | updating => exact hon _
  | dying => exact hon _
  | aborting => exact hon _
  | settled => exact .pure _
  | dead => exact .pure _

/-! ## Courses of events -/

/-- An operator as it is asked to do things: the sides its inputs arrive on, what it remembers at first,
what it does on a signal, and how it settles its outputs. -/
structure Handler (μ : Type) where
  sides : List Side
  blank : μ
  signal : Side → TupleId → Signal → Work μ Unit
  refresh : Work μ Unit

/-- What can happen next: the operator is told about an input, is asked to settle its outputs, its queue
is drained, or others work. -/
inductive Event
  | told (signal : Signal) (side : Side) (input : TupleId)
  | refreshed
  | drained
  | elsewhere
  deriving DecidableEq

variable {μ : Type}

/-- One event. The operator is told to take in what it does not hold, and about changes of what it
holds. -/
inductive Step (h : Handler μ) (node : NodeId) :
    Event → View → Workbench μ → View → Workbench μ → Prop
  | told {v w w' signal side input t} (hside : side ∈ h.sides) (hexpects : v.Expects signal side input)
      (ht : w.agenda.find? input = some t) (hne : t.node ≠ node)
      (hcall : h.signal side input signal w = .ok () w') :
      Step h node (.told signal side input) v w (v.after signal side input t.facts) w'
  | refreshed {v w w'} (hcall : h.refresh w = .ok () w') : Step h node .refreshed v w v w'
  | drained {v w g} (hs : w.agenda.Sound []) (hdrain : Agenda.drain node w.agenda = .ok () g) :
      Step h node .drained v w v { w with agenda := g }
  | elsewhere {v w g} (hg : Agenda.Elsewhere node v w.agenda g) :
      Step h node .elsewhere v w (v.fade w.agenda g) { w with agenda := g }

/-- Events one after the other. -/
inductive Course (h : Handler μ) (node : NodeId) (v₀ : View) (w₀ : Workbench μ) :
    List Event → View → Workbench μ → Prop
  | start : Course h node v₀ w₀ [] v₀ w₀
  | step {es e v w v' w'} (hc : Course h node v₀ w₀ es v w) (hs : Step h node e v w v' w') :
      Course h node v₀ w₀ (es ++ [e]) v' w'

/-- The node has a queue and no open tuples. -/
structure Agenda.Vacant (node : NodeId) (g : Agenda) : Prop where
  sound : ∃ away, g.Sound away
  registered : ∃ queue, g.queues.get? node = some queue
  none : ∀ id, g.openAt node id = none

/-- The events that an operator has seen from the beginning, when it remembered nothing and its node
had no tuples. -/
def Life (h : Handler μ) (node : NodeId) (es : List Event) (v : View) (w : Workbench μ) : Prop :=
  ∃ g₀ : Agenda, g₀.Vacant node ∧ Course h node .blank ⟨h.blank, g₀⟩ es v w

/-- What holds of the memory of an operator whatever happens to it, given what it was told and the open
tuples of its node; the operator fails with errors of `E` only. -/
structure Handler.Upholds (h : Handler μ) (node : NodeId) (E : Error → Prop)
    (I : View → (TupleId → Option (Facts × Sources)) → μ → Prop) : Prop where
  blank : ∀ {out}, (∀ o, out o = none) → I .blank out h.blank
  fades : ∀ {v v' out m}, View.Fades v v' → I v out m → I v' out m
  signal : ∀ {away v m g signal side input t}, Bench node away g g → g.Feeds node v →
    I v (g.openAt node) m → side ∈ h.sides → v.Expects signal side input →
    g.find? input = some t → t.node ≠ node →
    Action.Ensures E (h.signal side input signal) ⟨m, g⟩ fun _ w' =>
      Bench node away g w'.agenda ∧
        I (v.after signal side input t.facts) (w'.agenda.openAt node) w'.memory
  refresh : ∀ {away v m g}, Bench node away g g → g.Feeds node v → I v (g.openAt node) m →
    Action.Ensures E h.refresh ⟨m, g⟩ fun _ w' =>
      Bench node away g w'.agenda ∧ I v (w'.agenda.openAt node) w'.memory

/-- What is known of an operator between two events. -/
structure Attends (node : NodeId) (I : View → (TupleId → Option (Facts × Sources)) → μ → Prop)
    (v : View) (w : Workbench μ) : Prop where
  sound : ∃ away, w.agenda.Sound away
  registered : ∃ queue, w.agenda.queues.get? node = some queue
  feeds : w.agenda.Feeds node v
  holds : I v (w.agenda.openAt node) w.memory

variable {E : Error → Prop} {h : Handler μ} {node : NodeId} {v v' : View} {w w' : Workbench μ}
  {I : View → (TupleId → Option (Facts × Sources)) → μ → Prop} {away : List TupleId} {g g' : Agenda}

/-- The inputs are not changed by the work of the node itself. -/
theorem Agenda.Feeds.evolves (hf : g.Feeds node v) (he : Agenda.Evolves node g g') :
    g'.Feeds node v := by
  intro side input facts htold
  obtain ⟨t, ht, hn, hfresh⟩ := hf htold
  exact ⟨t, he.other ht hn, hn, hfresh⟩

theorem Agenda.Feeds.after (hf : g.Feeds node v) {input : TupleId} {t : Tuple}
    (ht : g.find? input = some t) (hn : t.node ≠ node) (signal : Signal) (side : Side) :
    g.Feeds node (v.after signal side input t.facts) := by
  cases signal with
  | insert => exact hf.tell ht hn
  | update => exact hf.tell ht hn
  | retract => exact hf.drop

namespace Attends

theorem bench (ha : Attends node I v w) : ∃ away, Bench node away w.agenda w.agenda :=
  ha.sound.imp fun _ hs => .start hs ha.registered

/-- A signal that is due ends well, or with an error that the operator may fail with. -/
theorem signal (hI : h.Upholds node E I) (ha : Attends node I v w) {signal : Signal} {side : Side}
    {input : TupleId} {t : Tuple} (hside : side ∈ h.sides) (hexpects : v.Expects signal side input)
    (ht : w.agenda.find? input = some t) (hne : t.node ≠ node) :
    Action.Ensures E (h.signal side input signal) w fun _ w' =>
      Agenda.Evolves node w.agenda w'.agenda ∧
        Attends node I (v.after signal side input t.facts) w' := by
  obtain ⟨away, hb⟩ := ha.bench
  refine (hI.signal hb ha.feeds ha.holds hside hexpects ht hne).mono fun _ w' ⟨hb', hI'⟩ => ?_
  exact ⟨hb'.evolves, ⟨away, hb'.sound⟩, hb'.registered,
    Agenda.Feeds.evolves (Agenda.Feeds.after ha.feeds ht hne signal side) hb'.evolves, hI'⟩

theorem refresh (hI : h.Upholds node E I) (ha : Attends node I v w) :
    Action.Ensures E h.refresh w fun _ w' =>
      Agenda.Evolves node w.agenda w'.agenda ∧ Attends node I v w' := by
  obtain ⟨away, hb⟩ := ha.bench
  refine (hI.refresh hb ha.feeds ha.holds).mono fun _ w' ⟨hb', hI'⟩ => ?_
  exact ⟨hb'.evolves, ⟨away, hb'.sound⟩, hb'.registered, Agenda.Feeds.evolves ha.feeds hb'.evolves, hI'⟩

theorem drained (ha : Attends node I v w) (hs : w.agenda.Sound [])
    (hd : Agenda.drain node w.agenda = .ok () g) : Attends node I v { w with agenda := g } := by
  have hdrained := (Agenda.drain_spec (E := fun _ => True) hs ha.registered).of_ok hd
  refine ⟨⟨[], hdrained.sound⟩, ⟨[], hdrained.empty⟩, fun {side input facts} htold => ?_, ?_⟩
  · obtain ⟨t, ht, hn, hfresh⟩ := ha.feeds htold
    exact ⟨t, hdrained.others ht hn, hn, hfresh⟩
  · show I v (g.openAt node) w.memory
    rw [hdrained.openAt]
    exact ha.holds

theorem elsewhere (hI : h.Upholds node E I) (ha : Attends node I v w)
    (hg : Agenda.Elsewhere node v w.agenda g) :
    Attends node I (v.fade w.agenda g) { w with agenda := g } := by
  refine ⟨hg.sound, ?_, hg.feeds ha.feeds, ?_⟩
  · obtain ⟨queue, hq⟩ := ha.registered
    exact ⟨queue, hg.queue.trans hq⟩
  · show I _ (g.openAt node) w.memory
    rw [hg.openAt]
    exact hI.fades (v.fades_fade w.agenda g) ha.holds

end Attends

/-- One event keeps what the operator upholds. -/
theorem Step.attends (hI : h.Upholds node E I) {e : Event} (hs : Step h node e v w v' w')
    (ha : Attends node I v w) : Attends node I v' w' := by
  cases hs with
  | told hside hexpects ht hne hcall => exact ((ha.signal hI hside hexpects ht hne).of_ok hcall).2
  | refreshed hcall => exact ((ha.refresh hI).of_ok hcall).2
  | drained hs hd => exact ha.drained hs hd
  | elsewhere hg => exact ha.elsewhere hI hg

theorem Course.attends (hI : h.Upholds node E I) {es : List Event} (hc : Course h node v w es v' w')
    (ha : Attends node I v w) : Attends node I v' w' := by
  induction hc with
  | start => exact ha
  | step _ hs ih => exact hs.attends hI ih

/-- An operator upholds it all its life. -/
theorem Life.attends (hI : h.Upholds node E I) {es : List Event} (hl : Life h node es v w) :
    Attends node I v w := by
  obtain ⟨g₀, hg₀, hc⟩ := hl
  refine hc.attends hI ⟨hg₀.sound, hg₀.registered, ?_, hI.blank hg₀.none⟩
  intro side input facts htold
  cases htold

theorem Life.step {es : List Event} {e : Event} (hl : Life h node es v w)
    (hs : Step h node e v w v' w') : Life h node (es ++ [e]) v' w' := by
  obtain ⟨g₀, hg₀, hc⟩ := hl
  exact ⟨g₀, hg₀, hc.step hs⟩

/-- An operator that was told of every change knows the inputs it holds as they are. -/
theorem Attends.current (ha : Attends node I v w) (hd : v.Delivered) {side : Side} {input : TupleId}
    {facts : Facts} (ht : v.told side input = some facts) : w.agenda.facts input = .ok facts := by
  obtain ⟨t, hfind, -, hfresh⟩ := ha.feeds ht
  rw [Agenda.facts_eq hfind, hfresh (hd.known ht).1]

/-! ## What single actions leave alone -/

namespace Work

variable {α : Type} {J : μ → Prop}

/-- The memory on a workbench has the property. -/
def In (J : μ → Prop) (w : Workbench μ) : Prop := J w.memory

theorem keepsIn_onAgenda (x : Action Agenda α) : Action.Keeps (In J) (onAgenda x : Work μ α) := by
  intro w h
  refine Action.ends_within.2 ?_
  unfold Action.Ends
  split
  · exact h
  · exact h

theorem ends_memory_bind {f : μ → Work μ α} {w : Workbench μ} {P : α → Workbench μ → Prop}
    {S : Workbench μ → Prop} :
    Action.Ends (do let m ← memory; f m) w P S ↔ Action.Ends (f w.memory) w P S := Iff.rfl

theorem keepsIn_memory_bind {f : μ → Work μ α} (hf : ∀ m, J m → Action.Keeps (In J) (f m)) :
    Action.Keeps (In J) (do let m ← memory; f m) := fun w h => hf w.memory h w h

theorem keepsIn_setMemory {m : μ} (hm : J m) : Action.Keeps (In J) (setMemory m) :=
  .modify fun _ _ => hm

theorem keepsIn_modifyMemory {f : μ → μ} (hf : ∀ m, J m → J (f m)) :
    Action.Keeps (In J) (modifyMemory f) := .modify fun w => hf w.memory

theorem keepsIn_refreshTuple (id : TupleId) (facts : Facts) :
    Action.Keeps (In J) (refreshTuple id facts : Work μ Unit) :=
  .bind (keepsIn_onAgenda _) fun _ => keepsIn_onAgenda _

end Work

namespace Agenda

/-- No tuple of a node has the name. -/
structure Lacks (node : NodeId) (id : TupleId) (g : Agenda) : Prop where
  registered : g.Registered
  other : ∀ t, g.find? id = some t → t.node ≠ node

theorem Lacks.replaces {id x : TupleId} {t t' : Tuple} (h : Lacks node id g)
    (hr : Replaces g g' x t t') : Lacks node id g' where
  registered := hr.keeps_registered h.registered
  other u hu := by
    rw [hr.find] at hu
    split at hu
    · next he =>
      cases hu
      rw [hr.node]
      exact h.other t (he ▸ hr.found)
    · exact h.other u hu

/-- Changing and withdrawing tuples makes none. -/
theorem Lacks.alters (node : NodeId) (id : TupleId) : Alters (Lacks node id) where
  update x g h := (update_ends g x).mono (fun _ _ ⟨_, _, hr⟩ => h.replaces hr)
    fun _ hsame => hsame h.registered ▸ h
  retract x g h := (retract_ends g x).mono (fun _ _ ⟨_, _, hr⟩ => h.replaces hr)
    fun _ hsame => hsame h.registered ▸ h
  setFacts x facts g h := (setFacts_ends g x facts).mono (fun _ _ ⟨_, hr⟩ => h.replaces hr)
    fun _ hsame => hsame ▸ h

/-- Nor does draining a queue. -/
theorem Lacks.keeps_drain (node p : NodeId) (id : TupleId) : Action.Keeps (Lacks node id) (drain p) := by
  refine .bind (fun g h => (takeQueue_ends g p).mono (fun _ g' ⟨_, hsame⟩ =>
    ⟨hsame.keeps_registered h.registered, fun t ht => h.other t ((hsame.find id).symm.trans ht)⟩)
    fun _ he => he ▸ h) fun queue => .forM (fun x => .get_bind fun g _ => .bind (.lift _) fun stage => ?_) _
  have settled : Action.Keeps (Lacks node id) (setStage x .settled) := fun g h =>
    (setStage_ends g x .settled).mono (fun _ _ ⟨_, hr⟩ => h.replaces hr) fun _ he => he ▸ h
  have released : Action.Keeps (Lacks node id) (release x) := by
    refine .modify fun g h => ⟨fun {y u} hu => ?_, fun u hu => ?_⟩
    · rw [show find? { g with tuples := g.tuples.erase x } y = _ from g.tuples.find?_erase x y] at hu
      split at hu
      · cases hu
      · exact h.registered hu
    · rw [show find? { g with tuples := g.tuples.erase x } id = _ from g.tuples.find?_erase x id] at hu
      split at hu
      · cases hu
      · exact h.other u hu
  cases stage with
  | creating => exact settled
  | updating => exact settled
  | dying => exact released
  | aborting => exact released
  | settled => exact .pure _
  | dead => exact .pure _

end Agenda

end ConstraintStreams
