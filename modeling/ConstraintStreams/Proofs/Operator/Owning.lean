import ConstraintStreams.Network.Memory
import ConstraintStreams.Proofs.Operator.Lasting
import ConstraintStreams.Proofs.Table
import ConstraintStreams.Proofs.Tuple.Belonging

/-!
# Operators mind their own outputs

An operator makes tuples of its own node, and changes and withdraws only what its memory lists as its
outputs. So the queues and the tuples of all other nodes stay as they are, whether or not the work
fails, and whatever else the memory says.
-/

namespace ConstraintStreams

open ConstraintStreams.Action (Keeps Ends)
open Agenda (Apart Belongs Later)

/-! ## What memories list as outputs -/

/-- A side of a join lists an output of one of its inputs. -/
def JoinSide.Lists (s : JoinSide) (u : TupleId) : Prop := ∃ us ∈ s.outputs.values, u ∈ us

def JoinMemory.Lists (m : JoinMemory) (u : TupleId) : Prop := m.left.Lists u ∨ m.right.Lists u

def SemijoinMemory.Lists (m : SemijoinMemory) (u : TupleId) : Prop :=
  ∃ c ∈ m.counters.values, c.output = some u

def GroupMemory.Lists (m : GroupMemory) (u : TupleId) : Prop :=
  ∃ group ∈ m.groups.values, group.output = some u

def MapMemory.Lists (m : MapMemory) (u : TupleId) : Prop := u ∈ m.outputs.values

def FlattenMemory.Lists (m : FlattenMemory) (u : TupleId) : Prop := ∃ us ∈ m.outputs.values, u ∈ us

def DistinctMemory.Lists (m : DistinctMemory) (u : TupleId) : Prop :=
  ∃ c ∈ m.classes.values, c.output = u

def ConcatMemory.Lists (m : ConcatMemory) (u : TupleId) : Prop := u ∈ m.outputs.values

namespace Work

variable {μ α β : Type} {p : NodeId} {g₀ : Agenda} {outs : μ → TupleId → Prop}
  {held : TupleId → Prop} {w : Workbench μ} {u : TupleId}

/-- Work at a node that began with an agenda. What the memory lists as outputs and what else is held
are names of the node, and the queues and tuples of other nodes are as they were. -/
structure Minds (p : NodeId) (g₀ : Agenda) (outs : μ → TupleId → Prop) (held : TupleId → Prop)
    (w : Workbench μ) : Prop where
  later : Later g₀ w.agenda
  apart : Apart p g₀ w.agenda
  outs : ∀ u, outs w.memory u → Belongs p u w.agenda
  held : ∀ u, held u → Belongs p u w.agenda

namespace Minds

/-- Less may be held. -/
theorem forget {held' : TupleId → Prop} (h : Minds p g₀ outs held' w)
    (hle : ∀ u, held u → held' u) : Minds p g₀ outs held w :=
  ⟨h.later, h.apart, h.outs, fun u hu => h.held u (hle u hu)⟩

/-- Work goes on on a later agenda. -/
theorem onto (h : Minds p g₀ outs held w) {g : Agenda} (hnow : Later w.agenda g) (hlater : Later g₀ g)
    (hapart : Apart p g₀ g) : Minds p g₀ outs held { w with agenda := g } :=
  ⟨hlater, hapart, fun u hu => (h.outs u hu).continues hnow.continues,
    fun u hu => (h.held u hu).continues hnow.continues⟩

/-- The memory is replaced by one that lists no other outputs, but for what is held. -/
theorem remember (h : Minds p g₀ outs held w) {m : μ} (hm : ∀ u, outs m u → outs w.memory u ∨ held u) :
    Minds p g₀ outs held { w with memory := m } :=
  ⟨h.later, h.apart, fun u hu => (hm u hu).elim (h.outs u) (h.held u), h.held⟩

end Minds

/-! ## Rules -/

/-- Work that leaves the agenda alone, where the memory lists no outputs. -/
theorem minds_of_still {x : Work μ α} (hx : ∀ g, Keeps (On (· = g)) x) :
    Keeps (Minds p g₀ (fun _ _ => False) held) x := by
  intro w h
  refine (hx w.agenda w rfl).mono (fun _ w' hw' => ?_) fun w' hw' => ?_
  all_goals
    replace hw' : w'.agenda = w.agenda := hw'
    exact ⟨hw' ▸ h.later, hw' ▸ h.apart, fun _ => False.elim, hw' ▸ h.held⟩

/-- What the memory lists when it is read is held from then on. -/
theorem minds_memory_bind {f : μ → Work μ α}
    (hf : ∀ m, Keeps (Minds p g₀ outs fun u => outs m u ∨ held u) (f m)) :
    Keeps (Minds p g₀ outs held) (do let m ← memory; f m) := by
  intro w h
  have hheld : Minds p g₀ outs (fun u => outs w.memory u ∨ held u) w :=
    ⟨h.later, h.apart, h.outs, fun u hu => hu.elim (h.outs u) (h.held u)⟩
  exact (hf w.memory w hheld).mono (fun _ _ h' => h'.forget fun _ => .inr)
    fun _ h' => h'.forget fun _ => .inr

theorem minds_setMemory {m : μ} (hm : ∀ u, outs m u → held u) :
    Keeps (Minds p g₀ outs held) (setMemory m) :=
  .modify fun _ h => h.remember fun u hu => .inr (hm u hu)

theorem minds_modifyMemory {f : μ → μ} (hf : ∀ m u, outs (f m) u → outs m u ∨ held u) :
    Keeps (Minds p g₀ outs held) (modifyMemory f) :=
  .modify fun w h => h.remember (hf w.memory)

/-- Work on the agenda that concerns no other node as long as what is held is the node's. -/
theorem minds_onAgenda {x : Action Agenda α} (hlater : ∀ g₀, Keeps (Later g₀) x)
    (hapart : ∀ g, g.Orderly → (∀ u, held u → Belongs p u g) → Apart p g₀ g →
      Ends x g (fun _ => Apart p g₀) (Apart p g₀)) :
    Keeps (Minds p g₀ outs held) (onAgenda x : Work μ α) := by
  intro w h
  have hstart : Later w.agenda w.agenda := .start h.later.orderly
  refine Action.ends_within.2 ?_
  exact (((hlater w.agenda w.agenda hstart).and (hlater g₀ w.agenda h.later)).and
    (hapart w.agenda h.later.orderly h.held h.apart)).mono (fun _ _ ⟨⟨hnow, hall⟩, hq⟩ => h.onto hnow hall hq)
    fun _ ⟨⟨hnow, hall⟩, hq⟩ => h.onto hnow hall hq

/-- A new tuple of the node is held from then on. -/
theorem minds_create_bind {facts : Facts} {sources : Sources} {f : TupleId → Work μ α}
    (hf : ∀ o, Keeps (Minds p g₀ outs fun u => u = o ∨ held u) (f o)) :
    Keeps (Minds p g₀ outs held)
      (do let o ← (onAgenda (Agenda.create p facts sources) : Work μ TupleId); f o) := by
  intro w h
  have hkeeps : Keeps (Minds p g₀ outs held)
      (onAgenda (Agenda.create p facts sources) : Work μ TupleId) :=
    minds_onAgenda (fun g₀ => (Later.outlasts g₀).create p facts sources)
      fun _ ho _ h => Agenda.apart_create ho h facts sources
  have hkept := hkeeps w h
  have hmade : Ends (onAgenda (Agenda.create p facts sources) : Work μ TupleId) w
      (fun o w' => Belongs p o w'.agenda) fun _ => True :=
    Action.ends_within.2 ((Agenda.create_ends w.agenda p facts sources).mono
      (fun _ _ hm => .of_makes hm) fun _ _ => trivial)
  rw [Action.ends_bind]
  refine (hkept.and hmade).mono (fun o w' ⟨h', ho⟩ => ?_) fun _ h' => h'.1
  have hheld : Minds p g₀ outs (fun u => u = o ∨ held u) w' :=
    ⟨h'.later, h'.apart, h'.outs, fun u hu => hu.elim (fun hu => hu ▸ ho) (h'.held u)⟩
  exact (hf o w' hheld).mono (fun _ _ h'' => h''.forget fun _ => .inr)
    fun _ h'' => h''.forget fun _ => .inr

/-- What is held may be said in another way. -/
theorem minds_congr {held' : TupleId → Prop} {x : Work μ α} (hiff : ∀ u, held u ↔ held' u)
    (hx : Keeps (Minds p g₀ outs held') x) : Keeps (Minds p g₀ outs held) x :=
  fun w h => (hx w (h.forget fun u => (hiff u).2)).mono (fun _ _ h' => h'.forget fun u => (hiff u).1)
    fun _ h' => h'.forget fun u => (hiff u).1

/-- So are several new tuples. -/
theorem minds_createAll_bind {items : List β} {facts : β → Facts} {sources : Sources}
    {f : List TupleId → Work μ α} (hf : ∀ os, Keeps (Minds p g₀ outs fun u => u ∈ os ∨ held u) (f os)) :
    Keeps (Minds p g₀ outs held) (do
      let os ← items.mapM fun item =>
        (onAgenda (Agenda.create p (facts item) sources) : Work μ TupleId)
      f os) := by
  induction items generalizing held f with
  | nil => exact minds_congr (fun u => by simp) (hf [])
  | cons item rest ih =>
    simp only [List.mapM_cons, bind_assoc, pure_bind]
    exact minds_create_bind fun o => ih fun os =>
      minds_congr (fun u => by simp [or_left_comm, or_assoc]) (hf (o :: os))

theorem minds_retract (hu : held u) :
    Keeps (Minds p g₀ outs held) (onAgenda (Agenda.retract u) : Work μ Unit) :=
  minds_onAgenda (fun g₀ => (Later.outlasts g₀).retract u)
    fun _ _ hheld => Agenda.apart_retract (hheld u hu)

theorem minds_number (facts : Facts) :
    Keeps (Minds p g₀ outs held) (onAgenda (Agenda.number facts) : Work μ Facts) :=
  minds_onAgenda (fun g₀ g h => (Later.outlasts g₀).number g _ h)
    fun _ _ _ h => ⟨h.queues, h.tuples⟩

theorem minds_refreshTuple (hu : held u) (facts : Facts) :
    Keeps (Minds p g₀ outs held) (refreshTuple u facts : Work μ Unit) :=
  .bind (minds_onAgenda (fun g₀ => (Later.outlasts g₀).setFacts u facts)
    fun _ _ hheld h => Agenda.apart_setFacts (hheld u hu) h facts) fun _ =>
      minds_onAgenda (fun g₀ => (Later.outlasts g₀).update u)
        fun _ _ hheld => Agenda.apart_update (hheld u hu)

theorem minds_refreshIfChanged (hu : held u) (facts : Facts) :
    Keeps (Minds p g₀ outs held) (refreshIfChanged u facts : Work μ Unit) := by
  refine .bind (keeps_facts u) fun old => ?_
  split
  · exact minds_refreshTuple hu facts
  · exact .pure _

end Work

open Work

variable {kind : ScoreKind} {p : NodeId} {g₀ : Agenda} {held : TupleId → Prop}

/-! ## One operator after the other -/

theorem Network.minds_signalConcat (side : Side) (id : TupleId) (signal : Signal) :
    Keeps (Minds p g₀ ConcatMemory.Lists held) (signalConcat p side id signal) := by
  cases signal with
  | insert =>
    exact .bind (keeps_facts id) fun _ => minds_create_bind fun o =>
      minds_modifyMemory fun m u hu => (Table.mem_values_insert hu).symm.imp_right .inl
  | update =>
    refine minds_memory_bind fun m => ?_
    split
    · exact .throw _
    · next ho => exact .bind (keeps_facts id) fun _ =>
        minds_refreshTuple (.inl (Table.mem_values_of_get? ho)) _
  | retract =>
    refine minds_memory_bind fun m => ?_
    split
    · exact .throw _
    · next ho => exact .bind (minds_setMemory fun u hu => .inl (Table.mem_values_erase hu)) fun _ =>
        Work.minds_retract (.inl (Table.mem_values_of_get? ho))

theorem MapMemory.minds_image (arity : Nat) (mapper : Facts → Except Error Facts) (input : TupleId) :
    Keeps (Minds p g₀ MapMemory.Lists held) (image arity mapper input) := by
  refine .bind (keeps_facts input) fun _ => .bind (.lift _) fun facts => ?_
  split
  · exact .throw _
  · exact minds_number facts

theorem Network.minds_signalMap (arity : Nat) (mapper : Facts → Except Error Facts) (id : TupleId)
    (signal : Signal) : Keeps (Minds p g₀ MapMemory.Lists held) (signalMap p arity mapper id signal) := by
  cases signal with
  | insert =>
    exact .bind (MapMemory.minds_image arity mapper id) fun _ => minds_create_bind fun o =>
      minds_modifyMemory fun m u hu => (Table.mem_values_insert hu).symm.imp_right .inl
  | update =>
    refine minds_memory_bind fun m => ?_
    split
    · exact .throw _
    · next ho => exact .bind (MapMemory.minds_image arity mapper id) fun _ =>
        minds_refreshIfChanged (.inl (Table.mem_values_of_get? ho)) _
  | retract =>
    refine minds_memory_bind fun m => ?_
    split
    · exact .throw _
    · next ho => exact .bind (minds_setMemory fun u hu => .inl (Table.mem_values_erase hu)) fun _ =>
        Work.minds_retract (.inl (Table.mem_values_of_get? ho))

theorem FlattenMemory.minds_insert (items : Fact → Except Error (List Fact)) (input : TupleId) :
    Keeps (Minds p g₀ FlattenMemory.Lists held) (insert p items input) := by
  refine .bind (keeps_facts input) fun _ => .bind (.lift _) fun _ => .bind (.lift _) fun _ =>
    .bind (minds_number _) fun _ => minds_createAll_bind fun os => minds_modifyMemory ?_
  rintro m u ⟨us, hus, hu⟩
  rcases Table.mem_values_insert hus with rfl | hus
  · exact .inr (.inl hu)
  · exact .inl ⟨us, hus, hu⟩

theorem FlattenMemory.minds_retract (input : TupleId) :
    Keeps (Minds p g₀ FlattenMemory.Lists held) (retract input) := by
  refine minds_memory_bind fun m => ?_
  split
  · exact .throw _
  · next os hos =>
    refine .bind (minds_setMemory ?_) fun _ => .forM_mem fun o ho =>
      Work.minds_retract (.inl ⟨os, Table.mem_values_of_get? hos, ho⟩)
    rintro u ⟨us, hus, hu⟩
    exact .inl ⟨us, Table.mem_values_erase hus, hu⟩

theorem Network.minds_signalFlatten (items : Fact → Except Error (List Fact)) (id : TupleId)
    (signal : Signal) : Keeps (Minds p g₀ FlattenMemory.Lists held) (signalFlatten p items id signal) := by
  cases signal with
  | insert => exact FlattenMemory.minds_insert items id
  | update =>
    exact .bind (FlattenMemory.minds_retract id) fun _ => FlattenMemory.minds_insert items id
  | retract => exact FlattenMemory.minds_retract id

theorem DistinctMemory.minds_insert (input : TupleId) :
    Keeps (Minds p g₀ DistinctMemory.Lists held) (insert p input) := by
  have enter {held : TupleId → Prop} (identity : Facts) :
      Keeps (Minds p g₀ DistinctMemory.Lists held)
        (modifyMemory fun m => { m with members := m.members.insert input identity }) :=
    minds_modifyMemory fun _ _ => .inl
  refine .bind (keeps_facts input) fun facts => minds_memory_bind fun m => ?_
  dsimp only
  split
  · next c hc =>
    refine .bind (minds_modifyMemory ?_) fun _ => enter _
    rintro m' u ⟨c', hc', rfl⟩
    rcases Table.mem_values_insert hc' with rfl | hc'
    · exact .inr (.inl ⟨c, Table.mem_values_of_get? hc, rfl⟩)
    · exact .inl ⟨c', hc', rfl⟩
  · refine minds_create_bind fun o => .bind (minds_modifyMemory ?_) fun _ => enter _
    rintro m' u ⟨c', hc', rfl⟩
    rcases Table.mem_values_insert hc' with rfl | hc'
    · exact .inr (.inl rfl)
    · exact .inl ⟨c', hc', rfl⟩

theorem DistinctMemory.minds_retract (input : TupleId) :
    Keeps (Minds p g₀ DistinctMemory.Lists held) (retract input) := by
  refine minds_memory_bind fun m => ?_
  split
  · exact .throw _
  · next identity _ =>
    refine .bind (minds_setMemory fun _ hu => .inl hu) fun _ => ?_
    split
    · exact .throw _
    · next c hc =>
      have hlisted : m.Lists c.output := ⟨c, Table.mem_values_of_get? hc, rfl⟩
      refine .bind (.lift _) fun size => ?_
      split
      · refine .bind (minds_setMemory ?_) fun _ => Work.minds_retract (.inl hlisted)
        rintro u ⟨c', hc', rfl⟩
        exact .inl ⟨c', Table.mem_values_erase hc', rfl⟩
      · refine minds_setMemory ?_
        rintro u ⟨c', hc', rfl⟩
        rcases Table.mem_values_insert hc' with rfl | hc'
        · exact .inl hlisted
        · exact .inl ⟨c', hc', rfl⟩

theorem Network.minds_signalDistinct (id : TupleId) (signal : Signal) :
    Keeps (Minds p g₀ DistinctMemory.Lists held) (signalDistinct p id signal) := by
  cases signal with
  | insert => exact DistinctMemory.minds_insert id
  | update =>
    refine minds_memory_bind fun m => ?_
    split
    · exact .throw _
    · refine .bind (keeps_facts id) fun facts => ?_
      split
      · split
        · exact .throw _
        · next c hc =>
          exact minds_refreshIfChanged (.inl ⟨c, Table.mem_values_of_get? hc, rfl⟩) _
      · exact .bind (DistinctMemory.minds_retract id) fun _ => DistinctMemory.minds_insert id
  | retract => exact DistinctMemory.minds_retract id

theorem GroupMemory.minds_setGroup {id : GroupId} {group : Group}
    (hgroup : ∀ u, group.output = some u → held u) :
    Keeps (Minds p g₀ GroupMemory.Lists held) (setGroup id group) := by
  refine minds_modifyMemory ?_
  rintro m u ⟨group', hg', hu⟩
  rcases Table.mem_values_insert hg' with rfl | hg'
  · exact .inr (hgroup u hu)
  · exact .inl ⟨group', hg', hu⟩

theorem GroupMemory.minds_collect (facts : Facts) (accumulator : Option Accumulator) :
    Keeps (Minds p g₀ GroupMemory.Lists held) (collect facts accumulator) := by
  cases accumulator with
  | none => exact .pure _
  | some accumulator =>
    intro w h
    unfold collect
    simp only [Action.ends_bind, Action.ends_get, Action.ends_lift, Action.ends_modify,
      Action.ends_pure]
    refine ⟨fun taken _ => ?_, fun _ _ => h⟩
    exact h.onto ((Later.outlasts _).number _ taken.2.2 (.start h.later.orderly))
      ((Later.outlasts g₀).number _ taken.2.2 h.later) ⟨h.apart.queues, h.apart.tuples⟩

theorem GroupMemory.minds_insert (key : Option (Facts → Except Error Fact))
    (collector : Option Collector) (input : TupleId) :
    Keeps (Minds p g₀ GroupMemory.Lists held) (insert key collector input) := by
  have keyOf (facts : Facts) : Keeps (Minds p g₀ GroupMemory.Lists held) (keyOf key facts) := by
    cases key with
    | none => exact .pure _
    | some f => exact .bind (.lift _) fun _ => .bind (minds_number _) fun _ => .pure _
  refine .bind (keeps_facts input) fun _ => .bind (keyOf _) fun fact => minds_memory_bind fun m => ?_
  have hgroup : ∀ u, ((m.groups.get? (fact.map Fact.identity)).getD
      { accumulator := collector.map (·.start) }).output = some u → m.Lists u ∨ held u := by
    intro u hu
    cases hg : m.groups.get? (fact.map Fact.identity) with
    | none => rw [hg] at hu; cases hu
    | some group => rw [hg] at hu; exact .inl ⟨group, Table.mem_values_of_get? hg, hu⟩
  exact .bind (minds_setGroup hgroup) fun _ => .bind (minds_collect _ _) fun _ =>
    .bind (minds_setGroup hgroup) fun _ => minds_modifyMemory fun _ _ => .inl

theorem GroupMemory.minds_retract (input : TupleId) :
    Keeps (Minds p g₀ GroupMemory.Lists held) (retract input) := by
  refine minds_memory_bind fun m => ?_
  split
  · exact .throw _
  · refine .bind (minds_setMemory fun _ hu => .inl hu) fun _ => ?_
    split
    · exact .throw _
    · next group hg =>
      exact .bind (.mapMOption (fun _ => .lift _) _) fun _ => .bind (.lift _) fun _ =>
        .bind (minds_setGroup fun u hu => .inl ⟨group, Table.mem_values_of_get? hg, hu⟩) fun _ =>
          minds_modifyMemory fun _ _ => .inl

theorem Network.minds_signalGroup (key : Option (Facts → Except Error Fact))
    (collector : Option Collector) (id : TupleId) (signal : Signal) :
    Keeps (Minds p g₀ GroupMemory.Lists held) (signalGroup key collector id signal) := by
  cases signal with
  | insert => exact GroupMemory.minds_insert key collector id
  | update =>
    exact .bind (GroupMemory.minds_retract id) fun _ => GroupMemory.minds_insert key collector id
  | retract => exact GroupMemory.minds_retract id

theorem GroupMemory.minds_refresh : Keeps (Minds p g₀ GroupMemory.Lists held) (refresh p) := by
  have forget {held : TupleId → Prop} (id : GroupId) : Keeps (Minds p g₀ GroupMemory.Lists held)
      (modifyMemory fun m => { m with groups := m.groups.erase id }) := by
    refine minds_modifyMemory ?_
    rintro m u ⟨group, hg, hu⟩
    exact .inl ⟨group, Table.mem_values_erase hg, hu⟩
  have settle {held : TupleId → Prop} (id : GroupId) :
      Keeps (Minds p g₀ GroupMemory.Lists held) (settle p id) := by
    refine minds_memory_bind fun m => ?_
    split
    · exact .pure _
    · next group hg =>
      have hlisted : ∀ {o}, group.output = some o → m.Lists o :=
        fun ho => ⟨group, Table.mem_values_of_get? hg, ho⟩
      split
      · split
        · next ho =>
          exact .bind (minds_setGroup fun _ hu => by cases hu) fun _ =>
            .bind (Work.minds_retract (.inl (hlisted ho))) fun _ => forget id
        · exact forget id
      · split
        · exact .bind (minds_number _) fun _ => minds_create_bind fun o =>
            minds_setGroup fun u hu => .inl (Option.some.inj hu).symm
        · next ho =>
          exact .bind (minds_number _) fun _ => minds_refreshIfChanged (.inl (hlisted ho)) _
        · next ho =>
          exact .bind (minds_setGroup fun _ hu => by cases hu) fun _ =>
            Work.minds_retract (.inl (hlisted ho))
        · exact .pure _
  exact minds_memory_bind fun _ => .bind keeps_inHashOrder fun _ =>
    .bind (minds_modifyMemory fun _ _ => .inl) fun _ => .forM settle _

namespace JoinSide

variable {s : JoinSide} {input output u : TupleId} {key : JoinKey}

theorem lists_of_mem (h : u ∈ s.outputsOf input) : s.Lists u := by
  unfold outputsOf at h
  cases hus : s.outputs.get? input with
  | none => rw [hus] at h; cases h
  | some us => rw [hus] at h; exact ⟨us, Table.mem_values_of_get? hus, h⟩

theorem lists_of_addOutput (h : (s.addOutput input output).Lists u) : s.Lists u ∨ u = output := by
  obtain ⟨us, hus, hu⟩ := h
  rcases Table.mem_values_insert hus with rfl | hus
  · exact (List.mem_insert_iff.1 hu).symm.imp_left lists_of_mem
  · exact .inl ⟨us, hus, hu⟩

theorem lists_of_removeOutput (h : (s.removeOutput input output).Lists u) : s.Lists u := by
  obtain ⟨us, hus, hu⟩ := h
  rcases Table.mem_values_modify hus with ⟨old, hold, rfl⟩ | hus
  · exact ⟨old, hold, List.mem_of_mem_erase hu⟩
  · exact ⟨us, hus, hu⟩

theorem lists_of_file (h : (s.file input key).Lists u) : s.Lists u := by
  obtain ⟨us, hus, hu⟩ := h
  rcases Table.mem_values_insert hus with rfl | hus
  · exact lists_of_mem hu
  · exact ⟨us, hus, hu⟩

end JoinSide

namespace JoinMemory

variable {m : JoinMemory} {side : Side} {f : JoinSide → JoinSide} {u : TupleId}

theorem lists_of_own (h : (m.own side).Lists u) : m.Lists u := by
  cases side with
  | right => exact .inr h
  | only => exact .inl h
  | left => exact .inl h

theorem lists_of_modifyOwn (hf : ∀ s, (f s).Lists u → s.Lists u) (h : (m.modifyOwn side f).Lists u) :
    m.Lists u := by
  cases side with
  | right => exact h.imp_right (hf _)
  | only => exact h.imp_left (hf _)
  | left => exact h.imp_left (hf _)

theorem lists_of_modifyOther (hf : ∀ s, (f s).Lists u → s.Lists u)
    (h : (m.modifyOther side f).Lists u) : m.Lists u := by
  cases side with
  | right => exact h.imp_left (hf _)
  | only => exact h.imp_right (hf _)
  | left => exact h.imp_right (hf _)

theorem minds_createPair (pair : TupleId × TupleId) (facts : Facts) :
    Keeps (Minds p g₀ Lists held) (createPair p pair facts) := by
  refine minds_create_bind fun o => minds_modifyMemory fun m u hu => ?_
  rcases hu with hu | hu
  · exact (JoinSide.lists_of_addOutput hu).imp .inl .inl
  · exact (JoinSide.lists_of_addOutput hu).imp .inr .inl

theorem minds_retractOutput (side : Side) (hu : held u) :
    Keeps (Minds p g₀ Lists held) (retractOutput side u) := by
  refine .bind (keeps_sources u) fun sources => ?_
  split
  · exact .throw _
  · exact .bind (minds_modifyMemory fun _ _ h =>
      .inl (lists_of_modifyOther (fun _ => JoinSide.lists_of_removeOutput) h)) fun _ =>
        Work.minds_retract hu

theorem minds_insert (joiners : List Joiner) (side : Side) (input : TupleId) :
    Keeps (Minds p g₀ Lists held) (insert p joiners side input) := by
  refine .bind (keeps_facts input) fun _ => .bind (.lift _) fun key => minds_memory_bind fun m =>
    .bind keeps_inHashOrder fun _ => .bind (minds_modifyMemory fun _ _ h =>
      .inl (lists_of_modifyOwn (fun _ => JoinSide.lists_of_file) h)) fun _ => .forM (fun candidate => ?_) _
  refine .bind (keeps_joinedFacts? joiners _) fun facts? => ?_
  split
  · exact minds_createPair _ _
  · exact .pure _

theorem minds_retract (side : Side) (input : TupleId) :
    Keeps (Minds p g₀ Lists held) (retract side input) := by
  refine minds_memory_bind fun m => ?_
  split
  · exact .throw _
  · refine gives_inHashOrder.bind_keeps fun outputs hperm =>
      .bind (minds_setMemory fun u hu => .inl (lists_of_modifyOwn ?_ hu)) fun _ => .forM_mem fun o ho =>
        minds_retractOutput side (.inl (lists_of_own (JoinSide.lists_of_mem (hperm.mem_iff.1 ho))))
    rintro s ⟨us, hus, hu⟩
    exact ⟨us, Table.mem_values_erase hus, hu⟩

/-- What is found by partner was searched. -/
theorem outputsByPartner_ends (side : Side) (outputs : List TupleId) (w : Workbench JoinMemory) :
    Ends (outputsByPartner side outputs) w (fun found _ => ∀ o ∈ found.values, o ∈ outputs)
      fun _ => True := by
  refine (Action.Ensures.foldlM (E := fun _ => True) (fun rest found _ =>
    (∀ o ∈ rest, o ∈ outputs) ∧ ∀ o ∈ found.values, o ∈ outputs) ?_
    ⟨fun _ => id, fun _ h => by cases h⟩).ends (R := fun _ => True) (fun _ _ _ _ => trivial) |>.mono
      (fun _ _ h => h.2) fun _ => id
  rintro found o rest w ⟨hrest, hvalues⟩
  have hrest' : ∀ o ∈ rest, o ∈ outputs := fun o' ho' => hrest o' (List.mem_cons_of_mem _ ho')
  refine Action.ensures_bind.2 ((Action.Ensures.any _ _).mono fun sources w' _ => ?_)
  split
  · refine ⟨hrest', fun o' ho' => ?_⟩
    rcases Table.mem_values_insert ho' with rfl | ho'
    · exact hrest _ List.mem_cons_self
    · exact hvalues o' ho'
  · exact ⟨hrest', hvalues⟩

/-- What is found by partner is held if all that is searched is. -/
theorem minds_outputsByPartner_bind {outputs : List TupleId}
    {f : Table TupleId TupleId → Work JoinMemory Unit} (houtputs : ∀ o ∈ outputs, held o)
    (hf : ∀ found, (∀ o ∈ found.values, held o) → Keeps (Minds p g₀ Lists held) (f found)) :
    Keeps (Minds p g₀ Lists held) (do let found ← outputsByPartner side outputs; f found) := by
  intro w h
  rw [Action.ends_bind]
  exact ((keeps_outputsByPartner side outputs w h).and (outputsByPartner_ends side outputs w)).mono
    (fun found w' h' => hf found (fun o ho => houtputs o (h'.2 o ho)) w' h'.1) fun _ h' => h'.1

theorem minds_update (joiners : List Joiner) (side : Side) (input : TupleId) :
    Keeps (Minds p g₀ Lists held) (update p joiners side input) := by
  have dropOutput {held : TupleId → Prop} {o : TupleId} (ho : held o) :
      Keeps (Minds p g₀ Lists held) (dropOutput side input o) :=
    .bind (minds_modifyMemory fun _ _ h =>
      .inl (lists_of_modifyOwn (fun _ => JoinSide.lists_of_removeOutput) h)) fun _ =>
        minds_retractOutput side ho
  refine .bind (keeps_facts input) fun _ => .bind (.lift _) fun key => minds_memory_bind fun m => ?_
  split
  · exact .throw _
  · split
    · exact .bind (minds_retract side input) fun _ => minds_insert joiners side input
    · refine gives_inHashOrder.bind_keeps fun outputs houtputs => ?_
      refine minds_outputsByPartner_bind
        (fun o ho => .inl (lists_of_own (JoinSide.lists_of_mem (houtputs.mem_iff.1 ho))))
        fun existing hexisting => .bind keeps_inHashOrder fun candidates =>
          .bind (.forM (fun candidate => ?_) _) fun _ =>
            gives_inHashOrder.bind_keeps fun unmatched hperm => .forM_mem fun o ho => ?_
      · refine .bind (keeps_joinedFacts? joiners _) fun facts? => ?_
        split
        · next ho => exact minds_refreshTuple (hexisting _ (Table.mem_values_of_get? ho)) _
        · exact minds_createPair _ _
        · next ho => exact dropOutput (hexisting _ (Table.mem_values_of_get? ho))
        · exact .pure _
      · obtain ⟨k, hk⟩ := Table.mem_values.1 (hperm.mem_iff.1 ho)
        rw [Table.get?_filter, Option.filter_eq_some_iff] at hk
        exact dropOutput (hexisting _ (Table.mem_values_of_get? hk.1))

end JoinMemory

theorem Network.minds_signalJoin (joiners : List Joiner) (side : Side) (id : TupleId)
    (signal : Signal) : Keeps (Minds p g₀ JoinMemory.Lists held) (signalJoin p joiners side id signal) := by
  cases signal with
  | insert => exact JoinMemory.minds_insert joiners side id
  | update => exact JoinMemory.minds_update joiners side id
  | retract => exact JoinMemory.minds_retract side id

namespace SemijoinMemory

variable {m : SemijoinMemory} {left right u : TupleId}

/-- Inputs may be noted one after the other. -/
theorem of_foldl {P : SemijoinMemory → Prop} {f : SemijoinMemory → TupleId → SemijoinMemory}
    (hf : ∀ m x, P (f m x) → P m) {xs : List TupleId} (h : P (xs.foldl f m)) : P m := by
  induction xs generalizing m with
  | nil => exact h
  | cons x rest ih => exact hf m x (ih h)

/-- Changing what an input is matched with changes no output. -/
theorem lists_of_modify {counters : Table TupleId Counter} {f : Counter → Counter}
    {k : TupleId} (h : ∃ c ∈ (counters.modify k f).values, c.output = some u)
    (hf : ∀ c, (f c).output = c.output) :
    ∃ c ∈ counters.values, c.output = some u := by
  obtain ⟨c, hc, hu⟩ := h
  rcases Table.mem_values_modify hc with ⟨c', hc', rfl⟩ | hc
  · exact ⟨c', hc', (hf c').symm.trans hu⟩
  · exact ⟨c, hc, hu⟩

theorem lists_of_addHit (h : (addHit right m left).Lists u) : m.Lists u :=
  lists_of_modify h fun _ => rfl

theorem lists_of_removeHit (h : (removeHit right m left).Lists u) : m.Lists u :=
  lists_of_modify h fun _ => rfl

theorem lists_of_setHits {hits : List TupleId} (h : (setHits left hits m).Lists u) : m.Lists u :=
  lists_of_modify h fun _ => rfl

theorem lists_of_link (h : (link left m right).Lists u) : m.Lists u := h

theorem counters_unlink : (unlink left m right).counters = m.counters := by
  unfold unlink
  split
  · rfl
  · split <;> rfl

theorem lists_of_unlink (h : (unlink left m right).Lists u) : m.Lists u := by
  rwa [Lists, counters_unlink] at h

theorem minds_findMatches (joiners : List Joiner) (left : TupleId) (key : JoinKey) :
    Keeps (Minds p g₀ Lists held) (findMatches joiners left key) :=
  .bind (keeps_facts left) fun _ => minds_memory_bind fun _ => .bind keeps_inHashOrder fun _ =>
    .bind (keeps_accepted (fun right => .bind (keeps_facts right) fun _ => .lift _) _) fun _ =>
      .bind (minds_modifyMemory fun _ _ h =>
        .inl (of_foldl (P := (·.Lists _)) (fun _ _ => lists_of_link) h)) fun _ => .pure _

theorem minds_insertLeft (joiners : List Joiner) (left : TupleId) :
    Keeps (Minds p g₀ Lists held) (insertLeft joiners left) := by
  refine .bind (keeps_facts left) fun _ => .bind (.lift _) fun _ => .bind (minds_findMatches _ _ _)
    fun _ => minds_modifyMemory ?_
  rintro m u ⟨c, hc, hu⟩
  rcases Table.mem_values_insert hc with rfl | hc
  · cases hu
  · exact .inl ⟨c, hc, hu⟩

theorem minds_insertRight (joiners : List Joiner) (right : TupleId) :
    Keeps (Minds p g₀ Lists held) (insertRight joiners right) :=
  .bind (keeps_facts right) fun _ => .bind (.lift _) fun _ => minds_memory_bind fun _ =>
    .bind keeps_inHashOrder fun _ =>
      .bind (keeps_accepted (fun left => .bind (keeps_facts left) fun _ => .lift _) _) fun _ =>
        minds_modifyMemory fun _ _ h =>
          .inl (of_foldl (P := (·.Lists _)) (fun _ _ => lists_of_addHit) h)

theorem minds_retractRight (right : TupleId) :
    Keeps (Minds p g₀ Lists held) (retractRight right) := by
  refine minds_memory_bind fun m => ?_
  split
  · exact .throw _
  · refine minds_setMemory fun u h => ?_
    obtain ⟨c, hc, hu⟩ := of_foldl (P := (·.Lists _)) (fun _ _ => lists_of_removeHit) h
    exact .inl ⟨c, hc, hu⟩

theorem minds_updateLeft (joiners : List Joiner) (left : TupleId) :
    Keeps (Minds p g₀ Lists held) (updateLeft joiners left) := by
  have markDirty {held : TupleId → Prop} :
      Keeps (Minds p g₀ Lists held) (modifyMemory (·.markDirty left)) :=
    minds_modifyMemory fun _ _ => .inl
  have renewLeft {held : TupleId → Prop} (key : JoinKey) {counter : Counter}
      (hcounter : ∀ o, counter.output = some o → held o) :
      Keeps (Minds p g₀ Lists held) (renewLeft joiners left key counter) := by
    refine .bind (minds_modifyMemory fun _ _ h => .inl (lists_of_setHits
      (of_foldl (P := (·.Lists _)) (fun _ _ => lists_of_unlink) h))) fun _ =>
        .bind (minds_findMatches joiners left key) fun _ =>
          .bind (minds_modifyMemory fun _ _ h => .inl (lists_of_setHits h)) fun _ => ?_
    split
    · next ho =>
      exact .bind (keeps_facts left) fun _ => .bind (minds_refreshTuple (hcounter _ ho) _) fun _ =>
        markDirty
    · exact markDirty
  refine .bind (keeps_facts left) fun _ => .bind (.lift _) fun key => minds_memory_bind fun m =>
    .bind (minds_setMemory fun _ h => .inl h) fun _ => ?_
  have file (oldKey : JoinKey) {held : TupleId → Prop} : Keeps (Minds p g₀ Lists held)
      (modifyMemory fun m => { m with leftIndex := (m.leftIndex.erase oldKey left).insert key left }) :=
    minds_modifyMemory fun _ _ => .inl
  split
  · exact .throw _
  · split
    · split
      · exact .bind (file _) fun _ => .throw _
      · exact .throw _
    · next counter hcounter =>
      have hlisted : ∀ o, counter.output = some o → m.Lists o ∨ held o :=
        fun o ho => .inl ⟨counter, Table.mem_values_of_get? hcounter, ho⟩
      split
      · exact .bind (file _) fun _ => renewLeft _ hlisted
      · exact renewLeft _ hlisted

theorem minds_retractLeft (left : TupleId) : Keeps (Minds p g₀ Lists held) (retractLeft left) := by
  refine minds_memory_bind fun m => ?_
  split
  · exact .throw _
  · refine .bind (minds_setMemory fun _ h => .inl h) fun _ => ?_
    split
    · exact .pure _
    · next counter hcounter =>
      refine .bind (minds_setMemory fun u h => ?_) fun _ => ?_
      · obtain ⟨c, hc, hu⟩ := of_foldl (P := (·.Lists _)) (fun _ _ => lists_of_unlink) h
        exact .inl ⟨c, Table.mem_values_erase hc, hu⟩
      · split
        · next ho =>
          exact Work.minds_retract (.inl ⟨counter, Table.mem_values_of_get? hcounter, ho⟩)
        · exact .pure _

theorem minds_refresh (expected : Bool) : Keeps (Minds p g₀ Lists held) (refresh p expected) := by
  have settle {held : TupleId → Prop} (left : TupleId) :
      Keeps (Minds p g₀ Lists held) (settle p expected left) := by
    have put {held : TupleId → Prop} {c : Counter} (hc : ∀ o, c.output = some o → held o) :
        Keeps (Minds p g₀ Lists held)
          (modifyMemory fun m => { m with counters := m.counters.insert left c }) := by
      refine minds_modifyMemory ?_
      rintro m u ⟨c', hc', hu⟩
      rcases Table.mem_values_insert hc' with rfl | hc'
      · exact .inr (hc u hu)
      · exact .inl ⟨c', hc', hu⟩
    refine minds_memory_bind fun m => ?_
    split
    · exact .pure _
    · next counter hcounter =>
      dsimp only
      split
      · exact .bind (keeps_facts left) fun _ => minds_create_bind fun o =>
          put fun _ ho => .inl (Option.some.inj ho).symm
      · next ho =>
        exact .bind (put fun _ ho => by cases ho) fun _ =>
          Work.minds_retract (.inl ⟨counter, Table.mem_values_of_get? hcounter, ho⟩)
      · exact .pure _
  exact minds_memory_bind fun _ => .bind keeps_inHashOrder fun _ =>
    .bind (minds_modifyMemory fun _ _ => .inl) fun _ => .forM settle _

end SemijoinMemory

theorem Network.minds_signalSemijoin (joiners : List Joiner) (id : TupleId) (side : Side)
    (signal : Signal) :
    Keeps (Minds p g₀ SemijoinMemory.Lists held) (signalSemijoin joiners id side signal) := by
  have left : Keeps (Minds p g₀ SemijoinMemory.Lists held) (signalSemijoin joiners id .left signal) := by
    cases signal with
    | insert => exact SemijoinMemory.minds_insertLeft joiners id
    | update => exact SemijoinMemory.minds_updateLeft joiners id
    | retract => exact SemijoinMemory.minds_retractLeft id
  cases side with
  | only => cases signal <;> exact left
  | left => exact left
  | right =>
    cases signal with
    | insert => exact SemijoinMemory.minds_insertRight joiners id
    | update =>
      exact .bind (SemijoinMemory.minds_retractRight id) fun _ =>
        SemijoinMemory.minds_insertRight joiners id
    | retract => exact SemijoinMemory.minds_retractRight id

/-! ## What a refresh leaves -/

/-- The memory on a workbench has a property. -/
def Work.Recalls {μ : Type} (M : μ → Prop) (w : Workbench μ) : Prop := M w.memory

/-- Work on the agenda leaves the memory alone. -/
theorem Work.recalls_onAgenda {μ α : Type} {M : μ → Prop} (x : Action Agenda α) :
    Keeps (Recalls M) (onAgenda x : Work μ α) := by
  intro w h
  refine Action.ends_within.2 ?_
  unfold Ends
  split
  · exact h
  · exact h

theorem Work.recalls_refreshIfChanged {μ : Type} {M : μ → Prop} (u : TupleId) (facts : Facts) :
    Keeps (Recalls M) (refreshIfChanged u facts : Work μ Unit) := by
  refine .bind (.get_bind fun _ _ => .lift _) fun old => ?_
  split
  · exact .bind (recalls_onAgenda _) fun _ => recalls_onAgenda _
  · exact .pure _

/-- A refresh leaves no group to settle. -/
theorem GroupMemory.refresh_clean (node : NodeId) (w : Workbench GroupMemory) :
    Ends (refresh node) w (fun _ => Recalls (·.hasDirty = false)) fun _ => True := by
  have setGroup (id : GroupId) (group : Group) : Keeps (Recalls (·.hasDirty = false)) (setGroup id group) :=
    .modify fun _ h => h
  have settle (id : GroupId) : Keeps (Recalls (·.hasDirty = false)) (settle node id) := by
    refine .bind (.get_bind fun _ _ => .pure _) fun m => ?_
    split
    · exact .pure _
    · split
      · split
        · exact .bind (setGroup _ _) fun _ => .bind (recalls_onAgenda _) fun _ =>
            .modify fun _ h => h
        · exact .modify fun _ h => h
      · split
        · exact .bind (recalls_onAgenda _) fun _ => .bind (recalls_onAgenda _) fun _ =>
            setGroup _ _
        · exact .bind (recalls_onAgenda _) fun _ => recalls_refreshIfChanged _ _
        · exact .bind (setGroup _ _) fun _ => recalls_onAgenda _
        · exact .pure _
  have hclean : Recalls (·.hasDirty = false) { w with memory := { w.memory with dirty := [] } } := rfl
  exact (Keeps.forM settle _ _ hclean).mono (fun _ _ h => h) fun _ _ => trivial

/-- A refresh leaves no input to settle. -/
theorem SemijoinMemory.refresh_clean (node : NodeId) (expected : Bool)
    (w : Workbench SemijoinMemory) :
    Ends (refresh node expected) w (fun _ => Recalls (·.hasDirty = false)) fun _ => True := by
  have settle (left : TupleId) : Keeps (Recalls (·.hasDirty = false)) (settle node expected left) := by
    refine .bind (.get_bind fun _ _ => .pure _) fun m => ?_
    split
    · exact .pure _
    · dsimp only
      split
      · exact .bind (.get_bind fun _ _ => .lift _) fun _ => .bind (recalls_onAgenda _) fun _ =>
          .modify fun _ h => h
      · exact .bind (.modify fun _ h => h) fun _ => recalls_onAgenda _
      · exact .pure _
  have hclean : Recalls (·.hasDirty = false) { w with memory := { w.memory with dirty := [] } } := rfl
  exact (Keeps.forM settle _ _ hclean).mono (fun _ _ h => h) fun _ _ => trivial

end ConstraintStreams
