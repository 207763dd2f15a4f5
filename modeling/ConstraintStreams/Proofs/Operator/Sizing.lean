import ConstraintStreams.Proofs.Fact.Data
import ConstraintStreams.Proofs.Joiner.Index
import ConstraintStreams.Proofs.Operator.Owning
import ConstraintStreams.Proofs.Tuple.Sizing

/-!
# Operators make tuples of their sizes

An operator that is told about inputs of the sizes of its parents makes and changes tuples of the size of
its node only, whether or not the work fails. What carries this from signal to signal is that a memory
names tuples of known sizes: its outputs, and the inputs whose facts it will read later.
-/

namespace ConstraintStreams

open ConstraintStreams.Action (Keeps Ends Gives)
open Agenda (Later Carries Sized)

namespace Work

variable {μ α β : Type} {sizeOf : NodeId → Option Nat} {g₀ : Agenda} {names : μ → TupleId → Nat → Prop}
  {ok : μ → Prop} {held : TupleId → Nat → Prop} {w : Workbench μ} {p : NodeId} {u : TupleId} {k : Nat}

/-- Work on an agenda with tuples of the right sizes. What the memory names and what else is held are
names of tuples of so many facts. -/
structure Sizes (sizeOf : NodeId → Option Nat) (g₀ : Agenda) (names : μ → TupleId → Nat → Prop)
    (ok : μ → Prop) (held : TupleId → Nat → Prop) (w : Workbench μ) : Prop where
  later : Later g₀ w.agenda
  sized : w.agenda.Sized sizeOf
  named : ∀ {u k}, names w.memory u k → Carries sizeOf k u w.agenda
  ok : ok w.memory
  held : ∀ {u k}, held u k → Carries sizeOf k u w.agenda

namespace Sizes

/-- Other names may be held. -/
theorem hold {held' : TupleId → Nat → Prop} (h : Sizes sizeOf g₀ names ok held w)
    (hheld : ∀ {u k}, held' u k → Carries sizeOf k u w.agenda) : Sizes sizeOf g₀ names ok held' w :=
  ⟨h.later, h.sized, h.named, h.ok, hheld⟩

/-- Less may be held. -/
theorem forget {held' : TupleId → Nat → Prop} (h : Sizes sizeOf g₀ names ok held' w)
    (hle : ∀ u k, held u k → held' u k) : Sizes sizeOf g₀ names ok held w :=
  h.hold fun hu => h.held (hle _ _ hu)

/-- Work goes on on a later agenda. -/
theorem onto (h : Sizes sizeOf g₀ names ok held w) {g : Agenda} (hnow : Later w.agenda g)
    (hlater : Later g₀ g) (hsized : g.Sized sizeOf) :
    Sizes sizeOf g₀ names ok held { w with agenda := g } :=
  ⟨hlater, hsized, fun hu => (h.named hu).continues hnow.continues, h.ok,
    fun hu => (h.held hu).continues hnow.continues⟩

/-- The memory is replaced by one that names no other tuples, but for what is held. -/
theorem remember (h : Sizes sizeOf g₀ names ok held w) {m : μ} (hok : ok m)
    (hm : ∀ u k, names m u k → names w.memory u k ∨ held u k) :
    Sizes sizeOf g₀ names ok held { w with memory := m } :=
  ⟨h.later, h.sized, fun hu => (hm _ _ hu).elim h.named h.held, hok, h.held⟩

end Sizes

/-! ## Rules -/

/-- Work that leaves the agenda alone, where the memory names no tuples. -/
theorem sizes_of_still {x : Work μ α} (hx : ∀ g, Keeps (On (· = g)) x) :
    Keeps (Sizes sizeOf g₀ (fun _ _ _ => False) (fun _ => True) held) x := by
  intro w h
  refine (hx w.agenda w rfl).mono (fun _ w' hw' => ?_) fun w' hw' => ?_
  all_goals
    replace hw' : w'.agenda = w.agenda := hw'
    exact ⟨hw' ▸ h.later, hw' ▸ h.sized, False.elim, trivial, fun hu => hw' ▸ h.held hu⟩

/-- The facts of a tuple of known size. -/
theorem sizes_facts (hu : held u k) :
    Gives (Sizes sizeOf g₀ names ok held) (·.length = k) (facts u : Work μ Facts) := by
  intro w h
  unfold facts Agenda.facts Agenda.tuple
  rw [Action.ends_bind, Action.ends_get, Action.ends_lift]
  refine ⟨fun fs hfs => ⟨h, ?_⟩, fun _ _ => h⟩
  obtain ⟨t, ht, hfs⟩ := except_bind_eq_ok.1 hfs
  cases hfs
  exact (h.held hu).length_eq h.sized (TupleStore.find?_of_get ht)

/-- What the memory names when it is read is held from then on. -/
theorem sizes_memory_bind {f : μ → Work μ α} (hf : ∀ m, ok m →
      Keeps (Sizes sizeOf g₀ names ok fun u k => names m u k ∨ held u k) (f m)) :
    Keeps (Sizes sizeOf g₀ names ok held) (do let m ← memory; f m) := by
  intro w h
  have hheld : Sizes sizeOf g₀ names ok (fun u k => names w.memory u k ∨ held u k) w :=
    h.hold fun hu => hu.elim h.named h.held
  exact (hf w.memory h.ok w hheld).mono (fun _ _ h' => h'.forget fun _ _ => .inr)
    fun _ h' => h'.forget fun _ _ => .inr

theorem sizes_setMemory {m : μ} (hok : ok m) (hm : ∀ u k, names m u k → held u k) :
    Keeps (Sizes sizeOf g₀ names ok held) (setMemory m) :=
  .modify fun _ h => h.remember hok fun u k hu => .inr (hm u k hu)

theorem sizes_modifyMemory {f : μ → μ} (hok : ∀ m, ok m → ok (f m))
    (hf : ∀ m u k, names (f m) u k → names m u k ∨ held u k) :
    Keeps (Sizes sizeOf g₀ names ok held) (modifyMemory f) :=
  .modify fun w h => h.remember (hok w.memory h.ok) (hf w.memory)

/-- Work on the agenda that keeps the sizes as long as what is held has them. -/
theorem sizes_onAgenda {x : Action Agenda α} (hlater : ∀ g₀, Keeps (Later g₀) x)
    (hsized : ∀ g, (∀ {u k}, held u k → Carries sizeOf k u g) → g.Orderly → g.Sized sizeOf →
      Ends x g (fun _ => Sized sizeOf) (Sized sizeOf)) :
    Keeps (Sizes sizeOf g₀ names ok held) (onAgenda x : Work μ α) := by
  intro w h
  have hstart : Later w.agenda w.agenda := .start h.later.orderly
  refine Action.ends_within.2 ?_
  refine (((hlater w.agenda w.agenda hstart).and (hlater g₀ w.agenda h.later)).and
    (hsized w.agenda h.held h.later.orderly h.sized)).mono ?_ ?_
  · rintro _ g ⟨⟨hnow, hall⟩, hg⟩
    exact h.onto hnow hall hg
  · rintro g ⟨⟨hnow, hall⟩, hg⟩
    exact h.onto hnow hall hg

theorem sizes_retract (u : TupleId) :
    Keeps (Sizes sizeOf g₀ names ok held) (onAgenda (Agenda.retract u) : Work μ Unit) :=
  sizes_onAgenda (fun g₀ => (Later.outlasts g₀).retract u) fun _ _ horderly hg => hg.retract horderly u

/-- Numbering changes no number of facts. -/
theorem sizes_number (facts : Facts) : Gives (Sizes sizeOf g₀ names ok held)
    (·.length = facts.length) (onAgenda (Agenda.number facts) : Work μ Facts) := by
  have hkeeps : Keeps (Sizes sizeOf g₀ names ok held)
      (onAgenda (Agenda.number facts) : Work μ Facts) :=
    sizes_onAgenda (fun g₀ g h => (Later.outlasts g₀).number g _ h) fun _ _ _ hg =>
      ⟨hg.facts, hg.queued⟩
  intro w h
  have hlength : Ends (onAgenda (Agenda.number facts) : Work μ Facts) w
      (fun facts' _ => facts'.length = facts.length) fun _ => True :=
    Facts.length_numberItemsFrom w.agenda.nextVersion facts
  exact ((hkeeps w h).and hlength).mono (fun _ _ => id) fun _ h' => h'.1

/-- A new tuple of the node is held from then on. -/
theorem sizes_create_bind {facts : Facts} {sources : Sources} {f : TupleId → Work μ α}
    (hp : sizeOf p = some facts.length)
    (hf : ∀ o, Keeps (Sizes sizeOf g₀ names ok fun u k => u = o ∧ k = facts.length ∨ held u k) (f o)) :
    Keeps (Sizes sizeOf g₀ names ok held)
      (do let o ← (onAgenda (Agenda.create p facts sources) : Work μ TupleId); f o) := by
  intro w h
  have hkeeps : Keeps (Sizes sizeOf g₀ names ok held)
      (onAgenda (Agenda.create p facts sources) : Work μ TupleId) :=
    sizes_onAgenda (fun g₀ => (Later.outlasts g₀).create p facts sources)
      fun _ _ horderly hg => hg.create horderly hp sources
  have hmade : Ends (onAgenda (Agenda.create p facts sources) : Work μ TupleId) w
      (fun o w' => Carries sizeOf facts.length o w'.agenda) fun _ => True :=
    Action.ends_within.2 ((Agenda.create_ends w.agenda p facts sources).mono
      (fun _ _ hm => ⟨p, hp, .of_makes hm⟩) fun _ _ => trivial)
  rw [Action.ends_bind]
  refine ((hkeeps w h).and hmade).mono (fun o w' h' => ?_) fun _ h' => h'.1
  have hheld : Sizes sizeOf g₀ names ok (fun u k => u = o ∧ k = facts.length ∨ held u k) w' := by
    refine h'.1.hold fun hu => hu.elim ?_ h'.1.held
    rintro ⟨rfl, rfl⟩
    exact h'.2
  exact (hf o w' hheld).mono (fun _ _ h'' => h''.forget fun _ _ => .inr)
    fun _ h'' => h''.forget fun _ _ => .inr

/-- What is held may be said in another way. -/
theorem sizes_congr {held' : TupleId → Nat → Prop} {x : Work μ α} (hiff : ∀ u k, held u k ↔ held' u k)
    (hx : Keeps (Sizes sizeOf g₀ names ok held') x) : Keeps (Sizes sizeOf g₀ names ok held) x :=
  fun w h => (hx w (h.forget fun u k => (hiff u k).2)).mono
    (fun _ _ h' => h'.forget fun u k => (hiff u k).1) fun _ h' => h'.forget fun u k => (hiff u k).1

/-- So are several new tuples. -/
theorem sizes_createAll_bind {items : List β} {facts : β → Facts} {sources : Sources}
    {f : List TupleId → Work μ α} (hp : sizeOf p = some k) (hfacts : ∀ item, (facts item).length = k)
    (hf : ∀ os, Keeps (Sizes sizeOf g₀ names ok fun u j => u ∈ os ∧ j = k ∨ held u j) (f os)) :
    Keeps (Sizes sizeOf g₀ names ok held) (do
      let os ← items.mapM fun item =>
        (onAgenda (Agenda.create p (facts item) sources) : Work μ TupleId)
      f os) := by
  induction items generalizing held f with
  | nil => exact sizes_congr (fun u j => by simp) (hf [])
  | cons item rest ih =>
    simp only [List.mapM_cons, bind_assoc, pure_bind]
    refine sizes_create_bind (by rw [hp, hfacts]) fun o => ih fun os => ?_
    rw [hfacts]
    refine sizes_congr (fun u j => ?_) (hf (o :: os))
    simp only [List.mem_cons]
    tauto

/-- A tuple may be given as many facts as its name carries. -/
theorem sizes_refreshTuple {facts : Facts} (hu : held u facts.length) :
    Keeps (Sizes sizeOf g₀ names ok held) (refreshTuple u facts : Work μ Unit) :=
  .bind (sizes_onAgenda (fun g₀ => (Later.outlasts g₀).setFacts u facts)
    fun _ hheld horderly hg => hg.setFacts horderly (hheld hu)) fun _ =>
      sizes_onAgenda (fun g₀ => (Later.outlasts g₀).update u) fun _ _ horderly hg => hg.update horderly u

theorem sizes_refreshIfChanged {facts : Facts} (hu : held u facts.length) :
    Keeps (Sizes sizeOf g₀ names ok held) (refreshIfChanged u facts : Work μ Unit) := by
  refine (sizes_facts hu).bind_keeps fun old _ => ?_
  split
  · exact sizes_refreshTuple hu
  · exact .pure _

/-! ## Memories that name tuples of one size -/

/-- What the memory lists has so many facts. -/
def Named (lists : μ → TupleId → Prop) (k : Nat) (m : μ) (u : TupleId) (j : Nat) : Prop :=
  lists m u ∧ j = k

/-- Work with a memory that lists tuples of so many facts. -/
abbrev Uniform (sizeOf : NodeId → Option Nat) (g₀ : Agenda) (lists : μ → TupleId → Prop) (k : Nat)
    (held : TupleId → Nat → Prop) : Workbench μ → Prop :=
  Sizes sizeOf g₀ (Named lists k) (fun _ => True) held

variable {lists : μ → TupleId → Prop}

theorem uniform_memory_bind {f : μ → Work μ α} (hf : ∀ m,
      Keeps (Uniform sizeOf g₀ lists k fun u j => Named lists k m u j ∨ held u j) (f m)) :
    Keeps (Uniform sizeOf g₀ lists k held) (do let m ← memory; f m) :=
  sizes_memory_bind fun m _ => hf m

theorem uniform_setMemory {m : μ} (hm : ∀ u, lists m u → held u k) :
    Keeps (Uniform sizeOf g₀ lists k held) (setMemory m) := by
  refine sizes_setMemory trivial ?_
  rintro u _ ⟨hu, rfl⟩
  exact hm u hu

theorem uniform_modifyMemory {f : μ → μ} (hf : ∀ m u, lists (f m) u → lists m u ∨ held u k) :
    Keeps (Uniform sizeOf g₀ lists k held) (modifyMemory f) := by
  refine sizes_modifyMemory (fun _ _ => trivial) ?_
  rintro m u _ ⟨hu, rfl⟩
  exact (hf m u hu).imp_left fun hu => ⟨hu, rfl⟩

end Work

open Work

variable {sizeOf : NodeId → Option Nat} {p : NodeId} {g₀ : Agenda}
  {held : TupleId → Nat → Prop} {id : TupleId} {j k l r : Nat}

/-! ## One operator after the other -/

theorem Network.sizes_signalConcat (hp : sizeOf p = some k) (hid : held id k) (side : Side)
    (signal : Signal) :
    Keeps (Uniform sizeOf g₀ ConcatMemory.Lists k held) (signalConcat p side id signal) := by
  cases signal with
  | insert =>
    refine (sizes_facts hid).bind_keeps fun facts hfacts => ?_
    obtain rfl := hfacts
    exact sizes_create_bind hp fun o => uniform_modifyMemory fun m u hu =>
      (Table.mem_values_insert hu).symm.imp_right fun hu => .inl ⟨hu, rfl⟩
  | update =>
    refine uniform_memory_bind fun m => ?_
    split
    · exact .throw _
    · next o ho =>
      refine (sizes_facts (.inr hid)).bind_keeps fun facts hfacts => sizes_refreshTuple (.inl ?_)
      exact ⟨Table.mem_values_of_get? ho, hfacts⟩
  | retract =>
    refine uniform_memory_bind fun m => ?_
    split
    · exact .throw _
    · exact .bind (uniform_setMemory fun u hu => .inl ⟨Table.mem_values_erase hu, rfl⟩) fun _ =>
        Work.sizes_retract _

/-- What a mapper makes is taken only if it is as many facts as declared. -/
theorem MapMemory.sizes_image {names : MapMemory → TupleId → Nat → Prop} {ok : MapMemory → Prop}
    (mapper : Facts → Except Error Facts) (input : TupleId) :
    Gives (Sizes sizeOf g₀ names ok held) (·.length = k) (image k mapper input) := by
  refine (keeps_facts input).gives.bind fun _ _ => (Keeps.lift _).gives.bind fun facts _ => ?_
  split
  · exact .throw _
  · next h =>
    rw [ne_eq, not_not] at h
    exact h ▸ sizes_number facts

theorem Network.sizes_signalMap (hp : sizeOf p = some k) (mapper : Facts → Except Error Facts)
    (id : TupleId) (signal : Signal) :
    Keeps (Uniform sizeOf g₀ MapMemory.Lists k held) (signalMap p k mapper id signal) := by
  cases signal with
  | insert =>
    refine (MapMemory.sizes_image mapper id).bind_keeps fun facts hfacts => ?_
    obtain rfl := hfacts
    exact sizes_create_bind hp fun o => uniform_modifyMemory fun m u hu =>
      (Table.mem_values_insert hu).symm.imp_right fun hu => .inl ⟨hu, rfl⟩
  | update =>
    refine uniform_memory_bind fun m => ?_
    split
    · exact .throw _
    · next o ho =>
      refine (MapMemory.sizes_image mapper id).bind_keeps fun facts hfacts =>
        sizes_refreshIfChanged (.inl ?_)
      exact ⟨Table.mem_values_of_get? ho, hfacts⟩
  | retract =>
    refine uniform_memory_bind fun m => ?_
    split
    · exact .throw _
    · exact .bind (uniform_setMemory fun u hu => .inl ⟨Table.mem_values_erase hu, rfl⟩) fun _ =>
        Work.sizes_retract _

/-- An item takes the place of the last fact. -/
theorem FlattenMemory.sizes_insert (hp : sizeOf p = some k)
    (items : Fact → Except Error (List Fact)) {input : TupleId} (hinput : held input k) :
    Keeps (Uniform sizeOf g₀ FlattenMemory.Lists k held) (insert p items input) := by
  refine (sizes_facts hinput).bind_keeps fun facts hfacts => .lift_bind fun last hlast =>
    .bind (.lift _) fun _ => (sizes_number _).bind_keeps fun _ _ =>
      sizes_createAll_bind hp (fun item => ?_) fun os => uniform_modifyMemory ?_
  · have hpos : 0 < facts.length := by
      cases facts with
      | nil => cases hlast
      | cons => simp
    simp only [List.length_append, List.length_dropLast, List.length_singleton]
    omega
  · rintro m u ⟨us, hus, hu⟩
    rcases Table.mem_values_insert hus with rfl | hus
    · exact .inr (.inl ⟨hu, rfl⟩)
    · exact .inl ⟨us, hus, hu⟩

theorem FlattenMemory.sizes_retract (input : TupleId) :
    Keeps (Uniform sizeOf g₀ FlattenMemory.Lists k held) (retract input) := by
  refine uniform_memory_bind fun m => ?_
  split
  · exact .throw _
  · refine .bind (uniform_setMemory ?_) fun _ => .forM (fun _ => Work.sizes_retract _) _
    rintro u ⟨us, hus, hu⟩
    exact .inl ⟨⟨us, Table.mem_values_erase hus, hu⟩, rfl⟩

theorem Network.sizes_signalFlatten (hp : sizeOf p = some k) (hid : held id k)
    (items : Fact → Except Error (List Fact)) (signal : Signal) :
    Keeps (Uniform sizeOf g₀ FlattenMemory.Lists k held) (signalFlatten p items id signal) := by
  cases signal with
  | insert => exact FlattenMemory.sizes_insert hp items hid
  | update =>
    exact .bind (FlattenMemory.sizes_retract id) fun _ => FlattenMemory.sizes_insert hp items hid
  | retract => exact FlattenMemory.sizes_retract id

theorem DistinctMemory.sizes_insert (hp : sizeOf p = some k) {input : TupleId} (hinput : held input k) :
    Keeps (Uniform sizeOf g₀ DistinctMemory.Lists k held) (insert p input) := by
  have enter {held : TupleId → Nat → Prop} (identity : Facts) :
      Keeps (Uniform sizeOf g₀ DistinctMemory.Lists k held)
        (modifyMemory fun m => { m with members := m.members.insert input identity }) :=
    uniform_modifyMemory fun _ _ => .inl
  refine (sizes_facts hinput).bind_keeps fun facts hfacts => uniform_memory_bind fun m => ?_
  obtain rfl := hfacts
  dsimp only
  split
  · next c hc =>
    refine .bind (uniform_modifyMemory ?_) fun _ => enter _
    rintro m' u ⟨c', hc', rfl⟩
    rcases Table.mem_values_insert hc' with rfl | hc'
    · exact .inr (.inl ⟨⟨c, Table.mem_values_of_get? hc, rfl⟩, rfl⟩)
    · exact .inl ⟨c', hc', rfl⟩
  · refine sizes_create_bind hp fun o => .bind (uniform_modifyMemory ?_) fun _ => enter _
    rintro m' u ⟨c', hc', rfl⟩
    rcases Table.mem_values_insert hc' with rfl | hc'
    · exact .inr (.inl ⟨rfl, rfl⟩)
    · exact .inl ⟨c', hc', rfl⟩

theorem DistinctMemory.sizes_retract (input : TupleId) :
    Keeps (Uniform sizeOf g₀ DistinctMemory.Lists k held) (retract input) := by
  refine uniform_memory_bind fun m => ?_
  split
  · exact .throw _
  · refine .bind (uniform_setMemory fun _ hu => .inl ⟨hu, rfl⟩) fun _ => ?_
    split
    · exact .throw _
    · next c hc =>
      refine .bind (.lift _) fun size => ?_
      split
      · refine .bind (uniform_setMemory ?_) fun _ => Work.sizes_retract _
        rintro u ⟨c', hc', rfl⟩
        exact .inl ⟨⟨c', Table.mem_values_erase hc', rfl⟩, rfl⟩
      · refine uniform_setMemory ?_
        rintro u ⟨c', hc', rfl⟩
        rcases Table.mem_values_insert hc' with rfl | hc'
        · exact .inl ⟨⟨c, Table.mem_values_of_get? hc, rfl⟩, rfl⟩
        · exact .inl ⟨⟨c', hc', rfl⟩, rfl⟩

theorem Network.sizes_signalDistinct (hp : sizeOf p = some k) (hid : held id k) (signal : Signal) :
    Keeps (Uniform sizeOf g₀ DistinctMemory.Lists k held) (signalDistinct p id signal) := by
  cases signal with
  | insert => exact DistinctMemory.sizes_insert hp hid
  | update =>
    refine uniform_memory_bind fun m => ?_
    split
    · exact .throw _
    · refine (sizes_facts (.inr hid)).bind_keeps fun facts hfacts => ?_
      split
      · split
        · exact .throw _
        · next c hc =>
          exact sizes_refreshIfChanged (.inl ⟨⟨c, Table.mem_values_of_get? hc, rfl⟩, hfacts⟩)
      · exact .bind (DistinctMemory.sizes_retract id) fun _ => DistinctMemory.sizes_insert hp (.inr hid)
  | retract => exact DistinctMemory.sizes_retract id

/-! ## Groups -/

variable {key : Option (Facts → Except Error Fact)} {collector : Option Collector}

/-- The group has an accumulator if there is a collector, and a key if it has members and there are
keys. -/
structure Group.Fits (key : Option (Facts → Except Error Fact)) (collector : Option Collector)
    (group : Group) : Prop where
  collects : group.accumulator.isSome = collector.isSome
  keyless : key.isSome = false → group.key = none
  keyed : group.size ≠ 0 → group.key.isSome = key.isSome

theorem length_toList_congr {α β : Type} {a : Option α} {b : Option β}
    (h : a.isSome = b.isSome) : a.toList.length = b.toList.length := by
  cases a <;> cases b <;> simp_all

/-- A group may get another output. -/
theorem Group.Fits.label {group : Group} (h : group.Fits key collector) (output : Option TupleId) :
    { group with output }.Fits key collector :=
  ⟨h.collects, h.keyless, h.keyed⟩

/-- A group with members shows its key and what its collector reports. -/
theorem Group.Fits.length_outputFacts? {group : Group} {facts : Facts} (h : group.Fits key collector)
    (hsize : group.size ≠ 0) (hfacts : GroupMemory.outputFacts? group = some facts) :
    facts.length = key.toList.length + collector.toList.length := by
  have hkey := length_toList_congr (h.keyed hsize)
  have hcollector := length_toList_congr h.collects
  unfold GroupMemory.outputFacts? at hfacts
  split at hfacts
  · next hnone =>
    rw [hnone] at hcollector
    cases hfacts
    rw [← hcollector, hkey]
    rfl
  · next accumulator hsome =>
    obtain ⟨value, -, rfl⟩ := Option.map_eq_some_iff.1 hfacts
    rw [hsome] at hcollector
    rw [List.length_append, hkey, ← hcollector]
    rfl

namespace GroupMemory

/-- All groups fit the key and the collector. -/
def Fits (key : Option (Facts → Except Error Fact)) (collector : Option Collector)
    (m : GroupMemory) : Prop :=
  ∀ group ∈ m.groups.values, group.Fits key collector

/-- Work with the memory of a grouping. -/
abbrev Grouped (sizeOf : NodeId → Option Nat) (g₀ : Agenda)
    (key : Option (Facts → Except Error Fact)) (collector : Option Collector) (k : Nat)
    (held : TupleId → Nat → Prop) : Workbench GroupMemory → Prop :=
  Sizes sizeOf g₀ (Named GroupMemory.Lists k) (Fits key collector) held

theorem sizes_setGroup {id : GroupId} {group : Group} (hfits : group.Fits key collector)
    (hgroup : ∀ u, group.output = some u → held u k) :
    Keeps (Grouped sizeOf g₀ key collector k held) (setGroup id group) := by
  refine sizes_modifyMemory (fun m hm group' hg' => ?_) ?_
  · rcases Table.mem_values_insert hg' with rfl | hg'
    · exact hfits
    · exact hm group' hg'
  · rintro m u _ ⟨⟨group', hg', hu⟩, rfl⟩
    rcases Table.mem_values_insert hg' with rfl | hg'
    · exact .inr (hgroup u hu)
    · exact .inl ⟨⟨group', hg', hu⟩, rfl⟩

theorem sizes_keyOf (facts : Facts) : Gives (Grouped sizeOf g₀ key collector k held)
    (·.isSome = key.isSome) (keyOf key facts) := by
  cases key with
  | none => exact .pure rfl
  | some f =>
    refine (Keeps.lift _).gives.bind fun fact _ => (sizes_number [fact]).bind fun numbered h =>
      .pure ?_
    obtain ⟨fact', rfl⟩ := List.length_eq_one_iff.1 h
    rfl

theorem sizes_collect (facts : Facts) (accumulator : Option Accumulator) :
    Gives (Grouped sizeOf g₀ key collector k held) (·.1.isSome = accumulator.isSome)
      (collect facts accumulator) := by
  cases accumulator with
  | none => exact .pure rfl
  | some accumulator =>
    intro w h
    unfold collect
    simp only [Action.ends_bind, Action.ends_get, Action.ends_lift, Action.ends_modify,
      Action.ends_pure]
    refine ⟨fun taken _ => ⟨?_, rfl⟩, fun _ _ => h⟩
    exact h.onto ((Later.outlasts _).number _ taken.2.2 (.start h.later.orderly))
      ((Later.outlasts g₀).number _ taken.2.2 h.later) ⟨h.sized.facts, h.sized.queued⟩

theorem sizes_takeOut (receipt : Receipt) (accumulator : Option Accumulator) :
    Gives (Grouped sizeOf g₀ key collector k held) (·.isSome = accumulator.isSome)
      (accumulator.mapM fun a => liftM (a.retract receipt)) := by
  cases accumulator with
  | none => exact .pure rfl
  | some a => exact (Keeps.lift _).gives.bind fun _ _ => .pure rfl

theorem sizes_insert {input : TupleId} :
    Keeps (Grouped sizeOf g₀ key collector k held) (insert key collector input) := by
  refine .bind (keeps_facts input) fun _ => (sizes_keyOf _).bind_keeps fun fact hfact =>
    sizes_memory_bind fun m hm => ?_
  have hgroup : ((m.groups.get? (fact.map Fact.identity)).getD
      { accumulator := collector.map (·.start) }).Fits key collector := by
    cases hg : m.groups.get? (fact.map Fact.identity) with
    | none => exact ⟨by simp, fun _ => rfl, fun h => absurd rfl h⟩
    | some group => exact hm group (Table.mem_values_of_get? hg)
  have houtput : ∀ u, ((m.groups.get? (fact.map Fact.identity)).getD
      { accumulator := collector.map (·.start) }).output = some u → Named Lists k m u k ∨ held u k := by
    intro u hu
    cases hg : m.groups.get? (fact.map Fact.identity) with
    | none => rw [hg] at hu; cases hu
    | some group => rw [hg] at hu; exact .inl ⟨⟨group, Table.mem_values_of_get? hg, hu⟩, rfl⟩
  refine .bind (sizes_setGroup hgroup houtput) fun _ => (sizes_collect _ _).bind_keeps
    fun taken htaken => .bind (sizes_setGroup ⟨?_, fun hkey => ?_, fun _ => ?_⟩ houtput) fun _ =>
      sizes_modifyMemory (fun _ => id) fun _ _ _ => .inl
  · exact htaken.trans hgroup.collects
  · have hnone : fact = none := by simpa [hkey] using hfact
    exact Option.or_eq_none_iff.2 ⟨hnone, hgroup.keyless hkey⟩
  · rw [Option.isSome_or, hfact]
    cases hkey : key.isSome with
    | true => rfl
    | false => rw [hgroup.keyless hkey]; rfl

theorem sizes_retract (input : TupleId) :
    Keeps (Grouped sizeOf g₀ key collector k held) (retract input) := by
  refine sizes_memory_bind fun m hm => ?_
  split
  · exact .throw _
  · refine .bind (sizes_setMemory hm fun _ _ => .inl) fun _ => ?_
    split
    · exact .throw _
    · next group hg =>
      have hgroup := hm group (Table.mem_values_of_get? hg)
      refine (sizes_takeOut _ group.accumulator).bind_keeps fun accumulator hacc =>
        .lift_bind fun size hsize => .bind (sizes_setGroup ⟨hacc.trans hgroup.collects,
          hgroup.keyless, fun hne => hgroup.keyed ?_⟩ fun u hu => ?_) fun _ =>
            sizes_modifyMemory (fun _ => id) fun _ _ _ => .inl
      · unfold countDown at hsize
        split at hsize
        · cases hsize
        · cases hsize
          omega
      · exact .inl ⟨⟨group, Table.mem_values_of_get? hg, hu⟩, rfl⟩

theorem sizes_forget (id : GroupId) : Keeps (Grouped sizeOf g₀ key collector k held)
    (modifyMemory fun m => { m with groups := m.groups.erase id }) := by
  refine sizes_modifyMemory (fun m hm group hg => hm group (Table.mem_values_erase hg)) ?_
  rintro m u _ ⟨⟨group, hg, hu⟩, rfl⟩
  exact .inl ⟨⟨group, Table.mem_values_erase hg, hu⟩, rfl⟩

theorem sizes_settle (hp : sizeOf p = some k)
    (hk : k = key.toList.length + collector.toList.length) (id : GroupId) :
    Keeps (Grouped sizeOf g₀ key collector k held) (settle p id) := by
  refine sizes_memory_bind fun m hm => ?_
  split
  · exact .pure _
  · next group hg =>
    have hgroup := hm group (Table.mem_values_of_get? hg)
    split
    · split
      · exact .bind (sizes_setGroup (hgroup.label none) fun _ hu => by cases hu) fun _ =>
          .bind (Work.sizes_retract _) fun _ => sizes_forget id
      · exact sizes_forget id
    · next hsize =>
      have hlength {facts : Facts} (hfacts : outputFacts? group = some facts) : facts.length = k :=
        (hgroup.length_outputFacts? hsize hfacts).trans hk.symm
      split
      · next hfacts _ =>
        refine (sizes_number _).bind_keeps fun facts hnumbered => ?_
        have hlen := hnumbered.trans (hlength hfacts)
        refine sizes_create_bind (by rw [hp, hlen]) fun o =>
          sizes_setGroup (hgroup.label (some o)) fun u hu => ?_
        exact .inl ⟨(Option.some.inj hu).symm, hlen.symm⟩
      · next hfacts ho =>
        refine (sizes_number _).bind_keeps fun facts hnumbered => sizes_refreshIfChanged (.inl ?_)
        exact ⟨⟨group, Table.mem_values_of_get? hg, ho⟩, hnumbered.trans (hlength hfacts)⟩
      · exact .bind (sizes_setGroup (hgroup.label none) fun _ hu => by cases hu) fun _ =>
          Work.sizes_retract _
      · exact .pure _

theorem sizes_refresh (hp : sizeOf p = some k)
    (hk : k = key.toList.length + collector.toList.length) :
    Keeps (Grouped sizeOf g₀ key collector k held) (refresh p) :=
  sizes_memory_bind fun _ _ => .bind keeps_inHashOrder fun _ =>
    .bind (sizes_modifyMemory (fun _ => id) fun _ _ _ => .inl) fun _ =>
      .forM (fun id => sizes_settle hp hk id) _

end GroupMemory

theorem Network.sizes_signalGroup (id : TupleId) (signal : Signal) :
    Keeps (GroupMemory.Grouped sizeOf g₀ key collector k held)
      (signalGroup key collector id signal) := by
  cases signal with
  | insert => exact GroupMemory.sizes_insert
  | update => exact .bind (GroupMemory.sizes_retract id) fun _ => GroupMemory.sizes_insert
  | retract => exact GroupMemory.sizes_retract id

/-! ## Joins -/

/-- Of two, the one of the side. -/
def Side.pick {α : Type} (l r : α) : Side → α
  | .right => r
  | _ => l

/-- A side of a join has filed an input. -/
def JoinSide.Holds (s : JoinSide) (u : TupleId) : Prop := ∃ key, u ∈ s.index.find key

/-- The names in the memory of a join that joins so many facts with so many others. -/
inductive JoinMemory.Names (l r : Nat) (m : JoinMemory) : TupleId → Nat → Prop
  | output {u} (h : m.Lists u) : Names l r m u (l + r)
  | left {u} (h : m.left.Holds u) : Names l r m u l
  | right {u} (h : m.right.Holds u) : Names l r m u r

namespace JoinSide

variable {s : JoinSide} {input u : TupleId} {key key' : JoinKey}

theorem holds_of_insert (h : u ∈ (s.index.insert key input).find key') : s.Holds u ∨ u = input := by
  rw [Index.find_insert] at h
  split at h
  · split at h
    · exact .inl ⟨_, h⟩
    · exact (List.mem_append.1 h).imp (fun h => ⟨_, h⟩) List.mem_singleton.1
  · exact .inl ⟨_, h⟩

theorem holds_of_erase (h : u ∈ (s.index.erase key input).find key') : s.Holds u := by
  rw [Index.find_erase] at h
  split at h
  · exact ⟨_, List.mem_of_mem_erase h⟩
  · exact ⟨_, h⟩

end JoinSide

namespace JoinMemory

variable {m : JoinMemory} {side : Side} {f : JoinSide → JoinSide} {u input : TupleId} {key : JoinKey}

theorem names_of_other (h : u ∈ (m.other side).index.find key) : m.Names l r u (side.pick r l) := by
  cases side with
  | right => exact .left ⟨key, h⟩
  | only => exact .right ⟨key, h⟩
  | left => exact .right ⟨key, h⟩

/-- What is filed anew has the size of its side. -/
theorem names_of_modifyOwn {P : Prop} (hlists : ∀ s, (f s).Lists u → s.Lists u)
    (hholds : ∀ s, (f s).Holds u → s.Holds u ∨ (k = side.pick l r → P))
    (h : (m.modifyOwn side f).Names l r u k) : m.Names l r u k ∨ P := by
  cases h with
  | output h => exact .inl (.output (lists_of_modifyOwn hlists h))
  | left h =>
    cases side with
    | right => exact .inl (.left h)
    | only => exact (hholds _ h).imp .left fun hP => hP rfl
    | left => exact (hholds _ h).imp .left fun hP => hP rfl
  | right h =>
    cases side with
    | right => exact (hholds _ h).imp .right fun hP => hP rfl
    | only => exact .inl (.right h)
    | left => exact .inl (.right h)

/-- A change of outputs alone. -/
theorem names_of_outputs {m' : JoinMemory} (hlists : m'.Lists u → m.Lists u)
    (hleft : m'.left.index = m.left.index) (hright : m'.right.index = m.right.index)
    (h : m'.Names l r u k) : m.Names l r u k := by
  cases h with
  | output h => exact .output (hlists h)
  | left h => exact .left (by rwa [JoinSide.Holds, ← hleft])
  | right h => exact .right (by rwa [JoinSide.Holds, ← hright])

/-- Work with the memory of a join. -/
abbrev Joined (sizeOf : NodeId → Option Nat) (g₀ : Agenda) (l r : Nat)
    (held : TupleId → Nat → Prop) : Workbench JoinMemory → Prop :=
  Sizes sizeOf g₀ (Names l r) (fun _ => True) held

theorem held_orient {candidate : TupleId} (hinput : held input (side.pick l r))
    (hcandidate : held candidate (side.pick r l)) :
    held (orient side input candidate).1 l ∧ held (orient side input candidate).2 r := by
  cases side with
  | right => exact ⟨hcandidate, hinput⟩
  | only => exact ⟨hinput, hcandidate⟩
  | left => exact ⟨hinput, hcandidate⟩

/-- A pair has the facts of both. -/
theorem sizes_joinedFacts? (joiners : List Joiner) {pair : TupleId × TupleId}
    (hpair : held pair.1 l ∧ held pair.2 r) :
    Gives (Joined sizeOf g₀ l r held) (fun facts? => ∀ facts, facts? = some facts → facts.length = l + r)
      (joinedFacts? joiners pair) := by
  refine (sizes_facts hpair.1).bind fun fl hl => (sizes_facts hpair.2).bind fun fr hr =>
    (Keeps.lift _).gives.bind fun accepts _ => ?_
  split
  · refine .pure fun facts hfacts => ?_
    cases hfacts
    rw [List.length_append, hl, hr]
  · exact .pure fun _ h => by cases h

theorem sizes_createPair (hp : sizeOf p = some (l + r)) (pair : TupleId × TupleId) {facts : Facts}
    (hfacts : facts.length = l + r) :
    Keeps (Joined sizeOf g₀ l r held) (createPair p pair facts) := by
  refine sizes_create_bind (by rw [hp, hfacts]) fun o =>
    sizes_modifyMemory (fun _ _ => trivial) fun m u j hu => ?_
  have hlists : Lists { left := m.left.addOutput pair.1 o, right := m.right.addOutput pair.2 o } u →
      m.Lists u ∨ u = o := by
    rintro (h | h)
    · exact (JoinSide.lists_of_addOutput h).imp_left .inl
    · exact (JoinSide.lists_of_addOutput h).imp_left .inr
  cases hu with
  | output h => exact (hlists h).imp .output fun h => .inl ⟨h, hfacts.symm⟩
  | left h => exact .inl (.left h)
  | right h => exact .inl (.right h)

theorem sizes_retractOutput (side : Side) (u : TupleId) :
    Keeps (Joined sizeOf g₀ l r held) (retractOutput side u) := by
  refine .bind (keeps_sources u) fun sources => ?_
  split
  · exact .throw _
  · refine .bind (sizes_modifyMemory (fun _ _ => trivial) fun m u j hu => .inl ?_) fun _ =>
      Work.sizes_retract u
    refine names_of_outputs (lists_of_modifyOther fun _ => JoinSide.lists_of_removeOutput) ?_ ?_ hu
    · cases side <;> rfl
    · cases side <;> rfl

theorem sizes_dropOutput (side : Side) (input u : TupleId) :
    Keeps (Joined sizeOf g₀ l r held) (dropOutput side input u) := by
  refine .bind (sizes_modifyMemory (fun _ _ => trivial) fun m u j hu => .inl ?_) fun _ =>
    sizes_retractOutput side u
  refine names_of_outputs (lists_of_modifyOwn fun _ => JoinSide.lists_of_removeOutput) ?_ ?_ hu
  · cases side <;> rfl
  · cases side <;> rfl

theorem sizes_insert (hp : sizeOf p = some (l + r)) (joiners : List Joiner)
    (hinput : held input (side.pick l r)) :
    Keeps (Joined sizeOf g₀ l r held) (insert p joiners side input) := by
  refine .bind (keeps_facts input) fun _ => .bind (.lift _) fun key => sizes_memory_bind fun m _ =>
    gives_inHashOrder.bind_keeps fun candidates hperm =>
      .bind (sizes_modifyMemory (fun _ _ => trivial) fun m' u j hu =>
        names_of_modifyOwn (fun _ => JoinSide.lists_of_file) ?_ hu) fun _ =>
          .forM_mem fun candidate hcandidate => ?_
  · rintro s ⟨key', h⟩
    rcases JoinSide.holds_of_insert h with h | rfl
    · exact .inl h
    · exact .inr fun hj => .inr (hj ▸ hinput)
  · refine (sizes_joinedFacts? joiners (held_orient (.inr hinput)
      (.inl (names_of_other (hperm.mem_iff.1 hcandidate))))).bind_keeps fun facts? hfacts => ?_
    split
    · exact sizes_createPair hp _ (hfacts _ rfl)
    · exact .pure _

theorem sizes_retract (side : Side) (input : TupleId) :
    Keeps (Joined sizeOf g₀ l r held) (retract side input) := by
  refine sizes_memory_bind fun m _ => ?_
  split
  · exact .throw _
  · refine .bind keeps_inHashOrder fun _ =>
      .bind (sizes_setMemory trivial fun u j hu => names_of_modifyOwn ?_ ?_ hu) fun _ =>
        .forM (fun o => sizes_retractOutput side o) _
    · rintro s ⟨us, hus, hu⟩
      exact ⟨us, Table.mem_values_erase hus, hu⟩
    · rintro s ⟨key', h⟩
      exact .inl (JoinSide.holds_of_erase h)

/-- What is found by partner among the outputs of an input, is an output. -/
theorem sizes_outputsByPartner {outputs : List TupleId} (houtputs : ∀ o ∈ outputs, held o (l + r)) :
    Gives (Joined sizeOf g₀ l r held) (fun found => ∀ o ∈ found.values, held o (l + r))
      (outputsByPartner side outputs) := by
  intro w h
  exact ((keeps_outputsByPartner side outputs w h).and (outputsByPartner_ends side outputs w)).mono
    (fun found w' h' => ⟨h'.1, fun o ho => houtputs o (h'.2 o ho)⟩) fun _ h' => h'.1

theorem sizes_update (hp : sizeOf p = some (l + r)) (joiners : List Joiner)
    (hinput : held input (side.pick l r)) :
    Keeps (Joined sizeOf g₀ l r held) (update p joiners side input) := by
  refine .bind (keeps_facts input) fun _ => .bind (.lift _) fun key => sizes_memory_bind fun m _ => ?_
  split
  · exact .throw _
  · split
    · exact .bind (sizes_retract side input) fun _ => sizes_insert hp joiners (.inr hinput)
    · refine gives_inHashOrder.bind_keeps fun outputs houtputs => ?_
      refine (sizes_outputsByPartner fun o ho => .inl (.output (lists_of_own
        (JoinSide.lists_of_mem (houtputs.mem_iff.1 ho))))).bind_keeps fun existing hexisting => ?_
      refine gives_inHashOrder.bind_keeps fun candidates hperm =>
        .bind (.forM_mem fun candidate hcandidate => ?_) fun _ =>
          .bind keeps_inHashOrder fun _ => .forM (fun o => sizes_dropOutput _ _ o) _
      refine (sizes_joinedFacts? joiners (held_orient (.inr hinput)
        (.inl (names_of_other (hperm.mem_iff.1 hcandidate))))).bind_keeps fun facts? hfacts => ?_
      split
      · next ho =>
        refine sizes_refreshTuple ?_
        rw [hfacts _ rfl]
        exact hexisting _ (Table.mem_values_of_get? ho)
      · exact sizes_createPair hp _ (hfacts _ rfl)
      · exact sizes_dropOutput _ _ _
      · exact .pure _

end JoinMemory

theorem Network.sizes_signalJoin (hp : sizeOf p = some (l + r)) (joiners : List Joiner) {side : Side}
    (hid : held id (side.pick l r)) (signal : Signal) :
    Keeps (JoinMemory.Joined sizeOf g₀ l r held) (signalJoin p joiners side id signal) := by
  cases signal with
  | insert => exact JoinMemory.sizes_insert hp joiners hid
  | update => exact JoinMemory.sizes_update hp joiners hid
  | retract => exact JoinMemory.sizes_retract side id

/-! ## Semijoins -/

namespace SemijoinMemory

variable {m m' : SemijoinMemory} {left right u : TupleId} {key : JoinKey}

/-- The names in the memory of a semijoin: its outputs, and the left inputs that may get one. -/
def Names (m : SemijoinMemory) (u : TupleId) : Prop := m.Lists u ∨ (m.counters.get? u).isSome = true

theorem names_of_link (h : (link left m right).Names u) : m.Names u := h

theorem names_of_unlink (h : (unlink left m right).Names u) : m.Names u := by
  rwa [Names, Lists, counters_unlink] at h

theorem names_of_addHit (h : (addHit right m left).Names u) : m.Names u :=
  h.imp lists_of_addHit fun h => (Table.isSome_get?_modify ..).symm.trans h

theorem names_of_removeHit (h : (removeHit right m left).Names u) : m.Names u :=
  h.imp lists_of_removeHit fun h => (Table.isSome_get?_modify ..).symm.trans h

theorem names_of_setHits {hits : List TupleId} (h : (setHits left hits m).Names u) : m.Names u :=
  h.imp lists_of_setHits fun h => (Table.isSome_get?_modify ..).symm.trans h

/-- An input is entered with its output. -/
theorem names_of_insert {counter : Counter} (hcounters : m'.counters = m.counters.insert left counter)
    (h : m'.Names u) : m.Names u ∨ u = left ∨ counter.output = some u := by
  rw [Names, Lists, hcounters, Table.get?_insert] at h
  rcases h with ⟨c, hc, hu⟩ | h
  · rcases Table.mem_values_insert hc with rfl | hc
    · exact .inr (.inr hu)
    · exact .inl (.inl ⟨c, hc, hu⟩)
  · split at h
    · next he => exact .inr (.inl he.symm)
    · exact .inl (.inr h)

theorem names_of_erase (hcounters : m'.counters = m.counters.erase left) (h : m'.Names u) :
    m.Names u := by
  rw [Names, Lists, hcounters, Table.get?_erase] at h
  rcases h with ⟨c, hc, hu⟩ | h
  · exact .inl ⟨c, Table.mem_values_erase hc, hu⟩
  · split at h
    · cases h
    · exact .inr h

theorem sizes_findMatches (joiners : List Joiner) (left : TupleId) (key : JoinKey) :
    Keeps (Uniform sizeOf g₀ Names k held) (findMatches joiners left key) :=
  .bind (keeps_facts left) fun _ => .bind keeps_memory fun _ => .bind keeps_inHashOrder fun _ =>
    .bind (keeps_accepted (fun right => .bind (keeps_facts right) fun _ => .lift _) _) fun _ =>
      .bind (uniform_modifyMemory fun _ _ h =>
        .inl (of_foldl (P := (·.Names _)) (fun _ _ => names_of_link) h)) fun _ => .pure _

theorem sizes_insertLeft (joiners : List Joiner) (hleft : held left k) :
    Keeps (Uniform sizeOf g₀ Names k held) (insertLeft joiners left) := by
  refine .bind (keeps_facts left) fun _ => .bind (.lift _) fun _ => .bind (sizes_findMatches _ _ _)
    fun _ => uniform_modifyMemory fun m u h => ?_
  rcases names_of_insert rfl h with h | rfl | h
  · exact .inl h
  · exact .inr hleft
  · cases h

theorem sizes_insertRight (joiners : List Joiner) (right : TupleId) :
    Keeps (Uniform sizeOf g₀ Names k held) (insertRight joiners right) :=
  .bind (keeps_facts right) fun _ => .bind (.lift _) fun _ => .bind keeps_memory fun _ =>
    .bind keeps_inHashOrder fun _ =>
      .bind (keeps_accepted (fun left => .bind (keeps_facts left) fun _ => .lift _) _) fun _ =>
        uniform_modifyMemory fun _ _ h =>
          .inl (of_foldl (P := (·.Names _)) (fun _ _ => names_of_addHit) h)

theorem sizes_retractRight (right : TupleId) :
    Keeps (Uniform sizeOf g₀ Names k held) (retractRight right) := by
  refine uniform_memory_bind fun m => ?_
  split
  · exact .throw _
  · refine uniform_setMemory fun u h => .inl ⟨?_, rfl⟩
    replace h := of_foldl (P := (·.Names u)) (fun _ _ => names_of_removeHit) h
    exact h

theorem sizes_updateLeft (joiners : List Joiner) (hleft : held left k) :
    Keeps (Uniform sizeOf g₀ Names k held) (updateLeft joiners left) := by
  have markDirty {held : TupleId → Nat → Prop} :
      Keeps (Uniform sizeOf g₀ Names k held) (modifyMemory (·.markDirty left)) :=
    uniform_modifyMemory fun _ _ => .inl
  have renewLeft {held : TupleId → Nat → Prop} (hleft : held left k) (key : JoinKey) {counter : Counter}
      (hcounter : ∀ o, counter.output = some o → held o k) :
      Keeps (Uniform sizeOf g₀ Names k held) (renewLeft joiners left key counter) := by
    refine .bind (uniform_modifyMemory fun _ _ h => .inl (names_of_setHits
      (of_foldl (P := (·.Names _)) (fun _ _ => names_of_unlink) h))) fun _ =>
        .bind (sizes_findMatches joiners left key) fun _ =>
          .bind (uniform_modifyMemory fun _ _ h => .inl (names_of_setHits h)) fun _ => ?_
    split
    · next o ho =>
      refine (sizes_facts hleft).bind_keeps fun facts hfacts =>
        .bind (sizes_refreshTuple ?_) fun _ => markDirty
      rw [hfacts]
      exact hcounter o ho
    · exact markDirty
  refine .bind (keeps_facts left) fun _ => .bind (.lift _) fun key => uniform_memory_bind fun m =>
    .bind (uniform_setMemory fun _ h => .inl ⟨h, rfl⟩) fun _ => ?_
  have file (oldKey : JoinKey) {held : TupleId → Nat → Prop} : Keeps (Uniform sizeOf g₀ Names k held)
      (modifyMemory fun m => { m with leftIndex := (m.leftIndex.erase oldKey left).insert key left }) :=
    uniform_modifyMemory fun _ _ => .inl
  split
  · exact .throw _
  · split
    · split
      · exact .bind (file _) fun _ => .throw _
      · exact .throw _
    · next counter hcounter =>
      have hlisted : ∀ o, counter.output = some o → Named Names k m o k ∨ held o k :=
        fun o ho => .inl ⟨.inl ⟨counter, Table.mem_values_of_get? hcounter, ho⟩, rfl⟩
      split
      · exact .bind (file _) fun _ => renewLeft (.inr hleft) _ hlisted
      · exact renewLeft (.inr hleft) _ hlisted

theorem sizes_retractLeft (left : TupleId) :
    Keeps (Uniform sizeOf g₀ Names k held) (retractLeft left) := by
  refine uniform_memory_bind fun m => ?_
  split
  · exact .throw _
  · refine .bind (uniform_setMemory fun _ h => .inl ⟨h, rfl⟩) fun _ => ?_
    split
    · exact .pure _
    · refine .bind (uniform_setMemory fun u h => .inl ⟨?_, rfl⟩) fun _ => ?_
      · replace h := of_foldl (P := (·.Names u)) (fun _ _ => names_of_unlink) h
        exact names_of_erase rfl h
      · split
        · exact Work.sizes_retract _
        · exact .pure _

theorem sizes_refresh (hp : sizeOf p = some k) (expected : Bool) :
    Keeps (Uniform sizeOf g₀ Names k held) (refresh p expected) := by
  have settle {held : TupleId → Nat → Prop} (left : TupleId) :
      Keeps (Uniform sizeOf g₀ Names k held) (settle p expected left) := by
    have put {held : TupleId → Nat → Prop} {c : Counter} (hleft : held left k)
        (hc : ∀ o, c.output = some o → held o k) : Keeps (Uniform sizeOf g₀ Names k held)
          (modifyMemory fun m => { m with counters := m.counters.insert left c }) := by
      refine uniform_modifyMemory fun m u h => ?_
      rcases names_of_insert rfl h with h | rfl | h
      · exact .inl h
      · exact .inr hleft
      · exact .inr (hc u h)
    refine uniform_memory_bind fun m => ?_
    split
    · exact .pure _
    · next counter hcounter =>
      have hleft : Named Names k m left k := ⟨.inr (by rw [hcounter]; rfl), rfl⟩
      dsimp only
      split
      · refine (sizes_facts (.inl hleft)).bind_keeps fun facts hfacts => ?_
        exact sizes_create_bind (by rw [hp, hfacts]) fun o => put (.inr (.inl hleft))
          fun _ ho => .inl ⟨(Option.some.inj ho).symm, hfacts.symm⟩
      · exact .bind (put (.inl hleft) fun _ ho => by cases ho) fun _ => Work.sizes_retract _
      · exact .pure _
  exact uniform_memory_bind fun _ => .bind keeps_inHashOrder fun _ =>
    .bind (uniform_modifyMemory fun _ _ => .inl) fun _ => .forM settle _

end SemijoinMemory

theorem Network.sizes_signalSemijoin (joiners : List Joiner) (id : TupleId) {side : Side}
    (hid : side ≠ .right → held id k) (signal : Signal) :
    Keeps (Uniform sizeOf g₀ SemijoinMemory.Names k held) (signalSemijoin joiners id side signal) := by
  have left (hid : held id k) :
      Keeps (Uniform sizeOf g₀ SemijoinMemory.Names k held) (signalSemijoin joiners id .left signal) := by
    cases signal with
    | insert => exact SemijoinMemory.sizes_insertLeft joiners hid
    | update => exact SemijoinMemory.sizes_updateLeft joiners hid
    | retract => exact SemijoinMemory.sizes_retractLeft id
  cases side with
  | only =>
    have hleft := left (hid nofun)
    cases signal <;> exact hleft
  | left => exact left (hid nofun)
  | right =>
    cases signal with
    | insert => exact SemijoinMemory.sizes_insertRight joiners id
    | update =>
      exact .bind (SemijoinMemory.sizes_retractRight id) fun _ =>
        SemijoinMemory.sizes_insertRight joiners id
    | retract => exact SemijoinMemory.sizes_retractRight id

end ConstraintStreams
