import ConstraintStreams.Operator.Workbench
import ConstraintStreams.Proofs.Table
import ConstraintStreams.Proofs.Tuple.Agenda

/-!
# An operator at its bench

What an operator may rely on while it acts on a signal, and what others may rely on afterwards. A
`View` is what a node was told about its inputs. `Bench` holds at every step of the work of a node:
the agenda is sound and has only changed in tuples of that node. The rules for the actions of an
operator say how they change the open tuples of the node.
-/

namespace ConstraintStreams

/-- What a node was told about the tuples of its parents. -/
structure View where
  /-- The facts that an input had when the node was last told about it. -/
  told : Side → TupleId → Option Facts
  /-- The input has not changed since. -/
  fresh : Side → TupleId → Prop
  /-- The node was told something about the input in the current flush. -/
  recent : Side → TupleId → Prop

namespace View

/-- The node knows of the input. -/
def Held (v : View) (side : Side) (input : TupleId) : Prop := (v.told side input).isSome = true

/-- The node knows the input as it is now. -/
def Known (v : View) (side : Side) (input : TupleId) (facts : Facts) : Prop :=
  v.fresh side input ∧ v.told side input = some facts

/-- The view after the node was told of a new input, or of a change of one. -/
def tell (v : View) (side : Side) (input : TupleId) (facts : Facts) : View where
  told s x := if side = s ∧ input = x then some facts else v.told s x
  fresh s x := side = s ∧ input = x ∨ v.fresh s x
  recent s x := side = s ∧ input = x ∨ v.recent s x

/-- The view after the node was told that an input is withdrawn. -/
def drop (v : View) (side : Side) (input : TupleId) : View where
  told s x := if side = s ∧ input = x then none else v.told s x
  fresh s x := ¬ (side = s ∧ input = x) ∧ v.fresh s x
  recent s x := side = s ∧ input = x ∨ v.recent s x

/-- Being told anew of an input that was withdrawn is being told of its change. -/
theorem tell_drop (v : View) (side : Side) (input : TupleId) (facts : Facts) :
    (v.drop side input).tell side input facts = v.tell side input facts := by
  unfold tell drop
  congr 1
  all_goals
    funext s x
    by_cases h : side = s ∧ input = x <;> simp [h]

/-- The view after a signal about an input with the given facts. -/
def after (v : View) (signal : Signal) (side : Side) (input : TupleId) (facts : Facts) : View :=
  match signal with
  | .insert | .update => v.tell side input facts
  | .retract => v.drop side input

/-- A node is told to take in what it does not know, and told about changes of what it knows. -/
def Expects (v : View) (signal : Signal) (side : Side) (input : TupleId) : Prop :=
  v.Held side input ↔ signal ≠ .insert

/-- The same view, in which fewer inputs are known to be unchanged. -/
structure Fades (v v' : View) : Prop where
  told : v'.told = v.told
  fresh : ∀ {side input}, v'.fresh side input → v.fresh side input

theorem Fades.held {v v' : View} (h : Fades v v') {side : Side} {input : TupleId} :
    v'.Held side input ↔ v.Held side input := by
  unfold Held; rw [h.told]

theorem Fades.known {v v' : View} (h : Fades v v') {side : Side} {input : TupleId} {facts : Facts}
    (hk : v'.Known side input facts) : v.Known side input facts :=
  ⟨h.fresh hk.1, h.told ▸ hk.2⟩

theorem Known.held {v : View} {side : Side} {input : TupleId} {facts : Facts}
    (h : v.Known side input facts) : v.Held side input := by
  simp [Held, h.2]

@[simp] theorem held_tell {v : View} {side s : Side} {input x : TupleId} {facts : Facts} :
    (v.tell side input facts).Held s x ↔ side = s ∧ input = x ∨ v.Held s x := by
  unfold Held tell
  by_cases h : side = s ∧ input = x <;> simp [h]

@[simp] theorem held_drop {v : View} {side s : Side} {input x : TupleId} :
    (v.drop side input).Held s x ↔ ¬ (side = s ∧ input = x) ∧ v.Held s x := by
  unfold Held drop
  by_cases h : side = s ∧ input = x <;> simp [h]

theorem known_tell_self {v : View} {side : Side} {input : TupleId} {facts f : Facts} :
    (v.tell side input facts).Known side input f ↔ facts = f := by
  simp [Known, tell]

theorem known_tell_of_ne {v : View} {side s : Side} {input x : TupleId} {facts f : Facts}
    (h : ¬ (side = s ∧ input = x)) : (v.tell side input facts).Known s x f ↔ v.Known s x f := by
  simp only [Known, tell, h, false_or, if_false]

theorem known_drop {v : View} {side s : Side} {input x : TupleId} {f : Facts} :
    (v.drop side input).Known s x f ↔ ¬ (side = s ∧ input = x) ∧ v.Known s x f := by
  unfold Known drop
  by_cases h : side = s ∧ input = x <;> simp [h]

/-- The keys of a table are the inputs held on a side. -/
def Lists {α : Type} (v : View) (side : Side) (table : Table TupleId α) : Prop :=
  ∀ input, (table.get? input).isSome = true ↔ v.Held side input

namespace Lists

variable {α : Type} {v v' : View} {side : Side} {table : Table TupleId α} {input : TupleId}

theorem fades (h : v.Lists side table) (hv : Fades v v') : v'.Lists side table :=
  fun input => (h input).trans hv.held.symm

theorem empty (hv : ∀ side input, v.told side input = none) : v.Lists side (∅ : Table TupleId α) := by
  simp [Lists, Held, hv, EmptyCollection.emptyCollection]

theorem eq_empty (h : v.Lists side table) (hv : ∀ side input, v.told side input = none) :
    table = ∅ := by
  refine Table.eq_empty fun input => ?_
  rw [← Option.not_isSome_iff_eq_none, h input]
  simp [Held, hv]

theorem get?_none (h : v.Lists side table) (hnew : ¬ v.Held side input) :
    table.get? input = none := by
  rw [← Option.not_isSome_iff_eq_none]
  exact fun hs => hnew ((h input).1 hs)

theorem get?_some (h : v.Lists side table) (hheld : v.Held side input) :
    ∃ a, table.get? input = some a :=
  Option.isSome_iff_exists.1 ((h input).2 hheld)

theorem insert (h : v.Lists side table) (facts : Facts) (a : α) :
    (v.tell side input facts).Lists side (table.insert input a) := by
  intro x
  rw [Table.get?_insert, held_tell, ← h]
  split
  · next he => simp [he]
  · next hne => simp [hne]

theorem erase (h : v.Lists side table) : (v.drop side input).Lists side (table.erase input) := by
  intro x
  rw [Table.get?_erase, held_drop, ← h]
  split
  · next he => simp [he]
  · next hne => simp [hne]

/-- A change of an input that is held leaves the inputs held. -/
theorem tell (h : v.Lists side table) (hheld : v.Held side input) (facts : Facts) :
    (v.tell side input facts).Lists side table := by
  intro x
  rw [held_tell, h]
  exact ⟨.inr, fun hx => hx.elim (fun he => he.2 ▸ hheld) id⟩

/-- What is told of one side is nothing to the other. -/
theorem tell_across {s : Side} (h : v.Lists side table) (hne : s ≠ side) (facts : Facts) :
    (v.tell s input facts).Lists side table := by
  intro x
  rw [held_tell, h]
  simp [hne]

theorem drop_across {s : Side} (h : v.Lists side table) (hne : s ≠ side) :
    (v.drop s input).Lists side table := by
  intro x
  rw [held_drop, h]
  simp [hne]

end Lists

/-- What a table has for an input follows from the facts of the input. -/
def Follows {α : Type} (v : View) (side : Side) (R : Facts → α → Prop) (table : Table TupleId α) :
    Prop :=
  ∀ ⦃input facts a⦄, v.Known side input facts → table.get? input = some a → R facts a

namespace Follows

variable {α : Type} {v : View} {side s : Side} {table : Table TupleId α} {R : Facts → α → Prop}
  {input : TupleId} {facts : Facts} {a : α}

theorem insert (h : v.Follows side R table) (hR : R facts a) :
    (v.tell side input facts).Follows side R (table.insert input a) := by
  intro x f b hk hx
  rw [Table.get?_insert] at hx
  split at hx
  · next he =>
    subst he
    cases hx
    exact known_tell_self.1 hk ▸ hR
  · next hne =>
    rw [known_tell_of_ne fun he => hne he.2] at hk
    exact h hk hx

theorem erase (h : v.Follows side R table) :
    (v.drop side input).Follows side R (table.erase input) := by
  intro x f b hk hx
  rw [Table.get?_erase] at hx
  split at hx
  · cases hx
  · exact h (known_drop.1 hk).2 hx

/-- An input may change as long as what the table has for it follows from the new facts too. -/
theorem tell (h : v.Follows side R table) (hold : table.get? input = some a) (hR : R facts a) :
    (v.tell side input facts).Follows side R table := by
  intro x f b hk hx
  by_cases he : input = x
  · subst he
    rw [hold] at hx
    cases hx
    exact known_tell_self.1 hk ▸ hR
  · rw [known_tell_of_ne fun h => he h.2] at hk
    exact h hk hx

theorem tell_across (h : v.Follows side R table) (hne : s ≠ side) (facts : Facts) :
    (v.tell s input facts).Follows side R table :=
  fun _ _ _ hk => h ((known_tell_of_ne fun he => hne he.1).1 hk)

theorem drop (h : v.Follows side R table) : (v.drop s input).Follows side R table :=
  fun _ _ _ hk => h (known_drop.1 hk).2

end Follows

end View

/-- The inputs that a node was told about are live tuples of other nodes, and a fresh one has the
facts it was told to have. -/
def Agenda.Feeds (g : Agenda) (node : NodeId) (v : View) : Prop :=
  ∀ {side input facts}, v.told side input = some facts →
    ∃ t, g.find? input = some t ∧ t.node ≠ node ∧ (v.fresh side input → t.facts = facts)

namespace Agenda.Feeds

variable {g : Agenda} {node : NodeId} {v : View} {side : Side} {input : TupleId} {t : Tuple}

theorem tell (h : g.Feeds node v) (ht : g.find? input = some t) (hne : t.node ≠ node) :
    g.Feeds node (v.tell side input t.facts) := by
  intro s x facts hx
  simp only [View.tell] at hx ⊢
  split at hx
  · next he =>
    obtain ⟨-, rfl⟩ := he
    cases hx
    exact ⟨t, ht, hne, fun _ => rfl⟩
  · next he =>
    obtain ⟨u, hu, hune, hfresh⟩ := h hx
    exact ⟨u, hu, hune, fun hf => hfresh (hf.resolve_left he)⟩

theorem drop (h : g.Feeds node v) : g.Feeds node (v.drop side input) := by
  intro s x facts hx
  simp only [View.drop] at hx ⊢
  split at hx
  · cases hx
  · obtain ⟨u, hu, hune, hfresh⟩ := h hx
    exact ⟨u, hu, hune, fun hf => hfresh hf.2⟩

end Agenda.Feeds

/-- The work of a node that found the agenda `g₀`: the agenda is sound, and only tuples of the node
have changed. -/
structure Bench (node : NodeId) (away : List TupleId) (g₀ g : Agenda) : Prop where
  sound : g.Sound away
  evolves : Agenda.Evolves node g₀ g
  registered : ∃ queue, g.queues.get? node = some queue

namespace Bench

variable {μ α : Type} {E : Error → Prop} {node : NodeId} {away : List TupleId} {g₀ : Agenda}
  {m : μ} {g : Agenda} {facts old : Facts} {sources : Sources} {id : TupleId}

theorem start (h : g.Sound away) (hreg : ∃ queue, g.queues.get? node = some queue) :
    Bench node away g g :=
  ⟨h, .refl _ g, hreg⟩

theorem step {g' : Agenda} (h : Bench node away g₀ g) (hs : g'.Sound away)
    (he : Agenda.Evolves node g g') : Bench node away g₀ g' := by
  refine ⟨hs, h.evolves.trans he, ?_⟩
  obtain ⟨queue, hq⟩ := h.registered
  have := he.registered node
  rw [hq] at this
  exact Option.isSome_iff_exists.1 this

/-- A name that is free was free when the work began. -/
theorem find?_none {g : Agenda} (h : Bench node away g₀ g) (hnone : g.find? id = none) :
    g₀.find? id = none := by
  rw [Option.eq_none_iff_forall_not_mem]
  intro t ht
  obtain ⟨t', ht', -⟩ := h.evolves.old ht
  rw [hnone] at ht'
  cases ht'

/-- Work on the agenda alone leaves the memory as it is. -/
theorem ensures_onAgenda {x : Action Agenda α} {Q : α → Workbench μ → Prop} :
    Action.Ensures E (liftM x) ⟨m, g⟩ Q ↔
      Action.Ensures E x g fun a g' => Q a ⟨m, g'⟩ :=
  Action.ensures_within

@[simp] theorem ensures_memory {Q : μ → Workbench μ → Prop} :
    Action.Ensures E Work.memory ⟨m, g⟩ Q ↔ Q m ⟨m, g⟩ := Iff.rfl

@[simp] theorem ensures_setMemory {m' : μ} {Q : Unit → Workbench μ → Prop} :
    Action.Ensures E (Work.setMemory m') ⟨m, g⟩ Q ↔ Q () ⟨m', g⟩ := Iff.rfl

@[simp] theorem ensures_modifyMemory {f : μ → μ} {Q : Unit → Workbench μ → Prop} :
    Action.Ensures E (Work.modifyMemory f) ⟨m, g⟩ Q ↔ Q () ⟨f m, g⟩ := Iff.rfl

/-- Items come in some order, each as often as it is there. -/
theorem ensures_inHashOrder {κ : Type} {order : HashOrder → Arrangement κ} {items : List κ}
    {Q : List κ → Workbench μ → Prop} (h : ∀ items', items'.Perm items → Q items' ⟨m, g⟩) :
    Action.Ensures E (Work.inHashOrder order items) ⟨m, g⟩ Q :=
  h _ ((order g.hashOrder).perm items)

/-- Reading the facts of a live tuple. -/
theorem ensures_facts {t : Tuple} (ht : g.find? id = some t)
    {Q : Facts → Workbench μ → Prop} : Action.Ensures E (Work.facts id) ⟨m, g⟩ Q ↔ Q t.facts ⟨m, g⟩ := by
  unfold Work.facts
  simp only [Action.ensures_bind, Action.ensures_get,
    Action.ensures_lift_of_ok (Agenda.facts_eq ht)]

theorem ensures_sources {t : Tuple} (ht : g.find? id = some t)
    {Q : Sources → Workbench μ → Prop} :
    Action.Ensures E (Work.sources id) ⟨m, g⟩ Q ↔ Q t.sources ⟨m, g⟩ := by
  unfold Work.sources
  simp only [Action.ensures_bind, Action.ensures_get,
    Action.ensures_lift_of_ok (Agenda.sources_eq ht)]

/-- The facts of an input are those it had when the work began. -/
theorem ensures_inputFacts {t : Tuple} (h : Bench node away g₀ g)
    (ht : g₀.find? id = some t) (hne : t.node ≠ node) {Q : Facts → Workbench μ → Prop} :
    Action.Ensures E (Work.facts id) ⟨m, g⟩ Q ↔ Q t.facts ⟨m, g⟩ :=
  ensures_facts (h.evolves.other ht hne)

theorem ensures_openFacts (hopen : g.openAt node id = some (facts, sources))
    {Q : Facts → Workbench μ → Prop} : Action.Ensures E (Work.facts id) ⟨m, g⟩ Q ↔ Q facts ⟨m, g⟩ := by
  obtain ⟨t, ht, -, -, rfl, -⟩ := Agenda.openAt_eq_some_iff.1 hopen
  exact ensures_facts ht

theorem ensures_openSources (hopen : g.openAt node id = some (facts, sources))
    {Q : Sources → Workbench μ → Prop} :
    Action.Ensures E (Work.sources id) ⟨m, g⟩ Q ↔ Q sources ⟨m, g⟩ := by
  obtain ⟨t, ht, -, -, -, rfl⟩ := Agenda.openAt_eq_some_iff.1 hopen
  exact ensures_sources ht

/-- Making an output. -/
theorem create (h : Bench node away g₀ g)
    (hlimit : ∀ limit details, E (.resourceLimit limit details))
    {Q : TupleId → Workbench μ → Prop}
    (hQ : ∀ id g', Bench node away g₀ g' → g.find? id = none →
      (∀ x, g'.openAt node x = if id = x then some (facts, sources) else g.openAt node x) →
      Q id ⟨m, g'⟩) :
    Action.Ensures E (liftM (Agenda.create node facts sources)) ⟨m, g⟩ Q := by
  rw [ensures_onAgenda]
  refine (Agenda.create_spec facts sources h.sound hlimit h.registered).mono ?_
  rintro id g' ⟨hs, he, hnew, hfind⟩
  exact hQ id g' (h.step hs he) hnew (Agenda.openAt_create hfind)

/-- Giving an output new facts. -/
theorem refreshTuple (h : Bench node away g₀ g)
    (hopen : g.openAt node id = some (old, sources)) {Q : Unit → Workbench μ → Prop}
    (hQ : ∀ g', Bench node away g₀ g' →
      (∀ x, g'.openAt node x = if id = x then some (facts, sources) else g.openAt node x) →
      Q () ⟨m, g'⟩) :
    Action.Ensures E (Work.refreshTuple id facts) ⟨m, g⟩ Q := by
  have hchange := Agenda.ensures_change (E := E) h.sound hopen facts
  rw [Action.ensures_bind] at hchange
  unfold Work.refreshTuple
  rw [Action.ensures_bind, ensures_onAgenda]
  refine hchange.mono fun _ g' hupdate => ?_
  rw [ensures_onAgenda]
  exact hupdate.mono fun _ g'' ⟨hs, he, hout⟩ => hQ g'' (h.step hs he) hout

/-- Giving an output new facts unless it has them. -/
theorem refreshIfChanged (h : Bench node away g₀ g)
    (hopen : g.openAt node id = some (old, sources)) {Q : Unit → Workbench μ → Prop}
    (hQ : ∀ g', Bench node away g₀ g' →
      (∀ x, g'.openAt node x = if id = x then some (facts, sources) else g.openAt node x) →
      Q () ⟨m, g'⟩) :
    Action.Ensures E (Work.refreshIfChanged id facts) ⟨m, g⟩ Q := by
  unfold Work.refreshIfChanged
  rw [Action.ensures_bind, ensures_openFacts hopen]
  split
  · exact refreshTuple h hopen hQ
  · next heq =>
    refine hQ g h fun x => ?_
    split
    · next he => rw [← he, hopen, Decidable.not_not.1 heq]
    · rfl

/-- Withdrawing an output. -/
theorem retract (h : Bench node away g₀ g)
    (hopen : g.openAt node id = some (old, sources)) {Q : Unit → Workbench μ → Prop}
    (hQ : ∀ g', Bench node away g₀ g' →
      (∀ x, g'.openAt node x = if id = x then none else g.openAt node x) →
      Q () ⟨m, g'⟩) :
    Action.Ensures E (liftM (Agenda.retract id)) ⟨m, g⟩ Q := by
  rw [ensures_onAgenda]
  exact (Agenda.ensures_retract h.sound hopen).mono fun _ g' ⟨hs, he, hout⟩ =>
    hQ g' (h.step hs he) hout

/-- Numbering touches no tuple. -/
theorem number (h : Bench node away g₀ g) {Q : Facts → Workbench μ → Prop}
    (hQ : ∀ n g', Bench node away g₀ g' → (∀ x, g'.openAt node x = g.openAt node x) →
      Q (Fact.numberItemsFrom n facts).1 ⟨m, g'⟩) :
    Action.Ensures E (liftM (Agenda.number facts)) ⟨m, g⟩ Q := by
  rw [ensures_onAgenda]
  unfold Agenda.number
  rw [Action.ensures_modifyGet]
  refine hQ g.nextVersion _ ⟨?_, ?_, h.registered⟩ fun x => rfl
  · exact { h.sound with store := h.sound.store }
  · exact { h.evolves with limits := h.evolves.limits }

end Bench

/-! ## Outputs and the keys they are listed under -/

/-- An operator lists every open output under one key, and lists nothing else. -/
structure Listing {κ : Type} (label : κ → Option TupleId)
    (out : TupleId → Option (Facts × Sources)) : Prop where
  opened : ∀ {k o}, label k = some o → ∃ e, out o = some e
  owned : ∀ {o e}, out o = some e → ∃ k, label k = some o
  inj : ∀ {k k' o}, label k = some o → label k' = some o → k = k'

/-- The output that is listed under a key. -/
def outputUnder {κ : Type} (label : κ → Option TupleId) (out : TupleId → Option (Facts × Sources))
    (k : κ) : Option (Facts × Sources) :=
  (label k).bind out

namespace Listing

variable {κ : Type} {label label' : κ → Option TupleId}
  {out out' : TupleId → Option (Facts × Sources)} {k : κ} {o : TupleId} {e : Facts × Sources}

theorem of_none (hlabel : ∀ k, label k = none) (hout : ∀ o, out o = none) : Listing label out where
  opened h := by rw [hlabel] at h; cases h
  owned h := by rw [hout] at h; cases h
  inj h := by rw [hlabel] at h; cases h

/-- Where nothing is listed, nothing is open. -/
theorem out_eq_none (h : Listing label out) (hlabel : ∀ k, label k = none) (o : TupleId) :
    out o = none := by
  cases ho : out o with
  | none => rfl
  | some e =>
    obtain ⟨k, hk⟩ := h.owned ho
    rw [hlabel] at hk
    cases hk

/-- Something is listed under a key exactly if there is an output under it. -/
theorem isSome_outputUnder (h : Listing label out) :
    (outputUnder label out k).isSome = (label k).isSome := by
  unfold outputUnder
  cases hk : label k with
  | none => rfl
  | some o =>
    obtain ⟨e, he⟩ := h.opened hk
    simp [he]

theorem change (h : Listing label out) (hk : label k = some o)
    (hout : ∀ x, out' x = if o = x then some e else out x) : Listing label out' := by
  constructor
  · intro x y hx
    rw [hout]
    split
    · exact ⟨e, rfl⟩
    · exact h.opened hx
  · intro y f hy
    rw [hout] at hy
    split at hy
    · next he => exact ⟨k, he ▸ hk⟩
    · exact h.owned hy
  · exact h.inj

variable [DecidableEq κ]

theorem create (h : Listing label out) (ho : out o = none) (hk : label k = none)
    (hlabel : ∀ x, label' x = if k = x then some o else label x)
    (hout : ∀ x, out' x = if o = x then some e else out x) : Listing label' out' := by
  have fresh : ∀ {x}, label x ≠ some o := fun hx => by
    obtain ⟨_, he⟩ := h.opened hx
    rw [ho] at he
    cases he
  constructor
  · intro x y hx
    rw [hlabel] at hx
    rw [hout]
    split at hx
    · cases hx; exact ⟨e, if_pos rfl⟩
    · have hne : o ≠ y := fun he => fresh (he ▸ hx)
      rw [if_neg hne]
      exact h.opened hx
  · intro y f hy
    rw [hout] at hy
    split at hy
    · next he => subst he; exact ⟨k, (hlabel k).trans (if_pos rfl)⟩
    · obtain ⟨x, hx⟩ := h.owned hy
      have hne : k ≠ x := fun he => by rw [← he, hk] at hx; cases hx
      exact ⟨x, by rw [hlabel, if_neg hne, hx]⟩
  · intro x x' y hx hx'
    rw [hlabel] at hx hx'
    split at hx <;> split at hx'
    · next he he' => exact he.symm.trans he'
    · cases hx; exact absurd hx' fresh
    · cases hx'; exact absurd hx fresh
    · exact h.inj hx hx'

theorem outputUnder_create (h : Listing label out) (ho : out o = none)
    (hlabel : ∀ x, label' x = if k = x then some o else label x)
    (hout : ∀ x, out' x = if o = x then some e else out x) (x : κ) :
    outputUnder label' out' x = if k = x then some e else outputUnder label out x := by
  unfold outputUnder
  rw [hlabel]
  split
  · simp [hout]
  · cases hx : label x with
    | none => rfl
    | some y =>
      have hne : o ≠ y := fun he => by
        obtain ⟨_, hy⟩ := h.opened hx
        rw [← he, ho] at hy
        cases hy
      simp [hout, hne]

theorem outputUnder_change (h : Listing label out) (hk : label k = some o)
    (hout : ∀ x, out' x = if o = x then some e else out x) (x : κ) :
    outputUnder label out' x = if k = x then some e else outputUnder label out x := by
  unfold outputUnder
  by_cases hx : k = x
  · subst hx
    simp [hk, hout]
  · rw [if_neg hx]
    cases hy : label x with
    | none => rfl
    | some y =>
      have hne : o ≠ y := fun he => hx (h.inj hk (he ▸ hy))
      simp [hout, hne]

theorem erase (h : Listing label out) (hk : label k = some o)
    (hlabel : ∀ x, label' x = if k = x then none else label x)
    (hout : ∀ x, out' x = if o = x then none else out x) : Listing label' out' := by
  constructor
  · intro x y hx
    rw [hlabel] at hx
    split at hx
    · cases hx
    · next hne =>
      have : o ≠ y := fun he => hne (h.inj hk (he ▸ hx))
      rw [hout, if_neg this]
      exact h.opened hx
  · intro y f hy
    rw [hout] at hy
    split at hy
    · cases hy
    · next hne =>
      obtain ⟨x, hx⟩ := h.owned hy
      have : k ≠ x := fun he => by
        rw [← he, hk] at hx
        exact hne (Option.some.inj hx)
      exact ⟨x, by rw [hlabel, if_neg this, hx]⟩
  · intro x x' y hx hx'
    rw [hlabel] at hx hx'
    split at hx
    · cases hx
    · split at hx'
      · cases hx'
      · exact h.inj hx hx'

theorem outputUnder_erase (h : Listing label out) (hk : label k = some o)
    (hlabel : ∀ x, label' x = if k = x then none else label x)
    (hout : ∀ x, out' x = if o = x then none else out x) (x : κ) :
    outputUnder label' out' x = if k = x then none else outputUnder label out x := by
  unfold outputUnder
  rw [hlabel]
  split
  · rfl
  · next hne =>
    cases hy : label x with
    | none => rfl
    | some y =>
      have : o ≠ y := fun he => hne (h.inj hk (he ▸ hy))
      simp [hout, this]

/-- Taking a key away changes nothing where nothing is listed under it. -/
theorem eq_of_clear (hk : label k = none) (hlabel : ∀ x, label' x = if k = x then none else label x)
    (hout : ∀ o, out' o = if label k = some o then none else out o) :
    label' = label ∧ out' = out := by
  constructor
  · funext x
    rw [hlabel]
    split
    · next he => rw [← he, hk]
    · rfl
  · funext o
    simp [hout, hk]

/-- A key is taken away, with its output if one is listed under it. -/
theorem clear (h : Listing label out) (hlabel : ∀ x, label' x = if k = x then none else label x)
    (hout : ∀ o, out' o = if label k = some o then none else out o) : Listing label' out' := by
  cases hk : label k with
  | some o => exact h.erase hk hlabel fun x => by simp only [hout, hk, Option.some.injEq]
  | none =>
    obtain ⟨rfl, rfl⟩ := eq_of_clear hk hlabel hout
    exact h

theorem outputUnder_clear (h : Listing label out)
    (hlabel : ∀ x, label' x = if k = x then none else label x)
    (hout : ∀ o, out' o = if label k = some o then none else out o) (x : κ) :
    outputUnder label' out' x = if k = x then none else outputUnder label out x := by
  cases hk : label k with
  | some o => exact h.outputUnder_erase hk hlabel (fun x => by simp only [hout, hk, Option.some.injEq]) x
  | none =>
    obtain ⟨rfl, rfl⟩ := eq_of_clear hk hlabel hout
    split
    · next he => rw [← he, outputUnder, hk]; rfl
    · rfl

end Listing

end ConstraintStreams
