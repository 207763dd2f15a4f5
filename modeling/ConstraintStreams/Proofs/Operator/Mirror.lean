import ConstraintStreams.Network.Basic
import ConstraintStreams.Proofs.Operator.Bench

/-!
# Maps and concatenations mirror their inputs

Both have one output for each input that they hold. The output of an input that is known as it is
carries the image of its facts: what the mapper makes of them, or just the facts.
-/

namespace ConstraintStreams

/-- There is one output for each input held, and that of a known input carries an image of its
facts. -/
structure Mirror {κ : Type} (inputOf : κ → Side × TupleId) (image : Facts → Facts → Prop) (v : View)
    (label : κ → Option TupleId) (out : TupleId → Option (Facts × Sources)) : Prop where
  listing : Listing label out
  held : ∀ {k}, (label k).isSome = true ↔ v.Held (inputOf k).1 (inputOf k).2
  image_of : ∀ {k facts sources told}, outputUnder label out k = some (facts, sources) →
    v.Known (inputOf k).1 (inputOf k).2 told → image told facts

namespace Mirror

variable {κ : Type} [DecidableEq κ] {inputOf : κ → Side × TupleId} {image : Facts → Facts → Prop}
  {v v' : View} {label label' : κ → Option TupleId} {out out' : TupleId → Option (Facts × Sources)}
  {k : κ} {o : TupleId} {facts told : Facts} {sources : Sources}

omit [DecidableEq κ] in
theorem fades (h : Mirror inputOf image v label out) (hv : View.Fades v v') :
    Mirror inputOf image v' label out where
  listing := h.listing
  held := h.held.trans hv.held.symm
  image_of ho hk := h.image_of ho (hv.known hk)

omit [DecidableEq κ] in
theorem of_none (hlabel : ∀ k, label k = none) (hout : ∀ o, out o = none)
    (hv : ∀ side input, v.told side input = none) : Mirror inputOf image v label out where
  listing := .of_none hlabel hout
  held := by simp [hlabel, View.Held, hv]
  image_of ho := by simp [outputUnder, hlabel] at ho

omit [DecidableEq κ] in
/-- Without inputs there are no outputs. -/
theorem blank (h : Mirror inputOf image v label out) (hv : ∀ side input, v.told side input = none) :
    (∀ k, label k = none) ∧ ∀ o, out o = none := by
  have hlabel : ∀ k, label k = none := fun k => by
    rw [← Option.not_isSome_iff_eq_none, h.held]
    simp [View.Held, hv]
  exact ⟨hlabel, h.listing.out_eq_none hlabel⟩

omit [DecidableEq κ] in
/-- The key of the input that a signal is about, and no other. -/
theorem eq_key_iff (hinj : Function.Injective inputOf) {x : κ} :
    (inputOf k).1 = (inputOf x).1 ∧ (inputOf k).2 = (inputOf x).2 ↔ k = x := by
  rw [← Prod.ext_iff]
  exact ⟨fun h => hinj h, fun h => h ▸ rfl⟩

theorem create (h : Mirror inputOf image v label out) (hinj : Function.Injective inputOf)
    (hnew : ¬ v.Held (inputOf k).1 (inputOf k).2) (himage : image told facts) (ho : out o = none)
    (hlabel : ∀ x, label' x = if k = x then some o else label x)
    (hout : ∀ x, out' x = if o = x then some (facts, sources) else out x) :
    Mirror inputOf image (v.tell (inputOf k).1 (inputOf k).2 told) label' out' := by
  have hk : label k = none := by
    rw [← Option.not_isSome_iff_eq_none]
    exact fun hs => hnew (h.held.1 hs)
  constructor
  · exact h.listing.create ho hk hlabel hout
  · intro x
    rw [hlabel, View.held_tell, eq_key_iff hinj]
    split
    · next he => simp [he]
    · next hne => simp [hne, h.held]
  · intro x f s tf hrow hknown
    rw [h.listing.outputUnder_create ho hlabel hout] at hrow
    split at hrow
    · next he =>
      subst he
      cases hrow
      rw [View.known_tell_self] at hknown
      exact hknown ▸ himage
    · next hne =>
      rw [View.known_tell_of_ne (mt (eq_key_iff hinj).1 hne)] at hknown
      exact h.image_of hrow hknown

theorem change (h : Mirror inputOf image v label out) (hinj : Function.Injective inputOf)
    (himage : image told facts) (hk : label k = some o)
    (hout : ∀ x, out' x = if o = x then some (facts, sources) else out x) :
    Mirror inputOf image (v.tell (inputOf k).1 (inputOf k).2 told) label out' := by
  have hheld : v.Held (inputOf k).1 (inputOf k).2 := h.held.1 (by simp [hk])
  constructor
  · exact h.listing.change hk hout
  · intro x
    rw [View.held_tell, eq_key_iff hinj, h.held]
    exact ⟨.inr, fun hx => hx.elim (fun he => he ▸ hheld) id⟩
  · intro x f s tf hrow hknown
    rw [h.listing.outputUnder_change hk hout] at hrow
    split at hrow
    · next he =>
      subst he
      cases hrow
      rw [View.known_tell_self] at hknown
      exact hknown ▸ himage
    · next hne =>
      rw [View.known_tell_of_ne (mt (eq_key_iff hinj).1 hne)] at hknown
      exact h.image_of hrow hknown

theorem erase (h : Mirror inputOf image v label out) (hinj : Function.Injective inputOf)
    (hk : label k = some o) (hlabel : ∀ x, label' x = if k = x then none else label x)
    (hout : ∀ x, out' x = if o = x then none else out x) :
    Mirror inputOf image (v.drop (inputOf k).1 (inputOf k).2) label' out' := by
  constructor
  · exact h.listing.erase hk hlabel hout
  · intro x
    rw [hlabel, View.held_drop, eq_key_iff hinj]
    split
    · next he => simp [he]
    · next hne => simp [hne, h.held]
  · intro x f s tf hrow hknown
    rw [h.listing.outputUnder_erase hk hlabel hout] at hrow
    split at hrow
    · cases hrow
    · exact h.image_of hrow (View.known_drop.1 hknown).2

end Mirror

/-! ## Maps -/

namespace MapMemory

/-- The facts are what the mapper makes of others, with entities numbered. -/
def IsImage (mapper : Facts → Except Error Facts) (input facts : Facts) : Prop :=
  ∃ image n, mapper input = .ok image ∧ facts = (Fact.numberItemsFrom n image).1

/-- What holds of the memory of a map between signals. -/
def Valid (mapper : Facts → Except Error Facts) (v : View)
    (out : TupleId → Option (Facts × Sources)) (m : MapMemory) : Prop :=
  Mirror (fun input => (Side.only, input)) (IsImage mapper) v m.outputs.get? out

variable {E : Error → Prop} {node : NodeId} {away : List TupleId} {g₀ : Agenda}
  {m : MapMemory} {g : Agenda} {v : View} {mapper : Facts → Except Error Facts} {arity : Nat}
  {input : TupleId} {t : Tuple}

theorem image_spec (hb : Bench node away g₀ g) (ht : g₀.find? input = some t)
    (hne : t.node ≠ node) (harity : ∀ m n, E (.invalidArity m n))
    (hmapper : ∀ facts e, mapper facts = .error e → E e) {Q : Facts → Workbench MapMemory → Prop}
    (hQ : ∀ facts g', IsImage mapper t.facts facts → Bench node away g₀ g' →
      (∀ x, g'.openAt node x = g.openAt node x) → Q facts ⟨m, g'⟩) :
    Action.Ensures E (image arity mapper input) ⟨m, g⟩ Q := by
  unfold image
  rw [Action.ensures_bind, hb.ensures_inputFacts ht hne, Action.ensures_bind, Action.ensures_lift]
  refine ⟨fun facts hfacts => ?_, hmapper t.facts⟩
  split
  · exact harity _ _
  · exact hb.number fun n g' hb' hopen => hQ _ g' ⟨facts, n, hfacts, rfl⟩ hb' hopen

/-- On each signal, a map brings the output of the input up to date. -/
theorem signal_spec (hb : Bench node away g₀ g)
    (hv : Valid mapper v (g.openAt node) m) {signal : Signal}
    (hexpects : v.Expects signal .only input) (ht : g₀.find? input = some t) (hne : t.node ≠ node)
    (hlimit : ∀ limit details, E (.resourceLimit limit details))
    (harity : ∀ m n, E (.invalidArity m n)) (hmapper : ∀ facts e, mapper facts = .error e → E e) :
    Action.Ensures E (Network.signalMap node arity mapper input signal) ⟨m, g⟩ fun _ w' =>
      Bench node away g₀ w'.agenda ∧
        Valid mapper (v.after signal .only input t.facts) (w'.agenda.openAt node) w'.memory := by
  have hinj : Function.Injective fun input : TupleId => (Side.only, input) := fun _ _ h =>
    (Prod.ext_iff.1 h).2
  cases signal with
  | insert =>
    have hnew : ¬ v.Held .only input := fun h => hexpects.1 h rfl
    show Action.Ensures E (insert node arity mapper input) ⟨m, g⟩ _
    unfold insert
    rw [Action.ensures_bind]
    refine image_spec hb ht hne harity hmapper fun facts g' himage hb' hsame => ?_
    rw [Action.ensures_bind]
    refine hb'.create hlimit fun output g'' hb'' hnone hout => ?_
    simp only [hsame] at hout
    exact ⟨hb'', hv.create hinj hnew himage (by rw [← hsame, Agenda.openAt_of_none node hnone])
      (m.outputs.get?_insert input · output) hout⟩
  | update =>
    have hheld : v.Held .only input := hexpects.2 (by simp)
    obtain ⟨output, hlisted⟩ := Option.isSome_iff_exists.1 (hv.held.2 hheld)
    obtain ⟨⟨old, sources⟩, hopen⟩ := hv.listing.opened hlisted
    show Action.Ensures E (update arity mapper input) ⟨m, g⟩ _
    unfold update
    rw [Action.ensures_bind, Bench.ensures_memory]
    simp only [hlisted, Action.ensures_bind]
    refine image_spec hb ht hne harity hmapper fun facts g' himage hb' hsame => ?_
    refine hb'.refreshIfChanged (by rw [hsame, hopen]) fun g'' hb'' hout => ?_
    simp only [hsame] at hout
    exact ⟨hb'', hv.change hinj himage hlisted hout⟩
  | retract =>
    have hheld : v.Held .only input := hexpects.2 (by simp)
    obtain ⟨output, hlisted⟩ := Option.isSome_iff_exists.1 (hv.held.2 hheld)
    obtain ⟨⟨old, sources⟩, hopen⟩ := hv.listing.opened hlisted
    show Action.Ensures E (retract input) ⟨m, g⟩ _
    unfold retract
    rw [Action.ensures_bind, Bench.ensures_memory]
    simp only [hlisted, Action.ensures_bind, Bench.ensures_setMemory]
    refine hb.retract hopen fun g' hb' hout => ?_
    exact ⟨hb', hv.erase hinj hlisted (m.outputs.get?_erase input ·) hout⟩

end MapMemory

/-! ## Concatenations -/

namespace ConcatMemory

/-- What holds of the memory of a concatenation between signals. -/
def Valid (v : View) (out : TupleId → Option (Facts × Sources)) (m : ConcatMemory) : Prop :=
  Mirror id (fun told facts => facts = told) v m.outputs.get? out

variable {E : Error → Prop} {node : NodeId} {away : List TupleId} {g₀ : Agenda}
  {m : ConcatMemory} {g : Agenda} {v : View} {side : Side} {input : TupleId} {t : Tuple}

/-- On each signal, a concatenation brings the output of the input up to date. -/
theorem signal_spec (hb : Bench node away g₀ g)
    (hv : Valid v (g.openAt node) m) {signal : Signal}
    (hexpects : v.Expects signal side input) (ht : g₀.find? input = some t) (hne : t.node ≠ node)
    (hlimit : ∀ limit details, E (.resourceLimit limit details)) :
    Action.Ensures E (Network.signalConcat node side input signal) ⟨m, g⟩ fun _ w' =>
      Bench node away g₀ w'.agenda ∧
        Valid (v.after signal side input t.facts) (w'.agenda.openAt node) w'.memory := by
  have hinj : Function.Injective (id : Side × TupleId → Side × TupleId) := fun _ _ h => h
  cases signal with
  | insert =>
    have hnew : ¬ v.Held side input := fun h => hexpects.1 h rfl
    show Action.Ensures E (insert node side input) ⟨m, g⟩ _
    unfold insert
    rw [Action.ensures_bind, hb.ensures_inputFacts ht hne, Action.ensures_bind]
    refine hb.create hlimit fun output g' hb' hnone hout => ?_
    exact ⟨hb', hv.create (k := (side, input)) hinj hnew rfl (Agenda.openAt_of_none node hnone)
      (m.outputs.get?_insert (side, input) · output) hout⟩
  | update =>
    have hheld : v.Held side input := hexpects.2 (by simp)
    obtain ⟨output, hlisted⟩ := Option.isSome_iff_exists.1
      ((hv.held (k := (side, input))).2 hheld)
    obtain ⟨⟨old, sources⟩, hopen⟩ := hv.listing.opened hlisted
    show Action.Ensures E (update side input) ⟨m, g⟩ _
    unfold update
    rw [Action.ensures_bind, Bench.ensures_memory]
    simp only [hlisted, Action.ensures_bind]
    rw [hb.ensures_inputFacts ht hne]
    exact hb.refreshTuple hopen fun g' hb' hout => ⟨hb', hv.change hinj rfl hlisted hout⟩
  | retract =>
    have hheld : v.Held side input := hexpects.2 (by simp)
    obtain ⟨output, hlisted⟩ := Option.isSome_iff_exists.1
      ((hv.held (k := (side, input))).2 hheld)
    obtain ⟨⟨old, sources⟩, hopen⟩ := hv.listing.opened hlisted
    show Action.Ensures E (retract side input) ⟨m, g⟩ _
    unfold retract
    rw [Action.ensures_bind, Bench.ensures_memory]
    simp only [hlisted, Action.ensures_bind, Bench.ensures_setMemory]
    refine hb.retract hopen fun g' hb' hout => ?_
    exact ⟨hb', hv.erase hinj hlisted (m.outputs.get?_erase (side, input) ·) hout⟩

end ConcatMemory

end ConstraintStreams
