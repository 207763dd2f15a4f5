import ConstraintStreams.Proofs.Tuple.Continuity
import ConstraintStreams.Proofs.Tuple.Drain

/-!
# What is asked of the agenda

Between two turns of a node, sessions and operators ask the agenda to make, to change and to withdraw
tuples, in any order. `Agenda.Window` lists what was asked, and `Agenda.due` says what it comes to:
the one thing that the children of the node have to be told about a tuple, or nothing. The stage of the
tuple is all that is remembered of the requests, and it is enough.
-/

namespace ConstraintStreams

/-- What the children of a node are told about a tuple in this stage. -/
def Stage.signal? : Stage → Option Signal
  | .creating => some .insert
  | .updating => some .update
  | .dying => some .retract
  | .aborting | .settled | .dead => none

/-- What is asked of an agenda about a tuple. -/
inductive Request
  /-- To make a tuple at a node; it was given the name. -/
  | create (node : NodeId) (id : TupleId)
  | update (id : TupleId)
  | retract (id : TupleId)
  deriving DecidableEq

/-- The tuple that a request is about. -/
def Request.tuple : Request → TupleId
  | create _ id | update id | retract id => id

namespace Agenda

/-- The stage of a tuple of a node. -/
def stageAt (g : Agenda) (p : NodeId) (u : TupleId) : Option Stage :=
  match g.find? u with
  | some t => if t.node = p then some t.stage else none
  | none => none

/-- The requests, the last one in front, lead from one agenda to another, as far as the tuples of a
node are concerned: beside them, none of its tuples comes, goes or changes its stage. -/
inductive Window (p : NodeId) (g₀ : Agenda) : List Request → Agenda → Prop
  | start : Window p g₀ [] g₀
  | create {requests g g' node facts sources id} : Window p g₀ requests g → g.find? id = none →
    (∀ r ∈ requests, r.tuple ≠ id) → Agenda.create node facts sources g = .ok id g' →
    Window p g₀ (.create node id :: requests) g'
  | update {requests g g' id} : Window p g₀ requests g → Agenda.update id g = .ok () g' →
    Window p g₀ (.update id :: requests) g'
  | retract {requests g g' id} : Window p g₀ requests g → Agenda.retract id g = .ok () g' →
    Window p g₀ (.retract id :: requests) g'
  | aside {requests g g'} : Window p g₀ requests g → (∀ u, g'.stageAt p u = g.stageAt p u) →
    Window p g₀ requests g'

/-- What the children of a node are to be told about a tuple, after some requests: that it is there if
it was made and not withdrawn, that it changed if they know of it and it was changed and not withdrawn,
that it is gone if they know of it and it was withdrawn, and nothing else. -/
def due (p : NodeId) (u : TupleId) (known : Bool) (requests : List Request) : Option Signal :=
  if known then
    if .retract u ∈ requests then some .retract
    else if .update u ∈ requests then some .update
    else none
  else if .create p u ∈ requests ∧ .retract u ∉ requests then some .insert
  else none

variable {g g' g₀ : Agenda} {p : NodeId} {id u : TupleId} {t t' : Tuple} {requests : List Request}

theorem stageAt_of_find (ht : g.find? u = some t) :
    g.stageAt p u = if t.node = p then some t.stage else none := by
  simp [stageAt, ht]

theorem stageAt_of_none (h : g.find? u = none) : g.stageAt p u = none := by
  simp [stageAt, h]

theorem stageAt_eq_some_iff {stage : Stage} :
    g.stageAt p u = some stage ↔ ∃ t, g.find? u = some t ∧ t.node = p ∧ t.stage = stage := by
  unfold stageAt
  cases g.find? u with
  | none => simp
  | some t => simp

theorem stageAt_congr (h : g'.find? u = g.find? u) : g'.stageAt p u = g.stageAt p u := by
  unfold stageAt
  rw [h]

theorem Replaces.stageAt (h : Replaces g g' id t t') (p : NodeId) (u : TupleId) :
    g'.stageAt p u =
      if id = u then (if t.node = p then some t'.stage else none) else g.stageAt p u := by
  by_cases hu : id = u
  · rw [stageAt_of_find ((h.find u).trans (if_pos hu)), h.node, if_pos hu]
  · rw [stageAt_congr ((h.find u).trans (if_neg hu)), if_neg hu]

/-- A tuple of the same stage in its place. -/
theorem Replaces.stageAt_eq (h : Replaces g g' id t t') (hstage : t'.stage = t.stage) (p : NodeId)
    (u : TupleId) : g'.stageAt p u = g.stageAt p u := by
  rw [h.stageAt]
  split
  · next hu => subst hu; rw [stageAt_of_find h.found, hstage]
  · rfl

/-! ## Whatever is done was asked for -/

/-- All that was done to the tuples of a node was asked for. The names that were asked about are in
use, or are gone for good. -/
structure Answers (p : NodeId) (g₀ : Agenda) (requests : List Request) (g : Agenda) : Prop where
  continues : Continues g₀ g
  window : Window p g₀ requests g
  named : ∀ r ∈ requests, (∃ t, g.find? r.tuple = some t) ∨
    r.tuple.generation < g.tuples.generation

namespace Answers

theorem start (hstore : g.tuples.Sound) (hreg : g.Registered) : Answers p g [] g :=
  ⟨.start hstore hreg, .start, fun _ hr => (nomatch hr)⟩

/-- Nothing was asked yet. -/
theorem blank (p : NodeId) (h : g.Blank) : Answers p g [] g :=
  .start h.store fun x t hx => by cases (h.find?_none x).symm.trans hx

theorem named_unmoved (h : Answers p g₀ requests g) (hsame : Unmoved g g') {r : Request}
    (hr : r ∈ requests) :
    (∃ t, g'.find? r.tuple = some t) ∨ r.tuple.generation < g'.tuples.generation := by
  rw [hsame.find]
  exact (h.named r hr).imp_right fun hlt => Nat.lt_of_lt_of_le hlt hsame.generation

theorem named_replaces (h : Answers p g₀ requests g) (hreplaces : Replaces g g' id t t') {r : Request}
    (hr : r ∈ requests) :
    (∃ t, g'.find? r.tuple = some t) ∨ r.tuple.generation < g'.tuples.generation := by
  rw [hreplaces.find, hreplaces.generation]
  split
  · exact .inl ⟨t', rfl⟩
  · exact h.named r hr

theorem named_makes (h : Answers p g₀ requests g) (hmakes : Makes g g' id t) {r : Request}
    (hr : r ∈ requests) :
    (∃ t, g'.find? r.tuple = some t) ∨ r.tuple.generation < g'.tuples.generation := by
  rw [hmakes.find, hmakes.generation]
  split
  · exact .inl ⟨t, rfl⟩
  · exact h.named r hr

/-- A name that has just been given is a new one. -/
theorem unnamed (h : Answers p g₀ requests g) (hmakes : Makes g g' id t) {r : Request}
    (hr : r ∈ requests) : r.tuple ≠ id := by
  intro he
  rcases h.named r hr with ⟨u, hu⟩ | hlt
  · rw [he, hmakes.free h.continues.store] at hu
    cases hu
  · have := hmakes.current
    rw [he] at hlt
    omega

theorem unmoved (h : Answers p g₀ requests g) (hsame : Unmoved g g') : Answers p g₀ requests g' :=
  ⟨h.continues.unmoved hsame, .aside h.window fun u => stageAt_congr (hsame.find u),
    fun _ => h.named_unmoved hsame⟩

/-- A change that leaves the stages as they are. -/
theorem aside (h : Answers p g₀ requests g) (hreplaces : Replaces g g' id t t')
    (hstage : t'.stage = t.stage ∨ t.node ≠ p) : Answers p g₀ requests g' := by
  refine ⟨h.continues.replaces hreplaces, .aside h.window fun u => ?_, fun r => h.named_replaces hreplaces⟩
  rw [hreplaces.stageAt]
  split
  · next hu =>
    subst hu
    rw [stageAt_of_find hreplaces.found]
    rcases hstage with hstage | hnode
    · rw [hstage]
    · rw [if_neg hnode, if_neg hnode]
  · rfl

/-- A tuple of another node is released. -/
theorem release (h : Answers p g₀ requests g) (ht : g.find? id = some t) (hnode : t.node ≠ p) :
    Answers p g₀ requests { g with tuples := g.tuples.erase id } := by
  have hfind : ∀ x, find? { g with tuples := g.tuples.erase id } x = if id = x then none else g.find? x :=
    g.tuples.find?_erase id
  have hgeneration : (g.tuples.erase id).generation = g.tuples.generation + 1 :=
    TupleStore.generation_erase ht
  refine ⟨h.continues.release id, .aside h.window fun u => ?_, fun r hr => ?_⟩
  · by_cases hu : id = u
    · subst hu
      rw [stageAt_of_none ((hfind id).trans (if_pos rfl)), stageAt_of_find ht, if_neg hnode]
    · exact stageAt_congr ((hfind u).trans (if_neg hu))
  · show _ ∨ r.tuple.generation < (g.tuples.erase id).generation
    rw [hfind]
    split
    · next hid =>
      have := h.continues.store.generation_le ht
      rw [hid] at this
      exact .inr (by omega)
    · exact (h.named r hr).imp_right fun hlt => by omega

end Answers

/-- All that operators do to the tuples of a node, they ask for. -/
theorem Answers.outlasts (p : NodeId) (g₀ : Agenda) :
    Outlasts fun g => ∃ requests, Answers p g₀ requests g where
  create node facts sources := by
    rintro g ⟨requests, h⟩
    have hends := create_ends g node facts sources
    unfold Action.Ends at hends ⊢
    cases hrun : Agenda.create node facts sources g with
    | ok id g' =>
      rw [hrun] at hends
      refine ⟨_, h.continues.makes hends,
        .create h.window (hends.free h.continues.store) (fun r => h.unnamed hends) hrun, fun r hr => ?_⟩
      rcases List.mem_cons.1 hr with rfl | hr
      · exact .inl ⟨_, (hends.find _).trans (if_pos rfl)⟩
      · exact h.named_makes hends hr
    | error e g' =>
      rw [hrun] at hends
      exact ⟨requests, h.unmoved (hends h.continues.store)⟩
  update id := by
    rintro g ⟨requests, h⟩
    have hends := update_ends g id
    unfold Action.Ends at hends ⊢
    cases hrun : Agenda.update id g with
    | ok _ g' =>
      rw [hrun] at hends
      obtain ⟨t, -, hreplaces⟩ := hends
      refine ⟨_, h.continues.replaces hreplaces, .update h.window hrun, fun r hr => ?_⟩
      rcases List.mem_cons.1 hr with rfl | hr
      · exact .inl ⟨_, (hreplaces.find _).trans (if_pos rfl)⟩
      · exact h.named_replaces hreplaces hr
    | error e g' =>
      rw [hrun] at hends
      exact hends h.continues.registered ▸ ⟨requests, h⟩
  retract id := by
    rintro g ⟨requests, h⟩
    have hends := retract_ends g id
    unfold Action.Ends at hends ⊢
    cases hrun : Agenda.retract id g with
    | ok _ g' =>
      rw [hrun] at hends
      obtain ⟨t, -, hreplaces⟩ := hends
      refine ⟨_, h.continues.replaces hreplaces, .retract h.window hrun, fun r hr => ?_⟩
      rcases List.mem_cons.1 hr with rfl | hr
      · exact .inl ⟨_, (hreplaces.find _).trans (if_pos rfl)⟩
      · exact h.named_replaces hreplaces hr
    | error e g' =>
      rw [hrun] at hends
      exact hends h.continues.registered ▸ ⟨requests, h⟩
  setFacts id facts := fun g ⟨requests, h⟩ => (setFacts_ends g id facts).mono
    (fun _ _ ⟨t, hreplaces⟩ => ⟨requests, h.aside hreplaces (.inl rfl)⟩)
    fun _ hsame => hsame ▸ ⟨requests, h⟩
  number g nextVersion := fun ⟨requests, h⟩ =>
    ⟨requests, (Continues.outlasts g₀).number g nextVersion h.continues, .aside h.window fun _ => rfl,
      h.named⟩

/-! ## What requests come to -/

/-- The stage that requests leave a tuple of a node in, which was settled before if it was there. -/
def fate (p : NodeId) (u : TupleId) (known : Bool) (requests : List Request) : Option Stage :=
  if known then
    some (if .retract u ∈ requests then .dying else if .update u ∈ requests then .updating else .settled)
  else if .create p u ∈ requests then
    some (if .retract u ∈ requests then .aborting else .creating)
  else none

/-- The stage tells what is due. -/
theorem signal?_fate (p : NodeId) (u : TupleId) (known : Bool) (requests : List Request) :
    (fate p u known requests).bind Stage.signal? = due p u known requests := by
  unfold fate due
  cases known with
  | true =>
    by_cases hr : .retract u ∈ requests
    · simp [hr, Stage.signal?]
    · by_cases hu : .update u ∈ requests <;> simp [hr, hu, Stage.signal?]
  | false =>
    by_cases hc : .create p u ∈ requests
    · by_cases hr : .retract u ∈ requests <;> simp [hc, hr, Stage.signal?]
    · simp [hc]

/-- What is asked about one tuple does not decide on another one. -/
theorem fate_cons_of_ne (p : NodeId) {u : TupleId} {r : Request} (hr : r.tuple ≠ u) (known : Bool)
    (requests : List Request) : fate p u known (r :: requests) = fate p u known requests := by
  have hmem : ∀ r' : Request, r'.tuple = u → (r' ∈ r :: requests ↔ r' ∈ requests) := fun r' hu =>
    List.mem_cons.trans (or_iff_right fun he => hr (he ▸ hu))
  unfold fate
  simp only [hmem (.retract u) rfl, hmem (.update u) rfl, hmem (.create p u) rfl]

/-- A tuple that has no stage at the node yet. -/
theorem fate_eq_none_iff {known : Bool} :
    fate p u known requests = none ↔ known = false ∧ .create p u ∉ requests := by
  unfold fate
  cases known <;> by_cases hc : .create p u ∈ requests <;> simp [hc]

theorem fate_update {known : Bool} {stage : Stage} (hopen : stage.isOpen = true)
    (h : fate p u known requests = some stage) :
    fate p u known (.update u :: requests) = some stage.changed := by
  have hkept : .retract u ∉ requests := by
    intro hr
    cases known <;> by_cases hc : .create p u ∈ requests <;> simp [fate, hr, hc] at h <;>
      subst h <;> cases hopen
  cases known with
  | true => by_cases hu : .update u ∈ requests <;> simp [fate, hkept, hu] at h ⊢ <;> subst h <;> rfl
  | false => by_cases hc : .create p u ∈ requests <;> simp [fate, hkept, hc] at h ⊢; subst h; rfl

theorem fate_retract {known : Bool} {stage : Stage} (hopen : stage.isOpen = true)
    (h : fate p u known requests = some stage) :
    fate p u known (.retract u :: requests) = some stage.withdrawn := by
  have hkept : .retract u ∉ requests := by
    intro hr
    cases known <;> by_cases hc : .create p u ∈ requests <;> simp [fate, hr, hc] at h <;>
      subst h <;> cases hopen
  cases known with
  | true => by_cases hu : .update u ∈ requests <;> simp [fate, hkept, hu] at h ⊢ <;> subst h <;> rfl
  | false => by_cases hc : .create p u ∈ requests <;> simp [fate, hkept, hc] at h ⊢; subst h; rfl

/-- A request that moves a tuple on, moves its fate on. -/
theorem Replaces.stageAt_eq_fate (h : Replaces g g' id t t') {r : Request} (hr : r.tuple = id)
    (hmade : r ≠ .create p id) {known : Bool} (hu : g.stageAt p u = fate p u known requests)
    (hmoves : fate p id known requests = some t.stage →
      fate p id known (r :: requests) = some t'.stage) :
    g'.stageAt p u = fate p u known (r :: requests) := by
  rw [h.stageAt]
  by_cases he : id = u
  · subst he
    rw [stageAt_of_find h.found] at hu
    rw [if_pos rfl]
    split
    · next hnode =>
      rw [if_pos hnode] at hu
      exact (hmoves hu.symm).symm
    · next hnode =>
      rw [if_neg hnode] at hu
      obtain ⟨hknown, hc⟩ := fate_eq_none_iff.1 hu.symm
      exact (fate_eq_none_iff.2 ⟨hknown, by simp [hc, hmade.symm]⟩).symm
  · rw [if_neg he, hu, fate_cons_of_ne p (hr ▸ he)]

/-- A tuple of a new name is still to be seen. -/
theorem Makes.stageAt_eq_fate (h : Makes g g' id t) (hfree : g.find? id = none)
    (hstage : t.stage = .creating) (hnew : ∀ r ∈ requests, r.tuple ≠ id) {known : Bool}
    (hu : g.stageAt p u = fate p u known requests) :
    g'.stageAt p u = fate p u known (.create t.node id :: requests) := by
  by_cases he : id = u
  · subst he
    rw [stageAt_of_none hfree] at hu
    obtain ⟨rfl, hc⟩ := fate_eq_none_iff.1 hu.symm
    have hkept : .retract id ∉ requests := fun hr => hnew _ hr rfl
    rw [stageAt_of_find ((h.find id).trans (if_pos rfl)), hstage]
    by_cases hnode : t.node = p
    · simp [fate, hnode, hkept]
    · simp [fate, hnode, hc, Ne.symm hnode]
  · rw [stageAt_congr ((h.find u).trans (if_neg he)), hu,
      fate_cons_of_ne p (r := .create t.node id) he]

/-- The stage of a tuple is what the requests about it come to. -/
theorem Window.stageAt_eq (h : Window p g₀ requests g)
    (hrest : ∀ {u stage}, g₀.stageAt p u = some stage → stage = .settled) (u : TupleId) :
    g.stageAt p u = fate p u (g₀.stageAt p u).isSome requests := by
  induction h with
  | start =>
    cases hu : g₀.stageAt p u with
    | none => rfl
    | some stage => rw [hrest hu]; rfl
  | aside _ hsame ih => rw [hsame, ih]
  | @create requests g g' node facts sources id _ hfree hnew hrun ih =>
    exact ((create_ends g node facts sources).of_ok hrun).stageAt_eq_fate hfree rfl hnew ih
  | @update requests g g' id _ hrun ih =>
    obtain ⟨t, hopen, hreplaces⟩ := (update_ends g id).of_ok hrun
    exact hreplaces.stageAt_eq_fate (r := .update id) rfl (by simp) ih (fate_update hopen)
  | @retract requests g g' id _ hrun ih =>
    obtain ⟨t, hopen, hreplaces⟩ := (retract_ends g id).of_ok hrun
    exact hreplaces.stageAt_eq_fate (r := .retract id) rfl (by simp) ih (fate_retract hopen)

end Agenda

end ConstraintStreams
