import ConstraintStreams.Proofs.Operator.Course

/-!
# Rehearsals

A life of an operator that can be played: a source has one tuple for each of some rows, and the operator
is told about them, settles its outputs and has its queue drained as a list of cues says. A cue that is
not due is refused. Whatever was played is a life of the operator, and it was told of every change.
-/

namespace ConstraintStreams

variable {μ : Type} {E : Error → Prop} {node : NodeId} {g g' : Agenda} {v v' : View}
  {w w' : Workbench μ} {side : Side} {input : TupleId} {signal : Signal}

/-! ## Before the first cue -/

namespace Agenda

/-- An agenda with a source and another node, before any tuple is made. -/
def bare : Agenda := ({ limits := {} } : Agenda).register ⟨0⟩ |>.register ⟨1⟩

theorem blank_bare : Blank bare := by
  have hblank : Blank { limits := {} } := by
    refine ⟨.empty, fun _ => rfl, fun hq => ?_, rfl⟩
    cases hq
  exact (hblank.register ⟨0⟩).register ⟨1⟩

/-- The source makes a tuple for each row. -/
def stock (rows : List Facts) : Action Agenda Unit :=
  rows.forM fun facts => discard (create ⟨0⟩ facts .none)

theorem stock_spec (rows : List Facts) :
    Action.Ensures (fun _ => True) (stock rows) bare fun _ g =>
      Sound [] g ∧ Drifts (· = ⟨0⟩) bare g := by
  refine Action.Ensures.forM (fun _ g => Sound [] g ∧ Drifts (· = ⟨0⟩) bare g)
    (fun facts _ g ⟨hs, hd⟩ => ?_) ⟨blank_bare.sound, .refl _ _⟩
  have hreg : ∃ queue, g.queues.get? ⟨0⟩ = some queue :=
    Option.isSome_iff_exists.1 (by rw [hd.registered]; rfl)
  rw [Action.ensures_discard]
  exact (create_spec facts .none hs (fun _ _ => trivial) hreg).mono
    fun _ _ ⟨hs', hd', _⟩ => ⟨hs', hd.trans hd'⟩

/-- The other node has no tuples yet. -/
theorem vacant_of_stock {rows : List Facts} (h : stock rows bare = .ok () g) :
    Sound [] g ∧ g.Vacant ⟨1⟩ := by
  obtain ⟨hs, hd⟩ := (stock_spec rows).of_ok h
  refine ⟨hs, ⟨[], hs⟩, Option.isSome_iff_exists.1 (by rw [hd.registered]; rfl), fun id => ?_⟩
  rw [Option.eq_none_iff_forall_ne_some]
  rintro ⟨facts, sources⟩ hopen
  obtain ⟨t, ht, hn, -⟩ := openAt_eq_some_iff.1 hopen
  have hmoved := (hd.fresh (blank_bare.find?_none id) ht).1
  rw [hn] at hmoved
  cases hmoved

theorem facts_congr {x : TupleId} (h : g'.find? x = g.find? x) : g'.facts x = g.facts x := by
  have hget : g'.tuples.get x = g.tuples.get x := by
    unfold TupleStore.get
    rw [show g'.tuples.find? x = g.tuples.find? x from h]
  unfold facts tuple
  rw [hget]

/-- Work on the tuples of other nodes happens elsewhere. -/
theorem Elsewhere.of_drifts {moving : NodeId → Prop} {away : List TupleId} (hs : g'.Sound away)
    (hd : Drifts moving g g') (hnot : ¬ moving node) (hf : g.Feeds node v) : Elsewhere node v g g' where
  sound := ⟨away, hs⟩
  queue := hd.queues node hnot
  own {id t} hn := by
    constructor
    · intro ht
      cases hold : g.find? id with
      | none => exact absurd (hn ▸ (hd.fresh hold ht).1) hnot
      | some u =>
        obtain ⟨t', ht', hnode, -, rfl | ⟨hmoving, -⟩⟩ := hd.old hold
        · rw [← ht, ht']
        · rw [ht] at ht'
          cases ht'
          rw [← hnode, hn] at hmoving
          exact absurd hmoving hnot
    · intro ht
      exact hd.other ht (hn ▸ hnot)
  inputs {side input} hheld := by
    obtain ⟨facts, htold⟩ := Option.isSome_iff_exists.1 hheld
    obtain ⟨t, ht, hn, -⟩ := hf htold
    obtain ⟨t', ht', hnode, -⟩ := hd.old ht
    exact ⟨t', ht', hnode ▸ hn⟩

end Agenda

/-! ## Cues -/

/-- What can be played. -/
inductive Cue
  | told (signal : Signal) (side : Side) (input : TupleId)
  /-- A tuple of the source gets other facts, and the operator is told at once. -/
  | changed (side : Side) (input : TupleId) (facts : Facts)
  | refreshed
  | drained

/-- What happens to the operator at a cue. -/
def Cue.events : Cue → List Event
  | told signal side input => [.told signal side input]
  | changed side input _ => [.elsewhere, .told .update side input]
  | refreshed => [.refreshed]
  | drained => [.drained]

instance (v : View) (side : Side) (input : TupleId) : Decidable (v.Held side input) :=
  inferInstanceAs (Decidable (_ = true))

instance (v : View) (signal : Signal) (side : Side) (input : TupleId) :
    Decidable (v.Expects signal side input) := inferInstanceAs (Decidable (_ ↔ _))

namespace Handler

variable {h : Handler μ}

/-- Tells the operator about a tuple of another node, if that is due. -/
def tell? (h : Handler μ) (node : NodeId) (signal : Signal) (side : Side) (input : TupleId)
    (v : View) (w : Workbench μ) : Option (View × Workbench μ) := do
  let t ← w.agenda.find? input
  if side ∈ h.sides ∧ v.Expects signal side input ∧ t.node ≠ node then
    let w' ← Action.outcome? (h.signal side input signal) w
    return (v.after signal side input t.facts, w')
  else none

/-- Does what a cue says. A tuple changes only while the operator holds it on no other side. -/
def play? (h : Handler μ) (node : NodeId) : View × Workbench μ → Cue → Option (View × Workbench μ)
  | (v, w), .told signal side input => h.tell? node signal side input v w
  | (v, w), .changed side input facts => do
    let t ← w.agenda.find? input
    if t.node ≠ node ∧ t.stage.isOpen = true ∧
        ∀ s ∈ [Side.only, .left, .right], v.Held s input → s = side then
      let g ← Action.outcome? (do Agenda.setFacts input facts; Agenda.update input) w.agenda
      h.tell? node .update side input (v.fade w.agenda g) { w with agenda := g }
    else none
  | (v, w), .refreshed => do
    let w' ← Action.outcome? h.refresh w
    return (v, w')
  | (v, w), .drained => do
    let g ← Action.outcome? (Agenda.drain node) w.agenda
    return (v, { w with agenda := g })

/-- Plays cues from the beginning, where the source has a tuple for each row. -/
def rehearse? (h : Handler μ) (rows : List Facts) (cues : List Cue) : Option (View × Workbench μ) := do
  let g ← Action.outcome? (Agenda.stock rows) Agenda.bare
  cues.foldlM (h.play? ⟨1⟩) (.blank, ⟨h.blank, g⟩)

end Handler

/-- What is known between two cues. -/
structure Rehearsed (h : Handler μ) (node : NodeId) (es : List Event) (v : View) (w : Workbench μ) :
    Prop where
  life : Life h node es v w
  sound : w.agenda.Sound []
  delivered : v.Delivered

/-- The operator is told at once of a change of a tuple that it holds on one side. -/
theorem View.Delivered.revise (hd : v.Delivered) (hside : ∀ s, v.Held s input → s = side)
    (hsame : ∀ x, x ≠ input → g'.facts x = g.facts x) (facts : Facts) :
    ((v.fade g g').tell side input facts).Delivered := by
  intro s x hx
  rcases held_tell.1 hx with hhere | hheld
  · exact .inl hhere
  · have hheld : v.Held s x := hheld
    by_cases hxi : x = input
    · subst hxi
      exact .inl ⟨(hside s hheld).symm, rfl⟩
    · exact .inr ⟨hd s x hheld, hsame x hxi⟩

namespace Rehearsed

variable {h : Handler μ} {I : View → (TupleId → Option (Facts × Sources)) → μ → Prop}
  {es : List Event} {s s' : View × Workbench μ}

/-- The operator is told what is due. -/
theorem tell (hI : h.Upholds node E I) (hl : Life h node es v w) (hs : w.agenda.Sound [])
    (hplay : h.tell? node signal side input v w = some s') :
    ∃ t, w.agenda.find? input = some t ∧ s'.1 = v.after signal side input t.facts ∧
      Life h node (es ++ [.told signal side input]) s'.1 s'.2 ∧ s'.2.agenda.Sound [] := by
  unfold Handler.tell? at hplay
  obtain ⟨t, ht, hplay⟩ := Option.bind_eq_some_iff.1 hplay
  obtain ⟨⟨hside, hexpects, hne⟩, hplay⟩ := Option.ite_none_right_eq_some.1 hplay
  obtain ⟨w', hcall, hplay⟩ := Option.bind_eq_some_iff.1 hplay
  obtain ⟨⟨⟩, hcall⟩ := Action.outcome?_eq_some_iff.1 hcall
  cases hplay
  have ha := hl.attends hI
  have hsignal := hI.signal (.start hs ha.registered) ha.feeds ha.holds hside hexpects ht hne
  exact ⟨t, ht, rfl, hl.step (.told hside hexpects ht hne hcall), (hsignal.of_ok hcall).1.sound⟩

theorem play (hI : h.Upholds node E I) (hr : Rehearsed h node es s.1 s.2) {cue : Cue}
    (hplay : h.play? node s cue = some s') : Rehearsed h node (es ++ cue.events) s'.1 s'.2 := by
  obtain ⟨v, w⟩ := s
  have ha := hr.life.attends hI
  cases cue with
  | told signal side input =>
    obtain ⟨t, -, hv, hl, hs⟩ := tell hI hr.life hr.sound hplay
    refine ⟨hl, hs, ?_⟩
    rw [hv]
    cases signal with
    | insert => exact hr.delivered.tell side input t.facts
    | update => exact hr.delivered.tell side input t.facts
    | retract =>
      intro s x hx
      obtain ⟨hne, hheld⟩ := View.held_drop.1 hx
      exact ⟨hne, hr.delivered s x hheld⟩
  | changed side input facts =>
    obtain ⟨t, ht, hplay⟩ := Option.bind_eq_some_iff.1 hplay
    obtain ⟨⟨hne, hopen, hheld⟩, hplay⟩ := Option.ite_none_right_eq_some.1 hplay
    obtain ⟨g, hchange, hplay⟩ := Option.bind_eq_some_iff.1 hplay
    obtain ⟨⟨⟩, hchange⟩ := Action.outcome?_eq_some_iff.1 hchange
    obtain ⟨hs, hd, hfind⟩ := (Agenda.change_spec (E := fun _ => True) facts hr.sound ht hopen).of_ok
      hchange
    have helsewhere : Agenda.Elsewhere node v w.agenda g := .of_drifts hs hd (Ne.symm hne) ha.feeds
    have hl := hr.life.step (.elsewhere helsewhere)
    obtain ⟨t', -, hv, hl', hs'⟩ := tell hI hl hs hplay
    refine ⟨by simpa [Cue.events] using hl', hs', ?_⟩
    rw [hv]
    refine hr.delivered.revise (fun s => hheld s (by cases s <;> simp)) (fun x hx => ?_) t'.facts
    exact Agenda.facts_congr ((hfind x).trans (if_neg hx.symm))
  | refreshed =>
    obtain ⟨w', hcall, hplay⟩ := Option.bind_eq_some_iff.1 hplay
    obtain ⟨⟨⟩, hcall⟩ := Action.outcome?_eq_some_iff.1 hcall
    cases hplay
    have hrefresh := hI.refresh (.start hr.sound ha.registered) ha.feeds ha.holds
    exact ⟨hr.life.step (.refreshed hcall), (hrefresh.of_ok hcall).1.sound, hr.delivered⟩
  | drained =>
    obtain ⟨g, hcall, hplay⟩ := Option.bind_eq_some_iff.1 hplay
    obtain ⟨⟨⟩, hcall⟩ := Action.outcome?_eq_some_iff.1 hcall
    cases hplay
    have hdrain := Agenda.drain_spec (E := fun _ => True) hr.sound ha.registered
    exact ⟨hr.life.step (.drained hr.sound hcall), (hdrain.of_ok hcall).sound, hr.delivered⟩

theorem foldlM (hI : h.Upholds node E I) {cues : List Cue} (hr : Rehearsed h node es s.1 s.2)
    (hplay : cues.foldlM (h.play? node) s = some s') :
    Rehearsed h node (es ++ cues.flatMap Cue.events) s'.1 s'.2 := by
  induction cues generalizing es s with
  | nil =>
    cases hplay
    simpa using hr
  | cons cue cues ih =>
    rw [List.foldlM_cons] at hplay
    obtain ⟨s₁, hfirst, hrest⟩ := Option.bind_eq_some_iff.1 hplay
    rw [List.flatMap_cons, ← List.append_assoc]
    exact ih (hr.play hI hfirst) hrest

end Rehearsed

/-- What was played is a life, and the operator was told of every change. -/
theorem Handler.rehearsed {h : Handler μ} {rows : List Facts} {cues : List Cue}
    {I : View → (TupleId → Option (Facts × Sources)) → μ → Prop} (hI : h.Upholds ⟨1⟩ E I)
    {s : View × Workbench μ} (hplay : h.rehearse? rows cues = some s) :
    Rehearsed h ⟨1⟩ (cues.flatMap Cue.events) s.1 s.2 := by
  obtain ⟨g, hstock, hplay⟩ := Option.bind_eq_some_iff.1 hplay
  obtain ⟨⟨⟩, hstock⟩ := Action.outcome?_eq_some_iff.1 hstock
  obtain ⟨hs, hvacant⟩ := Agenda.vacant_of_stock hstock
  have hstart : Rehearsed h ⟨1⟩ [] .blank ⟨h.blank, g⟩ :=
    ⟨⟨g, hvacant, .start⟩, hs, View.delivered_blank⟩
  exact hstart.foldlM hI hplay

/-! ## Rows to play with -/

namespace Rehearsal

/-- Shifts, with who works them and when they start. -/
def shiftType : EntityType := ⟨"Shift", "S", [("worker", .none), ("start", .none)]⟩

/-- A version of a shift. -/
def shiftFact (id : Int64) (version : Version) (worker start : Int64) : Fact :=
  .entity ⟨shiftType, id, version, [("worker", .int worker), ("start", .int start)]⟩

/-- A version of a shift that came from outside, as a row. -/
def shift (id : Int64) (version : Nat) (worker start : Int64) : Facts :=
  [shiftFact id (.given version) worker start]

/-- An attribute of the first fact of a row. -/
def read (name : String) (row : Facts) : Value :=
  match row with
  | .entity e :: _ => e.read name
  | _ => .none

/-- Different shifts of one worker. -/
def sameWorker : List Joiner :=
  [.indexed ⟨.given 0, fun row => .ok (.value (read "worker" row))⟩
      ⟨.given 0, fun row => .ok (.value (read "worker" row))⟩,
    .otherFact (.entity shiftType)]

end Rehearsal

end ConstraintStreams
