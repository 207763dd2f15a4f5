import ConstraintStreams.Proofs.Image.Spec
import ConstraintStreams.Proofs.Operator.Rehearsal
import ConstraintStreams.Proofs.Operator.Semijoin

/-!
# Semijoins are exact

Whatever the signals, the refreshes and the work of others in between: once a semijoin was told of every
change and has nothing left to settle, it knows who matches whom, and the left inputs that stand as
expected are those with an output. A left input that stands after a refresh as it stood after the one
before has kept its output, or had none all the while.
-/

namespace ConstraintStreams

open ConstraintStreams.Action (Keeps)
open Work

namespace SemijoinMemory

/-- A semijoin, as it is asked to do things. -/
def handler (node : NodeId) (expected : Bool) (joiners : List Joiner) : Handler SemijoinMemory where
  sides := [.left, .right]
  blank := {}
  signal side input signal := Network.signalSemijoin joiners input side signal
  refresh := refresh node expected

/-- What a semijoin can fail with: what its joiners fail with, and the limit on tuples. -/
inductive Fault (joiners : List Joiner) : Error → Prop
  | leftKey {facts e} (h : Joiner.leftKey joiners facts = .error e) : Fault joiners e
  | rightKey {facts e} (h : Joiner.rightKey joiners facts = .error e) : Fault joiners e
  | accept {l r e} (h : Joiner.accept joiners l r = .error e) : Fault joiners e
  | limit (limit details) : Fault joiners (.resourceLimit limit details)

/-- A left and a right input, as the semijoin was told of them, match. -/
def Meets (joiners : List Joiner) (v : View) (l r : TupleId) : Prop :=
  ∃ fl fr, v.told .left l = some fl ∧ v.told .right r = some fr ∧ Joiner.Matches joiners fl fr

/-- A left input has an open output with the given facts. -/
def Shows (node : NodeId) (w : Workbench SemijoinMemory) (l : TupleId) (facts : Facts) : Prop :=
  ∃ o sources, w.memory.output? l = some o ∧ w.agenda.openAt node o = some (facts, sources)

/-- A left input stands as expected. -/
def Passes (expected : Bool) (m : SemijoinMemory) (l : TupleId) : Prop :=
  ∃ c, m.counters.get? l = some c ∧ (!c.hits.isEmpty) = expected

/-- A semijoin at rest. -/
structure Exact (joiners : List Joiner) (expected : Bool) (node : NodeId) (v : View)
    (w : Workbench SemijoinMemory) : Prop where
  /-- What the semijoin was told of an input is what the input is. -/
  current : ∀ {side x facts}, v.told side x = some facts → w.agenda.facts x = .ok facts
  counted : ∀ {l}, (w.memory.counters.get? l).isSome = true ↔ v.Held .left l
  hits : ∀ {l c}, w.memory.counters.get? l = some c →
    c.hits.Nodup ∧ ∀ {r}, r ∈ c.hits ↔ Meets joiners v l r
  lefts : ∀ r, (w.memory.leftsAt r).Nodup ∧ ∀ {l}, l ∈ w.memory.leftsAt r ↔ Meets joiners v l r
  /-- Only right inputs that match something are noted. -/
  trimmed : w.memory.Trimmed
  /-- An output of a left input carries the facts of the input, and there is one if the input stands as
  expected. -/
  shows : ∀ {l facts}, v.told .left l = some facts →
    (Shows node w l facts ↔ ((∃ r, Meets joiners v l r) ↔ expected = true)) ∧
      ∀ {o}, w.memory.output? l = some o → Shows node w l facts
  /-- Every open output is that of one left input. -/
  owned : ∀ {o entry}, w.agenda.openAt node o = some entry →
    ∃! l, v.Held .left l ∧ w.memory.output? l = some o

variable {node : NodeId} {joiners : List Joiner} {expected : Bool} {v v' : View}
  {w w' : Workbench SemijoinMemory} {es es' : List Event} {m : SemijoinMemory} {l r o : TupleId}

theorem passes_iff {c : Counter} (hc : m.counters.get? l = some c) :
    Passes expected m l ↔ (!c.hits.isEmpty) = expected := by
  simp [Passes, hc]

/-- A semijoin upholds `Valid`. -/
theorem upholds (node : NodeId) (expected : Bool) (joiners : List Joiner) :
    (handler node expected joiners).Upholds node (Fault joiners) fun v out m =>
      Valid joiners expected m.dirty v out m where
  blank hout := .empty hout fun _ _ => rfl
  fades hv h := h.fades hv
  signal hb hfeeds hv hside hexpects ht hne := by
    refine signal_spec hb hfeeds hv ?_ hexpects ht hne (fun _ _ _ => .accept) (fun _ _ => .leftKey)
      (fun _ _ => .rightKey)
    rintro rfl
    simp [handler] at hside
  refresh hb hfeeds hv := (refresh_spec hb hfeeds hv .limit).mono
    fun _ _ ⟨hb', hdirty, hv'⟩ => ⟨hb', hdirty ▸ hv'⟩

/-! ## At rest -/

variable {out : TupleId → Option (Facts × Sources)} {dirty : List TupleId}

/-- Who is noted to match whom. -/
theorem Valid.mem_leftsAt_iff (h : Valid joiners expected dirty v out m) (hd : v.Delivered) :
    l ∈ m.leftsAt r ↔ Meets joiners v l r := by
  constructor
  · intro hl
    obtain ⟨key, hkl, hkr⟩ := h.keys_agree hl
    obtain ⟨fl, hfl⟩ := Option.isSome_iff_exists.1 ((h.lefts l).1 (by rw [hkl]; rfl))
    obtain ⟨fr, hfr⟩ := Option.isSome_iff_exists.1 ((h.rights r).1 (by rw [hkr]; rfl))
    have hknownl := hd.known hfl
    have hknownr := hd.known hfr
    exact ⟨fl, fr, hfl, hfr, key, h.leftKey hknownl hkl, h.rightKey hknownr hkr,
      (h.exact hknownl hknownr hkl hkr).1 hl⟩
  · rintro ⟨fl, fr, hfl, hfr, key, hkeyl, hkeyr, haccept⟩
    have hknownl := hd.known hfl
    have hknownr := hd.known hfr
    obtain ⟨kl, hkl⟩ := h.lefts.get?_some hknownl.held
    obtain ⟨kr, hkr⟩ := h.rights.get?_some hknownr.held
    obtain rfl : kl = key := Except.ok.inj ((h.leftKey hknownl hkl).symm.trans hkeyl)
    obtain rfl : kr = kl := Except.ok.inj ((h.rightKey hknownr hkr).symm.trans hkeyr)
    exact (h.exact hknownl hknownr hkl hkr).2 haccept

theorem Valid.mem_hits_iff (h : Valid joiners expected dirty v out m) (hd : v.Delivered) {c : Counter}
    (hc : m.counters.get? l = some c) : r ∈ c.hits ↔ Meets joiners v l r := by
  rw [← h.mem_leftsAt_iff hd, h.linked]
  constructor
  · exact fun hr => ⟨c, hc, hr⟩
  · rintro ⟨c', hc', hr⟩
    rw [hc] at hc'
    cases hc'
    exact hr

/-- A left input has a match exactly if its list of matches is not empty. -/
theorem Valid.exists_meets_iff (h : Valid joiners expected dirty v out m) (hd : v.Delivered)
    {c : Counter} (hc : m.counters.get? l = some c) :
    (∃ r, Meets joiners v l r) ↔ (!c.hits.isEmpty) = true := by
  simp only [← h.mem_hits_iff hd hc, Bool.not_eq_true', ← Bool.not_eq_true, List.isEmpty_iff,
    List.eq_nil_iff_forall_not_mem, not_forall, not_not]

theorem Valid.exact_of_rest
    (ha : Attends node (fun v out m => Valid joiners expected m.dirty v out m) v w)
    (hd : v.Delivered) (hdirty : w.memory.dirty = []) : Exact joiners expected node v w := by
  have h := ha.holds
  refine ⟨ha.current hd, h.counted _, fun hc => ⟨h.hits_nodup hc, h.mem_hits_iff hd hc⟩,
    fun r => ⟨h.lefts_nodup r, h.mem_leftsAt_iff hd⟩, h.trimmed, fun {l facts} hf => ?_,
    fun {o entry} ho => ?_⟩
  · obtain ⟨c, hc⟩ := h.counted.get?_some (hd.known hf).held
    have houtput : w.memory.output? l = c.output := by simp [output?, hc]
    have hshows {o : TupleId} (ho : w.memory.output? l = some o) : Shows node w l facts := by
      obtain ⟨⟨f, sources⟩, hopen⟩ := h.listing.opened ho
      obtain rfl : f = facts := h.shown (l := l) (by rw [outputUnder, ho]; exact hopen) (hd.known hf)
      exact ⟨o, sources, ho, hopen⟩
    refine ⟨?_, hshows⟩
    rw [h.exists_meets_iff hd hc, Bool.coe_iff_coe, ← h.settled (by simp [hdirty]) hc, ← houtput,
      Option.isSome_iff_exists]
    constructor
    · rintro ⟨o, -, ho, -⟩
      exact ⟨o, ho⟩
    · rintro ⟨o, ho⟩
      exact hshows ho
  · obtain ⟨l, hl⟩ := h.listing.owned ho
    refine ⟨l, ⟨?_, hl⟩, fun l' hl' => h.listing.inj hl'.2 hl⟩
    rw [← h.counted l]
    cases hc : w.memory.counters.get? l with
    | some c => rfl
    | none => simp [output?, hc] at hl

/-! ## What a signal leaves of an output -/

variable {left right input : TupleId} {x : Option TupleId}

theorem output?_modify_hits (m : SemijoinMemory) (left : TupleId) (f : List TupleId → List TupleId)
    (l : TupleId) : output? { m with
      counters := m.counters.modify left fun c => { c with hits := f c.hits } } l = m.output? l := by
  unfold output?
  rw [Table.get?_modify]
  split
  · next he =>
    subst he
    cases m.counters.get? left <;> rfl
  · rfl

theorem output?_foldl {step : SemijoinMemory → TupleId → SemijoinMemory}
    (hstep : ∀ m y, (step m y).output? l = m.output? l) (ys : List TupleId) (m : SemijoinMemory) :
    (ys.foldl step m).output? l = m.output? l := by
  induction ys generalizing m with
  | nil => rfl
  | cons y rest ih => exact (ih _).trans (hstep m y)

theorem output?_link (m : SemijoinMemory) (y : TupleId) : (m.link left y).output? l = m.output? l := rfl

theorem output?_unlink (m : SemijoinMemory) (y : TupleId) :
    (m.unlink left y).output? l = m.output? l := by
  unfold unlink
  split
  · rfl
  · split <;> rfl

theorem output?_addHit (m : SemijoinMemory) (y : TupleId) :
    (m.addHit right y).output? l = m.output? l := m.output?_modify_hits y (·.insert right) l

theorem output?_removeHit (m : SemijoinMemory) (y : TupleId) :
    (m.removeHit right y).output? l = m.output? l := m.output?_modify_hits y (·.erase right) l

theorem keepsOutput_findMatches (joiners : List Joiner) (left : TupleId) (key : JoinKey) :
    Keeps (In fun m => m.output? l = x) (findMatches joiners left key) :=
  .bind (keeps_facts left) fun _ => .bind keeps_memory fun _ => .bind keeps_inHashOrder fun _ =>
    .bind (keeps_accepted (fun right => .bind (keeps_facts right) fun _ => .lift _) _) fun hits =>
      .bind (keepsIn_modifyMemory fun m hm => (output?_foldl output?_link hits m).trans hm) fun _ =>
        .pure _

theorem keepsOutput_insertLeft (joiners : List Joiner) (hne : input ≠ l) :
    Keeps (In fun m => m.output? l = x) (insertLeft joiners input) := by
  refine .bind (keeps_facts input) fun _ => .bind (.lift _) fun key =>
    .bind (keepsOutput_findMatches joiners input key) fun hits => keepsIn_modifyMemory fun m hm => ?_
  show ((m.counters.insert input _).get? l).bind _ = x
  rw [Table.get?_insert, if_neg hne]
  exact hm

theorem keepsOutput_renewLeft (joiners : List Joiner) (key : JoinKey) (counter : Counter) :
    Keeps (In fun m => m.output? l = x) (renewLeft joiners input key counter) := by
  refine .bind (keepsIn_modifyMemory fun m hm => ?_) fun _ =>
    .bind (keepsOutput_findMatches joiners input key) fun hits =>
      .bind (keepsIn_modifyMemory fun m hm => ?_) fun _ => ?_
  · exact (output?_foldl output?_unlink _ _).trans
      ((m.output?_modify_hits input (fun _ => []) l).trans hm)
  · exact (m.output?_modify_hits input (fun _ => hits) l).trans hm
  · split
    · exact .bind (keeps_facts input) fun _ => .bind (keepsIn_refreshTuple _ _) fun _ =>
        keepsIn_modifyMemory fun _ hm => hm
    · exact keepsIn_modifyMemory fun _ hm => hm

theorem keepsOutput_updateLeft (joiners : List Joiner) (input : TupleId) :
    Keeps (In fun m => m.output? l = x) (updateLeft joiners input) := by
  refine .bind (keeps_facts input) fun _ => .bind (.lift _) fun key =>
    keepsIn_memory_bind fun m hm => .bind (keepsIn_setMemory hm) fun _ => ?_
  split
  · exact .throw _
  · split
    · split
      · exact .bind (keepsIn_modifyMemory fun _ hm => hm) fun _ => .throw _
      · exact .throw _
    · split
      · exact .bind (keepsIn_modifyMemory fun _ hm => hm) fun _ => keepsOutput_renewLeft _ _ _
      · exact keepsOutput_renewLeft _ _ _

theorem keepsOutput_retractLeft (hne : input ≠ l) :
    Keeps (In fun m => m.output? l = x) (retractLeft input) := by
  refine keepsIn_memory_bind fun m hm => ?_
  split
  · exact .throw _
  · refine .bind (keepsIn_setMemory hm) fun _ => ?_
    split
    · exact .pure _
    · refine .bind (keepsIn_setMemory ?_) fun _ => ?_
      · refine (output?_foldl output?_unlink _ _).trans ?_
        show ((m.counters.erase input).get? l).bind _ = x
        rw [Table.get?_erase, if_neg hne]
        exact hm
      · split
        · exact keepsIn_onAgenda _
        · exact .pure _

theorem keepsOutput_insertRight (joiners : List Joiner) (right : TupleId) :
    Keeps (In fun m => m.output? l = x) (insertRight joiners right) :=
  .bind (keeps_facts right) fun _ => .bind (.lift _) fun _ => .bind keeps_memory fun _ =>
    .bind keeps_inHashOrder fun _ =>
      .bind (keeps_accepted (fun left => .bind (keeps_facts left) fun _ => .lift _) _) fun lefts =>
        keepsIn_modifyMemory fun m hm => (output?_foldl output?_addHit lefts m).trans hm

theorem keepsOutput_retractRight (right : TupleId) :
    Keeps (In fun m => m.output? l = x) (retractRight right) := by
  refine keepsIn_memory_bind fun m hm => ?_
  split
  · exact .throw _
  · exact keepsIn_setMemory ((output?_foldl output?_removeHit _ _).trans hm)

/-- Only a left input that comes or goes has another output at once. -/
theorem keepsOutput_signal (joiners : List Joiner) {side : Side} {signal : Signal}
    (hother : side = .right ∨ input ≠ l ∨ signal = .update) :
    Keeps (In fun m => m.output? l = x) (Network.signalSemijoin joiners input side signal) := by
  have onLeft (hside : side ≠ .right) :
      Keeps (In fun m => m.output? l = x) (Network.signalSemijoin joiners input .left signal) := by
    cases signal with
    | insert => exact keepsOutput_insertLeft joiners (by simpa [hside] using hother)
    | update => exact keepsOutput_updateLeft joiners input
    | retract => exact keepsOutput_retractLeft (by simpa [hside] using hother)
  cases side with
  | right =>
    cases signal with
    | insert => exact keepsOutput_insertRight joiners input
    | update =>
      exact .bind (keepsOutput_retractRight input) fun _ => keepsOutput_insertRight joiners input
    | retract => exact keepsOutput_retractRight input
  | left => cases signal <;> exact onLeft (by simp)
  | only => cases signal <;> exact onLeft (by simp)

/-! ## What a refresh leaves of an output -/

/-- A left input that stands as its output says is passed over. -/
theorem keepsCounter_settle (left : TupleId) {c : Counter}
    (hc : c.output.isSome = true ↔ (!c.hits.isEmpty) = expected) :
    Keeps (In fun m => m.counters.get? l = some c) (settle node expected left) := by
  refine keepsIn_memory_bind fun m hm => ?_
  split
  · exact .pure _
  · next counter hcounter =>
    have hsame : left = l → counter = c := by
      rintro rfl
      exact Option.some.inj (hcounter.symm.trans hm)
    dsimp only
    split
    · next hpasses houtput =>
      have hne : left ≠ l := fun he => by
        rw [hsame he] at hpasses houtput
        have := hc.2 (beq_iff_eq.1 hpasses)
        rw [houtput] at this
        cases this
      refine .bind (keeps_facts left) fun _ => .bind (keepsIn_onAgenda _) fun _ =>
        keepsIn_modifyMemory fun m hm => ?_
      exact (m.counters.get?_insert left l _).trans ((if_neg hne).trans hm)
    · next output hfails houtput =>
      have hne : left ≠ l := fun he => by
        rw [hsame he] at hfails houtput
        have := hc.1 (by rw [houtput]; rfl)
        rw [this, beq_self_eq_true] at hfails
        cases hfails
      refine .bind (keepsIn_modifyMemory fun m hm => ?_) fun _ => keepsIn_onAgenda _
      exact (m.counters.get?_insert left l _).trans ((if_neg hne).trans hm)
    · exact .pure _

theorem keepsCounter_refresh (node : NodeId) {c : Counter}
    (hc : c.output.isSome = true ↔ (!c.hits.isEmpty) = expected) :
    Keeps (In fun m => m.counters.get? l = some c) (refresh node expected) :=
  .bind keeps_memory fun _ => .bind keeps_inHashOrder fun _ =>
    .bind (keepsIn_modifyMemory fun _ hm => hm) fun _ => .forM (fun left => keepsCounter_settle left hc) _

/-- Every tuple that was not there at first is the output of a left input that stands as expected. -/
structure Accounted (expected : Bool) (g₀ : Agenda) (w : Workbench SemijoinMemory) : Prop where
  store : w.agenda.tuples.Sound
  registered : w.agenda.Registered
  listed : ∀ {o t}, g₀.find? o = none → w.agenda.find? o = some t → ∃ l c,
    w.memory.counters.get? l = some c ∧ c.output = some o ∧ (!c.hits.isEmpty) = expected

theorem Accounted.unmoved {g₀ g : Agenda} (h : Accounted expected g₀ w)
    (hsame : Agenda.Unmoved w.agenda g) : Accounted expected g₀ { w with agenda := g } where
  store := hsame.store h.store
  registered := hsame.keeps_registered h.registered
  listed hnone ht := h.listed hnone ((hsame.find _).symm.trans ht)

/-- A counter that lists nothing as expected may be replaced. -/
theorem Accounted.recount {g₀ : Agenda} {left : TupleId} {counter c : Counter}
    (h : Accounted expected g₀ w) (hcounter : w.memory.counters.get? left = some counter)
    (hidle : counter.output.isSome = true → (!counter.hits.isEmpty) ≠ expected) :
    Accounted expected g₀
      { w with memory := { w.memory with counters := w.memory.counters.insert left c } } where
  store := h.store
  registered := h.registered
  listed hnone ht := by
    obtain ⟨l, d, hd, ho, hpasses⟩ := h.listed hnone ht
    have hne : left ≠ l := by
      rintro rfl
      rw [hcounter] at hd
      cases hd
      exact hidle (by rw [ho]; rfl) hpasses
    exact ⟨l, d, (w.memory.counters.get?_insert left l c).trans ((if_neg hne).trans hd), ho, hpasses⟩

/-- A refresh makes no tuples but the outputs of left inputs that stand as expected. -/
theorem keepsAccounted_settle (node : NodeId) (expected : Bool) (g₀ : Agenda) (left : TupleId) :
    Keeps (Accounted expected g₀) (settle node expected left) := by
  intro w h
  unfold settle
  rw [ends_memory_bind]
  split
  · exact h
  · next counter hcounter =>
    dsimp only
    split
    · next hpasses houtput =>
      rw [Action.ends_bind]
      unfold Work.facts
      rw [Action.ends_bind, Action.ends_get, Action.ends_lift]
      refine ⟨fun facts _ => ?_, fun _ _ => h⟩
      rw [Action.ends_bind]
      refine Action.ends_within.2 ((Agenda.create_ends w.agenda node facts (.single left)).mono
        (fun o g hm => ?_) fun g hsame => h.unmoved (hsame h.store))
      have hre := h.recount (c := { counter with output := some o }) hcounter
        (by rw [houtput]; exact fun hs => nomatch hs)
      refine ⟨hm.store h.store, hm.keeps_registered h.registered, fun {x t} hnone ht => ?_⟩
      rw [show Agenda.find? g x = some t ↔ _ by rw [hm.find]] at ht
      split at ht
      · next he =>
        exact ⟨left, _, (w.memory.counters.get?_insert left left _).trans (if_pos rfl),
          by rw [he], beq_iff_eq.1 hpasses⟩
      · exact hre.listed hnone ht
    · next output hfails houtput =>
      rw [Action.ends_bind, modifyMemory, Action.ends_modify]
      have hre := h.recount (c := { counter with output := none }) hcounter
        (fun _ he => by rw [he, beq_self_eq_true] at hfails; cases hfails)
      refine Action.ends_within.2 ((Agenda.retract_ends w.agenda output).mono ?_ ?_)
      · rintro _ g ⟨t, -, hr⟩
        refine ⟨hr.store h.store, hr.keeps_registered h.registered, fun {x u} hnone hu => ?_⟩
        rw [show Agenda.find? g x = some u ↔ _ by rw [hr.find]] at hu
        split at hu
        · next he => exact hre.listed hnone (he ▸ hr.found)
        · exact hre.listed hnone hu
      · intro g hsame
        obtain rfl := hsame h.registered
        exact hre
    · exact h

theorem keepsAccounted_refresh (node : NodeId) (expected : Bool) (g₀ : Agenda) :
    Keeps (Accounted expected g₀) (refresh node expected) :=
  .bind keeps_memory fun _ => .bind keeps_inHashOrder fun _ =>
    .bind (x := modifyMemory _) (.modify fun _ h => ⟨h.store, h.registered, h.listed⟩) fun _ =>
      .forM (keepsAccounted_settle node expected g₀) _

/-! ## From one refresh to the next -/

/-- Between two moments a left input has kept its output, which is still open, or has had none. -/
def KeepsOutput (node : NodeId) (l : TupleId) (w w' : Workbench SemijoinMemory) : Prop :=
  w'.memory.output? l = w.memory.output? l ∧
    ∀ {o}, w.memory.output? l = some o → ∃ entry, w'.agenda.openAt node o = some entry

/-- As long as it is not asked to settle its outputs, a semijoin makes no tuples, and the output of a
left input that stays is the same. -/
theorem stretch_keeps (hc : Course (handler node expected joiners) node v w es v' w')
    (hheld : v.Held .left l) (hquiet : .refreshed ∉ es) (hstays : .told .retract .left l ∉ es) :
    v'.Held .left l ∧ w'.memory.output? l = w.memory.output? l ∧
      ∀ o, w.agenda.Lacks node o → w'.agenda.Lacks node o := by
  induction hc with
  | start => exact ⟨hheld, rfl, fun _ => id⟩
  | @step es e v₁ w₁ v₂ w₂ _ hs ih =>
    rw [List.mem_append, List.mem_singleton, not_or] at hquiet hstays
    obtain ⟨hheld₁, houtput, hlacks⟩ := ih hquiet.1 hstays.1
    cases hs with
    | @told _ _ _ signal side input t hside hexpects ht hne hcall =>
      have hmine (hl : side = .left ∧ input = l) : signal = .update := by
        obtain ⟨rfl, rfl⟩ := hl
        cases signal with
        | insert => exact absurd rfl (hexpects.1 hheld₁)
        | update => rfl
        | retract => exact absurd rfl hstays.2
      have hother : side = .right ∨ input ≠ l ∨ signal = .update := by
        rcases List.mem_pair.1 hside with rfl | rfl
        · by_cases hl : input = l
          · exact .inr (.inr (hmine ⟨rfl, hl⟩))
          · exact .inr (.inl hl)
        · exact .inl rfl
      refine ⟨?_, ?_, fun o ho => ?_⟩
      · cases signal with
        | insert => exact View.held_tell.2 (.inr hheld₁)
        | update => exact View.held_tell.2 (.inr hheld₁)
        | retract => exact View.held_drop.2 ⟨fun hl => (nomatch hmine hl), hheld₁⟩
      · exact (keepsOutput_signal joiners hother w₁ houtput).of_ok hcall
      · exact (Network.keeps_signalSemijoin (Agenda.Lacks.alters node o) joiners input side signal w₁
          (hlacks o ho)).of_ok hcall
    | refreshed => exact absurd rfl hquiet.2
    | drained hs hdrain =>
      exact ⟨hheld₁, houtput, fun o ho =>
        (Agenda.Lacks.keeps_drain node node o w₁.agenda (hlacks o ho)).of_ok hdrain⟩
    | elsewhere hg =>
      refine ⟨hheld₁, houtput, fun o ho => ⟨fun _ _ hx => ?_, fun t ht hn => ?_⟩⟩
      · obtain ⟨away, hsound⟩ := hg.sound
        exact hsound.registered hx
      · exact (hlacks o ho).other t ((hg.own hn).1 ht) hn

/-- A left input that stands as its output says is passed over by a refresh. -/
theorem refresh_keeps
    (ha : Attends node (fun v out m => Valid joiners expected m.dirty v out m) v w)
    (hheld : v.Held .left l)
    (hstands : (w.memory.output? l).isSome = true ↔ Passes expected w.memory l)
    (hrefresh : refresh node expected w = .ok () w') :
    KeepsOutput node l w w' ∧ ∀ {o t}, w.agenda.find? o = none → w'.agenda.find? o = some t →
      ∃ l', l' ≠ l ∧ w'.memory.output? l' = some o := by
  obtain ⟨c, hc⟩ := ha.holds.counted.get?_some hheld
  have houtput : w.memory.output? l = c.output := by simp [output?, hc]
  have hsettled : c.output.isSome = true ↔ (!c.hits.isEmpty) = expected := by
    rw [← houtput, hstands]
    exact passes_iff hc
  have hc' : w'.memory.counters.get? l = some c :=
    (keepsCounter_refresh node hsettled w hc).of_ok hrefresh
  have houtput' : w'.memory.output? l = c.output := by simp [output?, hc']
  have ha' := ((ha.refresh (upholds node expected joiners)).of_ok hrefresh).2
  refine ⟨⟨houtput'.trans houtput.symm, fun {o} ho => ?_⟩, fun {o t} hnone ht => ?_⟩
  · exact ha'.holds.listing.opened (houtput'.trans (houtput.symm.trans ho))
  · obtain ⟨away, hsound⟩ := ha.sound
    have hstart : Accounted expected w.agenda w :=
      ⟨hsound.store, fun _ _ hx => hsound.registered hx, fun hx hx' => by rw [hx] at hx'; cases hx'⟩
    obtain ⟨l', d, hd, hlisted, -⟩ :=
      ((keepsAccounted_refresh node expected w.agenda w hstart).of_ok hrefresh).listed hnone ht
    refine ⟨l', ?_, by simp [output?, hd, hlisted]⟩
    -- The output of `l` was there before, so a new tuple is not its output.
    rintro rfl
    rw [hc'] at hd
    cases hd
    obtain ⟨entry, hopen⟩ := ha.holds.listing.opened (houtput.trans hlisted)
    rw [Agenda.openAt_of_none node hnone] at hopen
    cases hopen

section Stretch

variable (ha : Attends node (fun v out m => Valid joiners expected m.dirty v out m) v w)
  (hc : Course (handler node expected joiners) node v w es v' w') (hheld : v.Held .left l)
  (hquiet : .refreshed ∉ es) (hstays : .told .retract .left l ∉ es)

include ha hc hheld hquiet hstays

/-- The output of a left input that stays is the one it was. -/
theorem stretch_keepsOutput : KeepsOutput node l w w' := by
  obtain ⟨-, houtput, -⟩ := stretch_keeps hc hheld hquiet hstays
  have ha' := hc.attends (upholds node expected joiners) ha
  exact ⟨houtput, fun ho => ha'.holds.listing.opened (houtput.trans ho)⟩

/-- No tuple of the node is new. -/
theorem stretch_makes_none {t : Tuple} (ht : w'.agenda.find? o = some t) (hn : t.node = node) :
    ∃ t₀, w.agenda.find? o = some t₀ ∧ t₀.node = node := by
  by_contra hnone
  obtain ⟨-, -, hlacks⟩ := stretch_keeps hc hheld hquiet hstays
  obtain ⟨away, hsound⟩ := ha.sound
  have hlack : w.agenda.Lacks node o :=
    ⟨fun _ _ hx => hsound.registered hx, fun t₀ ht₀ hn₀ => hnone ⟨t₀, ht₀, hn₀⟩⟩
  exact (hlacks o hlack).other t ht hn

/-- A left input that stands as it stood after the last refresh has the output it had, after the next
one too. -/
theorem stretch_refresh_keeps (hdirty : w.memory.dirty = []) {w'' : Workbench SemijoinMemory}
    (hrefresh : refresh node expected w' = .ok () w'')
    (hsame : Passes expected w.memory l ↔ Passes expected w'.memory l) :
    KeepsOutput node l w w'' ∧ ∀ {o t}, w'.agenda.find? o = none → w''.agenda.find? o = some t →
      ∃ l', l' ≠ l ∧ w''.memory.output? l' = some o := by
  obtain ⟨hheld', houtput, -⟩ := stretch_keeps hc hheld hquiet hstays
  have hstands : (w'.memory.output? l).isSome = true ↔ Passes expected w'.memory l := by
    obtain ⟨c, hc⟩ := ha.holds.counted.get?_some hheld
    have hsettled := ha.holds.settled (by simp [hdirty]) hc
    rw [← hsame, houtput, show w.memory.output? l = c.output by simp [output?, hc], hsettled]
    exact (passes_iff hc).symm
  obtain ⟨hkept, hmade⟩ := refresh_keeps (hc.attends (upholds node expected joiners) ha) hheld' hstands
    hrefresh
  exact ⟨⟨hkept.1.trans houtput, fun ho => hkept.2 (houtput.trans ho)⟩, hmade⟩

end Stretch

/-- What passes a semijoin is what does not pass its opposite. -/
theorem Exact.opposite {node' : NodeId} {facts : Facts} (h : Exact joiners expected node v w)
    (h' : Exact joiners (!expected) node' v' w') (htold : v'.told = v.told)
    (hf : v.told .left l = some facts) : Shows node' w' l facts ↔ ¬ Shows node w l facts := by
  have hmeets : ∀ r, Meets joiners v' l r ↔ Meets joiners v l r := fun r => by
    simp only [Meets, htold]
  rw [(h'.shows (by rw [htold]; exact hf)).1, (h.shows hf).1]
  simp only [hmeets]
  cases expected <;> simp

/-- Once a semijoin was told of every change and has nothing left to settle, it is exact. It fails only
if a joiner does or at the limit on tuples, and a refresh leaves nothing to settle. From one refresh to
the next, a left input that stays and stands as it stood keeps its output, or keeps having none: nothing
is made or withdrawn for it. And what passes a semijoin is just what does not pass its opposite. -/
theorem stands_exactly (hl : Life (handler node expected joiners) node es v w) :
    (v.Delivered → w.memory.dirty = [] → Exact joiners expected node v w) ∧
    ((∀ {side x signal t e w'}, side ∈ [Side.left, .right] → v.Expects signal side x →
        w.agenda.find? x = some t → t.node ≠ node →
        Network.signalSemijoin joiners x side signal w = .error e w' → Fault joiners e) ∧
      (∀ {e w'}, refresh node expected w = .error e w' → Fault joiners e) ∧
      ∀ {w'}, refresh node expected w = .ok () w' → w'.memory.dirty = []) ∧
    (∀ {es' v' w' l}, w.memory.dirty = [] → v.Held .left l →
      Course (handler node expected joiners) node v w es' v' w' → .refreshed ∉ es' →
      .told .retract .left l ∉ es' →
      KeepsOutput node l w w' ∧
      (∀ {o t}, w'.agenda.find? o = some t → t.node = node →
        ∃ t₀, w.agenda.find? o = some t₀ ∧ t₀.node = node) ∧
      ∀ {w''}, refresh node expected w' = .ok () w'' →
        (Passes expected w.memory l ↔ Passes expected w'.memory l) →
        KeepsOutput node l w w'' ∧ ∀ {o t}, w'.agenda.find? o = none → w''.agenda.find? o = some t →
          ∃ l', l' ≠ l ∧ w''.memory.output? l' = some o) ∧
    ∀ {node' es' v' w'}, Life (handler node' (!expected) joiners) node' es' v' w' →
      v'.told = v.told → v.Delivered → v'.Delivered → w.memory.dirty = [] → w'.memory.dirty = [] →
      ∀ {l facts}, v.told .left l = some facts → (Shows node' w' l facts ↔ ¬ Shows node w l facts) := by
  have hI := upholds node expected joiners
  have ha := hl.attends hI
  refine ⟨Valid.exact_of_rest ha, ⟨fun hside hexpects ht hne hfail => ?_, fun hfail => ?_,
    fun hrefresh => ?_⟩, ?_, ?_⟩
  · exact (ha.signal hI hside hexpects ht hne).of_error hfail
  · exact (ha.refresh hI).of_error hfail
  · obtain ⟨away, hb⟩ := ha.bench
    exact ((refresh_spec (E := fun _ => True) hb ha.feeds ha.holds fun _ _ => trivial).of_ok
      hrefresh).2.1
  · intro es' v' w' l hdirty hheld hc hquiet hstays
    exact ⟨stretch_keepsOutput ha hc hheld hquiet hstays,
      stretch_makes_none ha hc hheld hquiet hstays,
      stretch_refresh_keeps ha hc hheld hquiet hstays hdirty⟩
  · intro node' es' v' w' hl' htold hd hd' hdirty hdirty' l facts hf
    have ha' := hl'.attends (upholds node' (!expected) joiners)
    exact (Valid.exact_of_rest ha hd hdirty).opposite (Valid.exact_of_rest ha' hd' hdirty') htold hf

section Covering

open Rehearsal

/-- Two shifts come in on the left and a third one on the right, which has the worker of the first one.
Then the third one goes to the worker of the second one, and the first one changes where it is. -/
def coveringCues : List Cue :=
  [.told .insert .left ⟨0, 0⟩, .told .insert .left ⟨1, 0⟩, .told .insert .right ⟨2, 0⟩, .refreshed,
    .drained, .changed .right ⟨2, 0⟩ (shift 3 3 8 9), .changed .left ⟨0, 0⟩ (shift 1 4 7 10), .refreshed]

/-- A semijoin that passes shifts with another shift of the same worker, after these cues. -/
@[irreducible] def covered : View × Workbench SemijoinMemory :=
  ((handler ⟨1⟩ true sameWorker).rehearse? [shift 1 0 7 9, shift 2 1 8 9, shift 3 2 7 9]
    coveringCues).get (by decide +kernel)

theorem covered_rehearsed : Rehearsed (handler ⟨1⟩ true sameWorker) ⟨1⟩
    (coveringCues.flatMap Cue.events) covered.1 covered.2 := by
  unfold covered
  exact Handler.rehearsed (upholds ⟨1⟩ true sameWorker) (Option.some_get _).symm

theorem stands_exactly_covered :
    Life (handler ⟨1⟩ true sameWorker) ⟨1⟩ (coveringCues.flatMap Cue.events) covered.1 covered.2 ∧
      covered.1.Delivered ∧ covered.2.memory.dirty = [] ∧
      Exact sameWorker true ⟨1⟩ covered.1 covered.2 ∧
      Shows ⟨1⟩ covered.2 ⟨1, 0⟩ (shift 2 1 8 9) ∧ ¬ Shows ⟨1⟩ covered.2 ⟨0, 0⟩ (shift 1 4 7 10) := by
  have hlife := covered_rehearsed.life
  have hdelivered := covered_rehearsed.delivered
  have hdirty : covered.2.memory.dirty = [] := by decide +kernel
  have hshown : Shows ⟨1⟩ covered.2 ⟨1, 0⟩ (shift 2 1 8 9) :=
    ⟨⟨4, 0⟩, .single ⟨1, 0⟩, by decide +kernel, by decide +kernel⟩
  have hnone : covered.2.memory.output? ⟨0, 0⟩ = none := by decide +kernel
  refine ⟨hlife, hdelivered, hdirty, (stands_exactly hlife).1 hdelivered hdirty, hshown, ?_⟩
  rintro ⟨o, sources, ho, -⟩
  rw [hnone] at ho
  cases ho

end Covering

end SemijoinMemory

end ConstraintStreams
