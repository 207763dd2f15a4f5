import ConstraintStreams.Proofs.Operator.Distinct
import ConstraintStreams.Proofs.Operator.Rehearsal

/-!
# Distinct nodes are exact

Whatever the signals and whoever else works in between: a distinct node has one class for everything
that its inputs stand for, as it was last told about them. A class counts its inputs, it has one output,
and while it has inputs it keeps that output, also when the input that founded it moves to another class.
-/

namespace ConstraintStreams

open ConstraintStreams.Action (Keeps)
open Work

/-- The view of a node that goes by what it was told: whatever it holds is as it was told to be, and
nothing has come lately. -/
def View.asTold (v : View) : View where
  told := v.told
  fresh := v.Held
  recent _ _ := False

theorem View.Fades.asTold {v v' : View} (h : View.Fades v v') : View.Fades v.asTold v'.asTold where
  told := h.told
  fresh := h.held.1

theorem View.fades_asTold_after (v : View) (signal : Signal) (side : Side) (input : TupleId)
    (facts : Facts) :
    View.Fades (v.asTold.after signal side input facts) (v.after signal side input facts).asTold := by
  cases signal with
  | insert => exact ⟨rfl, held_tell.1⟩
  | update => exact ⟨rfl, held_tell.1⟩
  | retract => exact ⟨rfl, held_drop.1⟩

namespace DistinctMemory

/-- A distinct node, as it is asked to do things. -/
def handler (node : NodeId) : Handler DistinctMemory where
  sides := [.only]
  blank := {}
  signal _ input signal := Network.signalDistinct node input signal
  refresh := pure ()

/-- A distinct node can only fail at the limit on tuples. -/
inductive Fault : Error → Prop
  | limit (limit details) : Fault (.resourceLimit limit details)

/-- An input whose facts, as the node was last told of them, stand for the given ones. -/
def Member (v : View) (identity : Facts) (x : TupleId) : Prop :=
  ∃ facts, v.told .only x = some facts ∧ facts.identity = identity

/-- A distinct node between two events. -/
structure Exact (node : NodeId) (v : View) (w : Workbench DistinctMemory) : Prop where
  /-- The classes are those of the inputs. -/
  present : ∀ {identity}, (∃ c, w.memory.classes.get? identity = some c) ↔ ∃ x, Member v identity x
  /-- A class counts its inputs. -/
  size_eq : ∀ {identity c}, w.memory.classes.get? identity = some c →
    ∃ inputs : List TupleId, inputs.Nodup ∧ (∀ x, x ∈ inputs ↔ Member v identity x) ∧
      c.size = inputs.length
  shows : ∀ {identity c}, w.memory.classes.get? identity = some c → ∃ facts sources,
    w.agenda.openAt node c.output = some (facts, sources) ∧ facts.identity = identity
  /-- Every open output is that of the class that its facts stand for. -/
  owned : ∀ {o facts sources}, w.agenda.openAt node o = some (facts, sources) →
    ∃ c, w.memory.classes.get? facts.identity = some c ∧ c.output = o

variable {node : NodeId} {v v' : View} {w w' : Workbench DistinctMemory} {es : List Event}
  {m : DistinctMemory} {out : TupleId → Option (Facts × Sources)} {input o x : TupleId}
  {identity facts : Facts} {c : DistinctClass} {t : Tuple}

/-- A distinct node upholds `Valid`, with its inputs taken as it was told of them. -/
theorem upholds (node : NodeId) :
    (handler node).Upholds node Fault fun v out m => Valid v.asTold out m where
  blank hout := .empty hout fun _ _ => rfl
  fades hv h := h.fades hv.asTold
  signal := by
    intro away v m g signal side input t hb _ hv hside hexpects ht hne
    obtain rfl := List.mem_singleton.1 hside
    refine (signal_spec hb hv (.start fun _ _ => not_false) hexpects not_false ht hne .limit
      fun _ => Agenda.openAt_of_none node).mono fun _ w' ⟨hb', hv', _⟩ => ⟨hb', hv'.fades ?_⟩
    exact v.fades_asTold_after signal .only input t.facts
  refresh hb _ hv := ⟨hb, hv⟩

/-! ## The classes -/

theorem Valid.member_iff (h : Valid v.asTold out m) :
    m.members.get? x = some identity ↔ Member v identity x := by
  have heq {facts : Facts} (hf : v.told .only x = some facts) (i : Facts)
      (hm : m.members.get? x = some i) : facts.identity = i :=
    h.same hm ⟨by simp [View.asTold, View.Held, hf], hf⟩
  constructor
  · intro hm
    obtain ⟨facts, hf⟩ := Option.isSome_iff_exists.1 ((h.held x).1 (by rw [hm]; rfl))
    exact ⟨facts, hf, heq hf identity hm⟩
  · rintro ⟨facts, hf, rfl⟩
    obtain ⟨i, hi⟩ := h.held.get?_some (show v.asTold.Held .only x by
      simp [View.asTold, View.Held, hf])
    rw [hi, heq hf i hi]

theorem Valid.present (h : Valid v.asTold out m) :
    (∃ c, m.classes.get? identity = some c) ↔ ∃ x, Member v identity x := by
  simp only [← h.member_iff]
  constructor
  · rintro ⟨c, hc⟩
    obtain ⟨hsize, hpos⟩ := h.size_eq hc
    exact Table.mem_values.1 (List.count_pos_iff.1 (hsize ▸ hpos))
  · rintro ⟨x, hx⟩
    exact h.classed hx

theorem Valid.exact (h : Valid v.asTold (w.agenda.openAt node) w.memory) : Exact node v w where
  present := h.present
  size_eq hc := by
    obtain ⟨inputs, hnodup, hmem, hcount⟩ := w.memory.members.exists_keys_of_value _
    exact ⟨inputs, hnodup, fun x => (hmem x).trans h.member_iff, (h.size_eq hc).1.trans hcount⟩
  shows {identity c} hc := by
    have ho : w.memory.output? identity = some c.output := by simp [output?, hc]
    obtain ⟨⟨facts, sources⟩, hopen⟩ := h.listing.opened ho
    exact ⟨facts, sources, hopen, h.stands (by rw [outputUnder, ho]; exact hopen)⟩
  owned {o facts sources} ho := by
    obtain ⟨identity, hi⟩ := h.listing.owned ho
    obtain rfl : facts.identity = identity := h.stands (by rw [outputUnder, hi]; exact ho)
    exact Option.map_eq_some_iff.1 hi

/-! ## What a signal leaves of an output -/

/-- A new member leaves every class its output. -/
theorem keepsOutput_insert (node : NodeId) (input : TupleId) :
    Keeps (In fun m => m.output? identity = some o) (insert node input) := by
  refine .bind (keeps_facts input) fun facts => keepsIn_memory_bind fun m hm => ?_
  have written {m' : DistinctMemory} {c : DistinctClass} (hm' : m'.output? identity = some o)
      (hc : facts.identity = identity → c.output = o) :
      output? { m' with classes := m'.classes.insert facts.identity c } identity = some o := by
    rw [output?, Table.get?_insert]
    split
    · next he => exact congrArg some (hc he)
    · exact hm'
  have enrolled : Keeps (In fun m => m.output? identity = some o)
      (modifyMemory fun m : DistinctMemory =>
        { m with members := m.members.insert input facts.identity }) :=
    keepsIn_modifyMemory fun _ h => h
  split
  · next c hc =>
    refine .bind (keepsIn_modifyMemory fun m' hm' => written hm' fun he => ?_) fun _ => enrolled
    rw [output?, ← he, hc] at hm
    exact Option.some.inj hm
  · next hc =>
    refine .bind (keepsIn_onAgenda _) fun _ =>
      .bind (keepsIn_modifyMemory fun m' hm' => written hm' fun he => ?_) fun _ => enrolled
    rw [output?, ← he, hc] at hm
    cases hm

/-- A member that leaves takes the output of its class along only if it was alone there. -/
theorem ensures_output_retract {g : Agenda} (ho : m.output? identity = some o)
    (hothers : m.members.get? input = some identity →
      ∃ c, m.classes.get? identity = some c ∧ c.size ≠ 1) :
    Action.Ensures (fun _ => True) (retract input) ⟨m, g⟩
      fun _ => In fun m => m.output? identity = some o := by
  unfold retract
  rw [Action.ensures_bind, Bench.ensures_memory]
  split
  · trivial
  · next left hleft =>
    rw [Action.ensures_bind, Bench.ensures_setMemory]
    dsimp only
    split
    · trivial
    · next c hc =>
      simp only [Action.ensures_bind, Action.ensures_lift]
      refine ⟨fun size hsize => ?_, fun _ _ => trivial⟩
      split
      · next hzero =>
        have hne : left ≠ identity := by
          rintro rfl
          obtain ⟨c', hc', hsize'⟩ := hothers hleft
          obtain rfl : c = c' := Option.some.inj (hc.symm.trans hc')
          unfold countDown at hsize
          split at hsize
          · cases hsize
          · cases hsize
            omega
        rw [Action.ensures_bind, Bench.ensures_setMemory]
        refine (keepsIn_onAgenda _).ensures ?_
        show Option.map _ ((m.classes.erase left).get? identity) = some o
        rw [Table.get?_erase, if_neg hne]
        exact ho
      · rw [Bench.ensures_setMemory]
        show Option.map _ ((m.classes.insert left _).get? identity) = some o
        rw [Table.get?_insert]
        split
        · next he =>
          subst he
          rwa [output?, hc] at ho
        · exact ho

/-- A member that changes takes the output of its class along only if it was alone there and moves. -/
theorem ensures_output_update {g : Agenda} (ho : m.output? identity = some o)
    (ht : g.find? input = some t)
    (hothers : m.members.get? input = some identity → t.facts.identity ≠ identity →
      ∃ c, m.classes.get? identity = some c ∧ c.size ≠ 1) :
    Action.Ensures (fun _ => True) (update node input) ⟨m, g⟩
      fun _ => In fun m => m.output? identity = some o := by
  unfold update
  rw [Action.ensures_bind, Bench.ensures_memory]
  split
  · trivial
  · next old hold =>
    rw [Action.ensures_bind, Bench.ensures_facts ht]
    split
    · split
      · trivial
      · refine Keeps.ensures (.bind (keeps_facts _) fun _ => ?_) ho
        split
        · exact keepsIn_refreshTuple _ _
        · exact .pure _
    · next hmoved =>
      rw [Action.ensures_bind]
      refine (ensures_output_retract ho fun hm => hothers hm fun he => hmoved ?_).mono
        fun _ w' h => (keepsOutput_insert node input).ensures h
      rw [he, ← Option.some.inj (hold.symm.trans hm)]

/-- A class with two members counts more than one. -/
theorem Valid.size_ne_one (h : Valid v out m) {y : TupleId} (hx : m.members.get? x = some identity)
    (hy : m.members.get? y = some identity) (hne : x ≠ y) :
    ∃ c, m.classes.get? identity = some c ∧ c.size ≠ 1 := by
  obtain ⟨c, hc⟩ := h.classed hx
  obtain ⟨members, -, hmem, hcount⟩ := m.members.exists_keys_of_value identity
  refine ⟨c, hc, fun hone => hne ?_⟩
  rw [← (h.size_eq hc).1, hone] at hcount
  obtain ⟨z, rfl⟩ := List.length_eq_one_iff.1 hcount.symm
  rw [List.mem_singleton.1 ((hmem x).2 hx), List.mem_singleton.1 ((hmem y).2 hy)]

/-- A signal leaves a class that has members afterwards the output it had before. -/
theorem Valid.output_of_signal (h : Valid v.asTold out m) {g : Agenda} {signal : Signal}
    (ho : m.output? identity = some o) (ht : g.find? input = some t)
    (hsome : ∃ x, Member (v.after signal .only input t.facts) identity x) :
    Action.Ensures (fun _ => True) (Network.signalDistinct node input signal) ⟨m, g⟩
      fun _ => In fun m => m.output? identity = some o := by
  obtain ⟨x, facts, htold, hidentity⟩ := hsome
  have hother (hne : input ≠ x)
      (hsame : (v.after signal .only input t.facts).told .only x = v.told .only x)
      (hm : m.members.get? input = some identity) :
      ∃ c, m.classes.get? identity = some c ∧ c.size ≠ 1 :=
    h.size_ne_one hm (h.member_iff.2 ⟨facts, hsame ▸ htold, hidentity⟩) hne
  cases signal with
  | insert => exact (keepsOutput_insert node input).ensures ho
  | update =>
    refine ensures_output_update ho ht fun hm hmoved => ?_
    have hne : input ≠ x := by
      rintro rfl
      obtain rfl : t.facts = facts := by simpa [View.after, View.tell] using htold
      exact hmoved hidentity
    exact hother hne (by simp [View.after, View.tell, hne]) hm
  | retract =>
    refine ensures_output_retract ho fun hm => ?_
    have hne : input ≠ x := by
      rintro rfl
      simp [View.after, View.drop] at htold
    exact hother hne (by simp [View.after, View.drop, hne]) hm

/-! ## At all times -/

/-- The classes of a distinct node are those of its inputs, as it was last told of them: each counts its
inputs and has one output, which stands for the same. A signal that is due fails only at the limit on
tuples. And a class that has inputs before and after an event has kept its output. -/
theorem classes_exactly (hl : Life (handler node) node es v w) :
    Exact node v w ∧
    (∀ {x signal t e w'}, v.Expects signal .only x → w.agenda.find? x = some t → t.node ≠ node →
      Network.signalDistinct node x signal w = .error e w' → Fault e) ∧
    ∀ {e v' w' identity o}, Step (handler node) node e v w v' w' →
      w.memory.output? identity = some o → (∃ x, Member v' identity x) →
      w'.memory.output? identity = some o := by
  have hI := upholds node
  have ha := hl.attends hI
  refine ⟨ha.holds.exact, fun hexpects ht hne hfail => ?_, fun hs ho hsome => ?_⟩
  · exact (ha.signal hI (List.mem_singleton_self _) hexpects ht hne).of_error hfail
  · cases hs with
    | told hside hexpects ht hne hcall =>
      obtain rfl := List.mem_singleton.1 hside
      exact (ha.holds.output_of_signal ho ht hsome).of_ok hcall
    | refreshed hcall => cases hcall; exact ho
    | drained => exact ho
    | elsewhere => exact ho

section Versions

open Rehearsal

/-- Two versions of a shift come in and a third one of another shift. Then the version that founded its
class is withdrawn, and the tuple of the other shift gets a version of the first one. -/
def versionCues : List Cue :=
  [.told .insert .only ⟨0, 0⟩, .told .insert .only ⟨1, 0⟩, .told .insert .only ⟨2, 0⟩, .drained,
    .told .retract .only ⟨0, 0⟩, .changed .only ⟨2, 0⟩ (shift 1 3 8 9)]

/-- A distinct node after these cues. -/
@[irreducible] def versions : View × Workbench DistinctMemory :=
  ((handler ⟨1⟩).rehearse? [shift 1 0 7 8, shift 1 1 7 9, shift 2 2 8 9] versionCues).get
    (by decide +kernel)

theorem versions_rehearsed :
    Rehearsed (handler ⟨1⟩) ⟨1⟩ (versionCues.flatMap Cue.events) versions.1 versions.2 := by
  unfold versions
  exact Handler.rehearsed (upholds ⟨1⟩) (Option.some_get _).symm

/-- One class is left, of two inputs, with the output that the founder has left behind. -/
theorem classes_exactly_versions :
    Life (handler ⟨1⟩) ⟨1⟩ (versionCues.flatMap Cue.events) versions.1 versions.2 ∧
      Exact ⟨1⟩ versions.1 versions.2 ∧
      versions.2.memory.classes.values = [⟨2, ⟨3, 0⟩⟩] ∧
      versions.2.memory.classes.get? (Facts.identity (shift 1 0 7 8)) = some ⟨2, ⟨3, 0⟩⟩ ∧
      versions.2.agenda.openAt ⟨1⟩ ⟨3, 0⟩ = some (shift 1 0 7 8, .single ⟨0, 0⟩) ∧
      versions.2.agenda.openAt ⟨1⟩ ⟨4, 0⟩ = none := by
  have hlife := versions_rehearsed.life
  exact ⟨hlife, (classes_exactly hlife).1, by decide +kernel, by decide +kernel, by decide +kernel,
    by decide +kernel⟩

end Versions

end DistinctMemory

end ConstraintStreams
