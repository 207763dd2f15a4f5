import ConstraintStreams.Proofs.Image.Spec
import ConstraintStreams.Proofs.Operator.Join
import ConstraintStreams.Proofs.Operator.Rehearsal

/-!
# Joins are exact

Whatever the signals and whoever else works in between: once a join was told of every change, it has one
output for each pair of a left and a right input that belong together, and its lists and its indexes
say the same. Only the functions of the joiners and the limit on tuples can make a signal fail.
-/

namespace ConstraintStreams

/-- Filed under its key and nowhere else. -/
theorem JoinSide.Files.mem_find_iff {s : JoinSide} {joiners : List Joiner} {side : Side} {v : View}
    (h : s.Files joiners side v) (hd : v.Delivered) {x : TupleId} {key : JoinKey} :
    x ∈ s.index.find key ↔
      ∃ facts, v.told side x = some facts ∧ Joiner.keyOn joiners side facts = .ok key := by
  rw [h.filed.mem_find]
  constructor
  · intro hx
    obtain ⟨facts, hf⟩ := Option.isSome_iff_exists.1 ((h.lists x).1 (by rw [hx]; rfl))
    exact ⟨facts, hf, h.key (hd.known hf) hx⟩
  · rintro ⟨facts, hf, hkey⟩
    obtain ⟨k, hk⟩ := h.lists.get?_some (hd.known hf).held
    rw [hk, Except.ok.inj ((h.key (hd.known hf) hk).symm.trans hkey)]

namespace JoinMemory

/-- A join, as it is asked to do things. -/
def handler (node : NodeId) (joiners : List Joiner) : Handler JoinMemory where
  sides := [.left, .right]
  blank := {}
  signal side input signal := Network.signalJoin node joiners side input signal
  refresh := pure ()

/-- What a join can fail with: what its joiners fail with, and the limit on tuples. -/
inductive Fault (joiners : List Joiner) : Error → Prop
  | key {side facts e} (h : Joiner.keyOn joiners side facts = .error e) : Fault joiners e
  | accept {l r e} (h : Joiner.accept joiners l r = .error e) : Fault joiners e
  | limit (limit details) : Fault joiners (.resourceLimit limit details)

/-- A left and a right input, as the join was told of them, belong together in a tuple with the given
facts. -/
def Fits (joiners : List Joiner) (v : View) (l r : TupleId) (facts : Facts) : Prop :=
  ∃ fl fr, v.told .left l = some fl ∧ v.told .right r = some fr ∧
    Joiner.Matches joiners fl fr ∧ facts = fl ++ fr

/-- A join at rest: its open outputs are the pairs that fit, each once. An output is listed with its left
and its right input and nowhere else, and an input is filed under its key and nowhere else. -/
structure Exact (joiners : List Joiner) (node : NodeId) (v : View) (w : Workbench JoinMemory) :
    Prop where
  /-- What the join was told of an input is what the input is. -/
  current : ∀ {side x facts}, v.told side x = some facts → w.agenda.facts x = .ok facts
  shown : ∀ {l r facts}, Fits joiners v l r facts →
    ∃! o, w.agenda.openAt node o = some (facts, .pair l r)
  fits : ∀ {o facts sources}, w.agenda.openAt node o = some (facts, sources) →
    ∃ l r, sources = .pair l r ∧ Fits joiners v l r facts
  listed : ∀ {side}, side ∈ [Side.left, .right] → ∀ {o x},
    o ∈ (w.memory.own side).outputsOf x ↔
      ∃ y facts, w.agenda.openAt node o = some (facts, pairOn side x y)
  filed : ∀ {side}, side ∈ [Side.left, .right] → ∀ {x key},
    x ∈ (w.memory.own side).index.find key ↔
      ∃ facts, v.told side x = some facts ∧ Joiner.keyOn joiners side facts = .ok key
  /-- No list and no bucket holds anything twice. -/
  once : ∀ {side}, side ∈ [Side.left, .right] → ∀ x key,
    ((w.memory.own side).outputsOf x).Nodup ∧ ((w.memory.own side).index.find key).Nodup

variable {node : NodeId} {joiners : List Joiner} {v : View} {w w' : Workbench JoinMemory} {es : List Event}

/-- A join upholds `Valid`. -/
theorem upholds (node : NodeId) (joiners : List Joiner) :
    (handler node joiners).Upholds node (Fault joiners) fun v out m =>
      Valid joiners .left v (fun _ _ => False) out m.left m.right where
  blank hout := .empty hout fun _ _ => rfl
  fades hv h := h.fades hv
  signal hb hfeeds hv hside hexpects ht hne := by
    refine signal_spec hb hfeeds hv ?_ hexpects ht hne (fun _ _ _ => .accept) (fun _ _ => .key) .limit
    rintro rfl
    simp [handler] at hside
  refresh hb _ hv := ⟨hb, hv⟩

/-- The pairs of inputs that are known, seen from the left. -/
theorem Valid.fits {out : TupleId → Option (Facts × Sources)} {own other : JoinSide}
    (h : Valid joiners .left v (fun _ _ => False) out own other) (hd : v.Delivered) {o : TupleId}
    {facts : Facts} {sources : Sources} (ho : out o = some (facts, sources)) :
    ∃ l r, sources = .pair l r ∧ Fits joiners v l r facts := by
  obtain ⟨l, r, key, rfl, hl, hr⟩ := h.paired ho
  obtain ⟨fl, hfl⟩ := Option.isSome_iff_exists.1 ((h.files.lists l).1 (by rw [hl]; rfl))
  obtain ⟨fr, hfr⟩ := Option.isSome_iff_exists.1 ((h.filesAcross.lists r).1 (by rw [hr]; rfl))
  have hkl := hd.known hfl
  have hkr : v.Known Side.left.across r fr := hd.known hfr
  have haccept := (h.exact not_false hkl hkr hl hr).1 ⟨o, facts, ho⟩
  exact ⟨l, r, rfl, fl, fr, hfl, hfr, ⟨key, h.files.key hkl hl, h.filesAcross.key hkr hr, haccept⟩,
    h.shown not_false hkl hkr ho⟩

theorem Valid.shows {out : TupleId → Option (Facts × Sources)} {own other : JoinSide}
    (h : Valid joiners .left v (fun _ _ => False) out own other) (hd : v.Delivered) {l r : TupleId}
    {facts : Facts} (hfits : Fits joiners v l r facts) : ∃! o, out o = some (facts, .pair l r) := by
  obtain ⟨fl, fr, hfl, hfr, ⟨key, hkeyl, hkeyr, haccept⟩, rfl⟩ := hfits
  have hkl := hd.known hfl
  have hkr : v.Known Side.left.across r fr := hd.known hfr
  obtain ⟨kl, hl⟩ := h.files.lists.get?_some hkl.held
  obtain ⟨kr, hr⟩ := h.filesAcross.lists.get?_some hkr.held
  obtain rfl : kl = key := Except.ok.inj ((h.files.key hkl hl).symm.trans hkeyl)
  obtain rfl : kr = kl := Except.ok.inj ((h.filesAcross.key hkr hr).symm.trans hkeyr)
  obtain ⟨o, f, ho⟩ := (h.exact not_false hkl hkr hl hr).2 haccept
  obtain rfl : f = fl ++ fr := h.shown not_false hkl hkr ho
  exact ⟨o, ho, fun o' ho' => h.inj ho' ho⟩

theorem Valid.exact_of_delivered
    (ha : Attends node (fun v out m => Valid joiners .left v (fun _ _ => False) out m.left m.right) v w)
    (hd : v.Delivered) : Exact joiners node v w where
  current ht := ha.current hd ht
  shown hfits := ha.holds.shows hd hfits
  fits ho := ha.holds.fits hd ho
  listed hside o x := by
    rcases List.mem_pair.1 hside with rfl | rfl
    · exact ha.holds.carries.mem.trans exists_comm
    · exact ha.holds.carriesAcross.mem.trans exists_comm
  filed hside x key := by
    rcases List.mem_pair.1 hside with rfl | rfl
    · exact ha.holds.files.mem_find_iff hd
    · exact ha.holds.filesAcross.mem_find_iff hd
  once hside x key := by
    rcases List.mem_pair.1 hside with rfl | rfl
    · exact ⟨ha.holds.carries.nodup x, ha.holds.files.filed.nodup key⟩
    · exact ⟨ha.holds.carriesAcross.nodup x, ha.holds.filesAcross.filed.nodup key⟩

/-- What a join at rest shows depends only on what it was told. -/
theorem Exact.agree (h : Exact joiners node v w) (h' : Exact joiners node v w')
    {entry : Facts × Sources} (ho : ∃ o, w.agenda.openAt node o = some entry) :
    ∃ o, w'.agenda.openAt node o = some entry := by
  obtain ⟨o, ho⟩ := ho
  obtain ⟨facts, sources⟩ := entry
  obtain ⟨l, r, hs, hfits⟩ := h.fits ho
  obtain ⟨o', ho', -⟩ := h'.shown hfits
  exact ⟨o', ho'.trans (by rw [← hs])⟩

/-- Once a join was told of every change, its open outputs are the pairs that fit, each once, listed and
filed as they should be. A signal that is due fails only if a joiner does or at the limit on tuples.
And an update leaves the same pairs, with the same facts, as taking the input out and in again. -/
theorem pairs_exactly (hl : Life (handler node joiners) node es v w) :
    (v.Delivered → Exact joiners node v w) ∧
    (∀ {side x signal t e w'}, side ∈ [Side.left, .right] → v.Expects signal side x →
      w.agenda.find? x = some t → t.node ≠ node →
      Network.signalJoin node joiners side x signal w = .error e w' → Fault joiners e) ∧
    ∀ {side x t w₁ w₂ w₃}, side ∈ [Side.left, .right] → v.Held side x →
      w.agenda.find? x = some t → t.node ≠ node →
      Network.signalJoin node joiners side x .update w = .ok () w₁ →
      Network.signalJoin node joiners side x .retract w = .ok () w₂ →
      Network.signalJoin node joiners side x .insert w₂ = .ok () w₃ →
      (v.tell side x t.facts).Delivered → ∀ entry,
      (∃ o, w₁.agenda.openAt node o = some entry) ↔ ∃ o, w₃.agenda.openAt node o = some entry := by
  have hI := upholds node joiners
  have ha := hl.attends hI
  refine ⟨Valid.exact_of_delivered ha, fun hside hexpects ht hne hfail => ?_, ?_⟩
  · exact (ha.signal hI hside hexpects ht hne).of_error hfail
  · intro side x t w₁ w₂ w₃ hside hheld ht hne hupdate hretract hinsert hd entry
    have hchanges : v.Expects .update side x := by simpa [View.Expects] using hheld
    have hleaves : v.Expects .retract side x := by simpa [View.Expects] using hheld
    have henters : (v.drop side x).Expects .insert side x := by simp [View.Expects]
    have hupdated := hl.step (.told hside hchanges ht hne hupdate)
    have hdropped := hl.step (.told hside hleaves ht hne hretract)
    have ht₂ : w₂.agenda.find? x = some t :=
      ((ha.signal hI hside hleaves ht hne).of_ok hretract).1.other ht hne
    have hinserted := hdropped.step (.told hside henters ht₂ hne hinsert)
    have h₁ := Valid.exact_of_delivered (hupdated.attends hI) hd
    have h₃ := Valid.exact_of_delivered (hinserted.attends hI) (by
      show ((v.drop side x).tell side x t.facts).Delivered
      rwa [View.tell_drop])
    have h₃' : Exact joiners node (v.tell side x t.facts) w₃ := by
      rw [← View.tell_drop]
      exact h₃
    exact ⟨h₁.agree h₃', h₃'.agree h₁⟩

section Rota

open Rehearsal

/-- Two shifts come in on the left, one of them and a third one on the right. Then the second one goes to
the worker of the others, the third one to somebody else, and the first one is withdrawn on the left. -/
def rotaCues : List Cue :=
  [.told .insert .left ⟨0, 0⟩, .told .insert .left ⟨1, 0⟩, .told .insert .right ⟨2, 0⟩,
    .told .insert .right ⟨3, 0⟩, .drained, .changed .left ⟨1, 0⟩ (shift 2 4 7 9),
    .changed .right ⟨3, 0⟩ (shift 3 5 8 9), .told .retract .left ⟨0, 0⟩]

/-- A join of different shifts of one worker, after these cues. -/
@[irreducible] def rota : View × Workbench JoinMemory :=
  ((handler ⟨1⟩ sameWorker).rehearse? [shift 1 0 7 9, shift 2 1 8 9, shift 1 2 7 9, shift 3 3 7 9]
    rotaCues).get (by decide +kernel)

theorem rota_rehearsed :
    Rehearsed (handler ⟨1⟩ sameWorker) ⟨1⟩ (rotaCues.flatMap Cue.events) rota.1 rota.2 := by
  unfold rota
  exact Handler.rehearsed (upholds ⟨1⟩ sameWorker) (Option.some_get _).symm

/-- The join, when the second shift has changed. -/
def rotaUpdated : Workbench JoinMemory :=
  (Action.outcome? (Network.signalJoin ⟨1⟩ sameWorker .left ⟨1, 0⟩ .update) rota.2).get
    (by decide +kernel)

/-- The join without the second shift. -/
def rotaWithout : Workbench JoinMemory :=
  (Action.outcome? (Network.signalJoin ⟨1⟩ sameWorker .left ⟨1, 0⟩ .retract) rota.2).get
    (by decide +kernel)

/-- The same join, to which the second shift has come again. -/
def rotaRestored : Workbench JoinMemory :=
  (Action.outcome? (Network.signalJoin ⟨1⟩ sameWorker .left ⟨1, 0⟩ .insert) rotaWithout).get
    (by decide +kernel)

theorem pairs_exactly_rota :
    Life (handler ⟨1⟩ sameWorker) ⟨1⟩ (rotaCues.flatMap Cue.events) rota.1 rota.2 ∧
      rota.1.Delivered ∧ Exact sameWorker ⟨1⟩ rota.1 rota.2 ∧
      Fits sameWorker rota.1 ⟨1, 0⟩ ⟨2, 0⟩ (shift 2 4 7 9 ++ shift 1 2 7 9) ∧
      rota.2.agenda.openAt ⟨1⟩ ⟨5, 0⟩ = some (shift 2 4 7 9 ++ shift 1 2 7 9, .pair ⟨1, 0⟩ ⟨2, 0⟩) ∧
      rota.2.memory.left.outputsOf ⟨1, 0⟩ = [⟨5, 0⟩] ∧
      ∀ entry, (∃ o, rotaUpdated.agenda.openAt ⟨1⟩ o = some entry) ↔
        ∃ o, rotaRestored.agenda.openAt ⟨1⟩ o = some entry := by
  obtain ⟨hlife, -, hdelivered⟩ := rota_rehearsed
  obtain ⟨hexact, -, hupdate⟩ := pairs_exactly hlife
  have hshown : rota.2.agenda.openAt ⟨1⟩ ⟨5, 0⟩
      = some (shift 2 4 7 9 ++ shift 1 2 7 9, .pair ⟨1, 0⟩ ⟨2, 0⟩) := by decide +kernel
  have hfits : Fits sameWorker rota.1 ⟨1, 0⟩ ⟨2, 0⟩ (shift 2 4 7 9 ++ shift 1 2 7 9) := by
    obtain ⟨l, r, hlr, hfits⟩ := (hexact hdelivered).fits hshown
    cases hlr
    exact hfits
  have hfind : rota.2.agenda.find? ⟨1, 0⟩ = some ⟨shift 2 4 7 9, ⟨0⟩, .creating, .none⟩ := by
    decide +kernel
  refine ⟨hlife, hdelivered, hexact hdelivered, hfits, hshown, by decide +kernel, ?_⟩
  exact hupdate (by simp) (by decide +kernel) hfind (by decide) (Action.eq_ok_outcome _)
    (Action.eq_ok_outcome _) (Action.eq_ok_outcome _) (hdelivered.tell _ _ _)

end Rota

end JoinMemory

end ConstraintStreams
