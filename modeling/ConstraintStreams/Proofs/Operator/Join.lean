import Mathlib.Data.List.Nodup
import ConstraintStreams.Network.Basic
import ConstraintStreams.Proofs.Joiner.Index
import ConstraintStreams.Proofs.Operator.Bench

/-!
# Joins pair what fits

The outputs of a join are the pairs of inputs with one key that the joiners accept, each made once and
listed with both of its inputs. Both sides of a join work alike, so everything here is said of an
input on some side and of its partners on the side across.
-/

namespace ConstraintStreams

/-- The side of a join across from another. -/
def Side.across : Side → Side
  | .right => .left
  | _ => .right

namespace JoinMemory

/-! ## Pairs, from either side -/

/-- The sources of the pair of an input on a side with a partner. -/
def pairOn (side : Side) (x y : TupleId) : Sources :=
  .pair (orient side x y).1 (orient side x y).2

/-- What the joiners say about an input on a side and a partner. -/
def acceptOn (joiners : List Joiner) (side : Side) (fx fy : Facts) : Except Error Bool :=
  match side with
  | .right => Joiner.accept joiners fy fx
  | _ => Joiner.accept joiners fx fy

/-- The facts of the pair of an input on a side with a partner. -/
def joinOn (side : Side) (fx fy : Facts) : Facts :=
  match side with
  | .right => fy ++ fx
  | _ => fx ++ fy

variable {side : Side} {x y z : TupleId}

theorem across_across (h : side ≠ .only) : side.across.across = side := by
  cases side <;> simp_all [Side.across]

theorem across_ne (h : side ≠ .only) : side ≠ side.across := by
  cases side <;> simp_all [Side.across]

theorem pairOn_across (side : Side) (x y : TupleId) : pairOn side.across y x = pairOn side x y := by
  cases side <;> rfl

theorem acceptOn_across (joiners : List Joiner) (side : Side) (fx fy : Facts) :
    acceptOn joiners side.across fy fx = acceptOn joiners side fx fy := by
  cases side <;> rfl

theorem joinOn_across (side : Side) (fx fy : Facts) : joinOn side.across fy fx = joinOn side fx fy := by
  cases side <;> rfl

theorem pairOn_inj {x' y' : TupleId} : pairOn side x y = pairOn side x' y' ↔ x = x' ∧ y = y' := by
  cases side <;> simp [pairOn, orient, and_comm]

@[simp] theorem partner?_pairOn : partner? side (pairOn side x y) = some y := by
  cases side <;> rfl

variable {m : JoinMemory} {f : JoinSide → JoinSide}

@[simp] theorem own_modifyOwn : (m.modifyOwn side f).own side = f (m.own side) := by
  cases side <;> rfl

@[simp] theorem other_modifyOwn : (m.modifyOwn side f).other side = m.other side := by
  cases side <;> rfl

@[simp] theorem own_modifyOther : (m.modifyOther side f).own side = m.own side := by
  cases side <;> rfl

@[simp] theorem other_modifyOther : (m.modifyOther side f).other side = f (m.other side) := by
  cases side <;> rfl

end JoinMemory

namespace JoinSide

open JoinMemory (pairOn pairOn_across pairOn_inj)

variable {s : JoinSide} {side : Side} {x y z o o' : TupleId} {facts f : Facts} {key : JoinKey}
  {v v' : View} {joiners : List Joiner} {out out' : TupleId → Option (Facts × Sources)}

theorem outputsOf_addOutput :
    (s.addOutput x o).outputsOf z =
      if x = z then (s.outputsOf x).insert o else s.outputsOf z := by
  unfold addOutput outputsOf
  rw [Table.get?_insert]
  split <;> rfl

theorem outputsOf_removeOutput :
    (s.removeOutput x o).outputsOf z =
      if x = z then (s.outputsOf x).erase o else s.outputsOf z := by
  unfold removeOutput outputsOf
  rw [Table.get?_modify]
  split
  · next he =>
    subst he
    cases s.outputs.get? x <;> rfl
  · rfl

theorem outputsOf_file : (s.file x key).outputsOf z = s.outputsOf z := by
  unfold file outputsOf
  rw [Table.get?_insert]
  split
  · next he => subst he; rfl
  · rfl

/-- A side lists and files its inputs under their keys. -/
structure Files (joiners : List Joiner) (side : Side) (v : View) (s : JoinSide) : Prop where
  lists : v.Lists side s.keys
  filed : Filed s.index s.keys
  key : ∀ {x facts key}, v.Known side x facts → s.keys.get? x = some key →
    Joiner.keyOn joiners side facts = .ok key
  noted : ∀ x, s.keys.get? x = none → s.outputs.get? x = none

/-- A side remembers, of each of its inputs, the outputs it takes part in. -/
structure Carries (side : Side) (s : JoinSide) (out : TupleId → Option (Facts × Sources)) : Prop where
  mem : ∀ {o x}, o ∈ s.outputsOf x ↔ ∃ f y, out o = some (f, pairOn side x y)
  nodup : ∀ x, (s.outputsOf x).Nodup

theorem Files.fades (h : Files joiners side v s) (hv : View.Fades v v') : Files joiners side v' s where
  lists := h.lists.fades hv
  filed := h.filed
  key hk := h.key (hv.known hk)
  noted := h.noted

theorem Files.empty (hv : ∀ side input, v.told side input = none) :
    Files joiners side v {} where
  lists := .empty hv
  filed := .empty
  key hk := by simp [View.Known, hv] at hk
  noted _ _ := rfl

theorem Files.follows (h : Files joiners side v s) :
    v.Follows side (fun facts key => Joiner.keyOn joiners side facts = .ok key) s.keys :=
  fun _ _ _ => h.key

/-- What happens on one side is nothing to the other. -/
theorem Files.tell_across {side' : Side} (h : Files joiners side v s) (hne : side' ≠ side)
    (facts : Facts) : Files joiners side (v.tell side' x facts) s where
  lists := h.lists.tell_across hne facts
  filed := h.filed
  key hk := h.follows.tell_across hne facts hk
  noted := h.noted

theorem Files.drop_across {side' : Side} (h : Files joiners side v s) (hne : side' ≠ side) :
    Files joiners side (v.drop side' x) s where
  lists := h.lists.drop_across hne
  filed := h.filed
  key hk := h.follows.drop hk
  noted := h.noted

theorem Files.file (h : Files joiners side v s) (hnew : ¬ v.Held side x)
    (hkey : Joiner.keyOn joiners side facts = .ok key) :
    Files joiners side (v.tell side x facts) (s.file x key) where
  lists := h.lists.insert facts key
  filed := h.filed.insert (h.lists.get?_none hnew) key
  key hk := h.follows.insert hkey hk
  noted := by
    intro z hz
    unfold JoinSide.file at hz ⊢
    rw [Table.get?_insert] at hz ⊢
    split at hz
    · cases hz
    · next hne => rw [if_neg hne, h.noted z hz]

theorem Files.keep (h : Files joiners side v s) (hold : s.keys.get? x = some key)
    (hkey : Joiner.keyOn joiners side facts = .ok key) :
    Files joiners side (v.tell side x facts) s where
  lists := h.lists.tell ((h.lists x).1 (by simp [hold])) facts
  filed := h.filed
  key hk := h.follows.tell hold hkey hk
  noted := h.noted

theorem Files.erase (h : Files joiners side v s) (hold : s.keys.get? x = some key) :
    Files joiners side (v.drop side x)
      { index := s.index.erase key x, keys := s.keys.erase x, outputs := s.outputs.erase x } where
  lists := h.lists.erase
  filed := h.filed.erase hold
  key hk := h.follows.erase hk
  noted := by
    intro z hz
    dsimp only at hz ⊢
    rw [Table.get?_erase] at hz ⊢
    split at hz
    · next he => rw [if_pos he]
    · next hne => rw [if_neg hne, h.noted z hz]

theorem Files.addOutput (h : Files joiners side v s) (hx : s.keys.get? x = some key) :
    Files joiners side v (s.addOutput x o) where
  lists := h.lists
  filed := h.filed
  key := h.key
  noted := by
    intro z hz
    have hne : x ≠ z := by
      rintro rfl
      exact Option.some_ne_none key (hx.symm.trans hz)
    rw [JoinSide.addOutput, Table.get?_insert, if_neg hne]
    exact h.noted z hz

theorem Files.removeOutput (h : Files joiners side v s) :
    Files joiners side v (s.removeOutput x o) where
  lists := h.lists
  filed := h.filed
  key := h.key
  noted := by
    intro z hz
    rw [JoinSide.removeOutput, Table.get?_modify]
    split
    · next he => rw [he, h.noted z hz, Option.map_none]
    · exact h.noted z hz

/-- A side that was told nothing remembers nothing. -/
theorem Files.eq_empty (h : Files joiners side v s) (hv : ∀ side input, v.told side input = none) :
    s = {} := by
  have hkeys : s.keys = ∅ := h.lists.eq_empty hv
  have hindex : s.index = ∅ := by
    have hfiled := h.filed
    rw [hkeys] at hfiled
    exact hfiled.eq_empty
  have houtputs : s.outputs = ∅ := Table.eq_empty fun x => h.noted x (by rw [hkeys]; rfl)
  obtain ⟨index, keys, outputs⟩ := s
  cases hkeys
  cases hindex
  cases houtputs
  rfl

theorem Carries.empty (hout : ∀ o, out o = none) : Carries side {} out where
  mem := by simp [hout, outputsOf, EmptyCollection.emptyCollection]
  nodup x := by simp [outputsOf, EmptyCollection.emptyCollection]

theorem Carries.file (h : Carries side s out) : Carries side (s.file x key) out where
  mem := by
    intro o z
    rw [outputsOf_file]
    exact h.mem
  nodup z := by
    rw [outputsOf_file]
    exact h.nodup z

theorem Carries.add (h : Carries side s out) (hnew : out o = none)
    (hout : ∀ z, out' z = if o = z then some (facts, pairOn side x y) else out z) :
    Carries side (s.addOutput x o) out' where
  mem := by
    intro o' z
    have hnot : ∀ z, o ∉ s.outputsOf z := fun z hm => by
      obtain ⟨f, w, hf⟩ := h.mem.1 hm
      rw [hnew] at hf
      cases hf
    rw [outputsOf_addOutput, hout]
    by_cases hx : x = z
    · subst hx
      rw [if_pos rfl, List.mem_insert_iff]
      by_cases ho : o = o'
      · subst ho
        simp [pairOn_inj]
      · rw [if_neg ho, ← h.mem]
        simp [Ne.symm ho]
    · rw [if_neg hx]
      by_cases ho : o = o'
      · subst ho
        simp [hnot, pairOn_inj, hx]
      · rw [if_neg ho]
        exact h.mem
  nodup z := by
    rw [outputsOf_addOutput]
    split
    · exact (h.nodup x).insert
    · exact h.nodup z

theorem Carries.remove (h : Carries side s out) (ho : out o = some (facts, pairOn side x y))
    (hout : ∀ z, out' z = if o = z then none else out z) : Carries side (s.removeOutput x o) out' where
  mem := by
    intro o' z
    rw [outputsOf_removeOutput, hout]
    by_cases hx : x = z
    · subst hx
      rw [if_pos rfl, (h.nodup x).mem_erase_iff, h.mem]
      by_cases he : o = o'
      · simp [he]
      · simp [he, Ne.symm he]
    · rw [if_neg hx, h.mem]
      by_cases he : o = o'
      · subst he
        simp [ho, pairOn_inj, hx]
      · simp [he]
  nodup z := by
    rw [outputsOf_removeOutput]
    split
    · exact (h.nodup x).erase o
    · exact h.nodup z

theorem Carries.change {sources : Sources} (h : Carries side s out) (ho : out o = some (f, sources))
    (hout : ∀ z, out' z = if o = z then some (facts, sources) else out z) : Carries side s out' where
  mem := by
    intro o' z
    rw [h.mem, hout]
    by_cases he : o = o'
    · subst he
      simp [ho]
    · simp [he]
  nodup := h.nodup

end JoinSide

namespace JoinMemory

variable {E : Error → Prop} {node : NodeId} {away : List TupleId} {g₀ g : Agenda}
  {own other own' other' : JoinSide} {out out' : TupleId → Option (Facts × Sources)} {v v' : View}
  {joiners : List Joiner} {side : Side} {x y o : TupleId} {t : Tuple} {facts f : Facts}
  {key : JoinKey} {skip skip' : TupleId → TupleId → Prop}

/-- The outputs of a join, seen from one of its sides. The pairs in `skip` are still to be looked
at. -/
structure Paired (joiners : List Joiner) (side : Side) (v : View) (skip : TupleId → TupleId → Prop)
    (out : TupleId → Option (Facts × Sources)) (own other : JoinSide) : Prop where
  files : own.Files joiners side v
  filesAcross : other.Files joiners side.across v
  carries : own.Carries side out
  paired : ∀ {o facts sources}, out o = some (facts, sources) → ∃ x y key,
    sources = pairOn side x y ∧ own.keys.get? x = some key ∧ other.keys.get? y = some key
  inj : ∀ {o o' f f' sources}, out o = some (f, sources) → out o' = some (f', sources) → o = o'
  exact : ∀ {x y fx fy key}, ¬ skip x y → v.Known side x fx → v.Known side.across y fy →
    own.keys.get? x = some key → other.keys.get? y = some key →
    ((∃ o f, out o = some (f, pairOn side x y)) ↔ acceptOn joiners side fx fy = .ok true)
  shown : ∀ {x y fx fy o f}, ¬ skip x y → v.Known side x fx → v.Known side.across y fy →
    out o = some (f, pairOn side x y) → f = joinOn side fx fy

/-- What holds of the memory of a join between signals, seen from one of its sides. -/
structure Valid (joiners : List Joiner) (side : Side) (v : View) (skip : TupleId → TupleId → Prop)
    (out : TupleId → Option (Facts × Sources)) (own other : JoinSide) : Prop
    extends Paired joiners side v skip out own other where
  carriesAcross : other.Carries side.across out

theorem Paired.fades (h : Paired joiners side v skip out own other) (hv : View.Fades v v') :
    Paired joiners side v' skip out own other where
  files := h.files.fades hv
  filesAcross := h.filesAcross.fades hv
  carries := h.carries
  paired := h.paired
  inj := h.inj
  exact hs hx hy := h.exact hs (hv.known hx) (hv.known hy)
  shown hs hx hy := h.shown hs (hv.known hx) (hv.known hy)

theorem Valid.fades (h : Valid joiners side v skip out own other) (hv : View.Fades v v') :
    Valid joiners side v' skip out own other :=
  { h.toPaired.fades hv with carriesAcross := h.carriesAcross }

theorem Valid.empty (hout : ∀ o, out o = none) (hv : ∀ side input, v.told side input = none) :
    Valid joiners side v skip out {} {} where
  files := .empty hv
  filesAcross := .empty hv
  carries := .empty hout
  paired h := by rw [hout] at h; cases h
  inj h := by rw [hout] at h; cases h
  exact _ hk := by simp [View.Known, hv] at hk
  shown _ hk := by simp [View.Known, hv] at hk
  carriesAcross := .empty hout

/-- A join that was told nothing remembers nothing and has no outputs. -/
theorem Valid.blank (h : Valid joiners side v skip out own other)
    (hv : ∀ side input, v.told side input = none) : own = {} ∧ other = {} ∧ ∀ o, out o = none := by
  have hown := h.files.eq_empty hv
  refine ⟨hown, h.filesAcross.eq_empty hv, fun o => ?_⟩
  cases ho : out o with
  | none => rfl
  | some e =>
    obtain ⟨x, y, key, -, hx, -⟩ := h.paired (show out o = some (e.1, e.2) from ho)
    rw [hown] at hx
    cases hx

/-- A join looks the same from both sides. -/
theorem Valid.swap (h : Valid joiners side v skip out own other) (hside : side ≠ .only) :
    Valid joiners side.across v (fun y x => skip x y) out other own where
  files := h.filesAcross
  filesAcross := by rw [across_across hside]; exact h.files
  carries := h.carriesAcross
  paired ho := by
    obtain ⟨x, y, key, hs, hx, hy⟩ := h.paired ho
    exact ⟨y, x, key, by rw [pairOn_across, hs], hy, hx⟩
  inj := h.inj
  exact hs hy hx hky hkx := by
    rw [across_across hside] at hx
    simp only [pairOn_across, acceptOn_across]
    exact h.exact hs hx hy hkx hky
  shown hs hy hx ho := by
    rw [across_across hside] at hx
    rw [pairOn_across] at ho
    rw [joinOn_across]
    exact h.shown hs hx hy ho
  carriesAcross := by rw [across_across hside]; exact h.carries

/-! ## Changes of one pair -/

theorem Valid.narrow (h : Valid joiners side v skip out own other)
    (hskip : ∀ x y, ¬ skip' x y → ¬ skip x y) : Valid joiners side v skip' out own other :=
  { h with
    exact := fun hs => h.exact (hskip _ _ hs)
    shown := fun hs => h.shown (hskip _ _ hs) }

/-- A pair that the joiners reject needs no output. -/
theorem Valid.pass (h : Valid joiners side v skip out own other)
    (hskip : ∀ a b, ¬ skip' a b → ¬ (x = a ∧ y = b) → ¬ skip a b)
    (hnone : ∀ o f, out o ≠ some (f, pairOn side x y))
    (hreject : ∀ {fx fy}, v.Known side x fx → v.Known side.across y fy →
      acceptOn joiners side fx fy ≠ .ok true) : Valid joiners side v skip' out own other :=
  { h with
    exact := by
      intro a b fa fb k hs ha hb hka hkb
      by_cases he : x = a ∧ y = b
      · obtain ⟨rfl, rfl⟩ := he
        exact ⟨fun ⟨o, f, ho⟩ => absurd ho (hnone o f), fun hacc => absurd hacc (hreject ha hb)⟩
      · exact h.exact (hskip a b hs he) ha hb hka hkb
    shown := by
      intro a b fa fb o' f' hs ha hb ho
      by_cases he : x = a ∧ y = b
      · obtain ⟨rfl, rfl⟩ := he
        exact absurd ho (hnone o' f')
      · exact h.shown (hskip a b hs he) ha hb ho }

/-- An output is made for a pair. -/
theorem Valid.addPair (h : Valid joiners side v skip out own other)
    (hskip : ∀ a b, ¬ skip' a b → ¬ (x = a ∧ y = b) → ¬ skip a b)
    (hx : own.keys.get? x = some key) (hy : other.keys.get? y = some key) (hnew : out o = none)
    (hnone : ∀ o f, out o ≠ some (f, pairOn side x y))
    (hout : ∀ z, out' z = if o = z then some (facts, pairOn side x y) else out z)
    (haccept : ∀ {fx fy}, v.Known side x fx → v.Known side.across y fy →
      acceptOn joiners side fx fy = .ok true ∧ facts = joinOn side fx fy) :
    Valid joiners side v skip' out' (own.addOutput x o) (other.addOutput y o) where
  files := h.files.addOutput hx
  filesAcross := h.filesAcross.addOutput hy
  carries := h.carries.add hnew hout
  carriesAcross := h.carriesAcross.add hnew (by simpa only [pairOn_across] using hout)
  paired := by
    intro o' f' s' ho
    rw [hout] at ho
    split at ho
    · cases ho; exact ⟨x, y, key, rfl, hx, hy⟩
    · exact h.paired ho
  inj := by
    intro a b fa fb s ha hb
    rw [hout] at ha hb
    split at ha <;> split at hb
    · next he he' => exact he.symm.trans he'
    · cases ha; exact absurd hb (hnone _ _)
    · cases hb; exact absurd ha (hnone _ _)
    · exact h.inj ha hb
  exact := by
    intro a b fa fb k hs ha hb hka hkb
    by_cases he : x = a ∧ y = b
    · obtain ⟨rfl, rfl⟩ := he
      exact ⟨fun _ => (haccept ha hb).1, fun _ => ⟨o, facts, (hout o).trans (if_pos rfl)⟩⟩
    · rw [← h.exact (hskip a b hs he) ha hb hka hkb]
      refine exists_congr fun o' => exists_congr fun f' => ?_
      rw [hout]
      split
      · next hoo =>
        subst hoo
        simp only [hnew, Option.some.injEq, Prod.mk.injEq, reduceCtorEq, iff_false, not_and]
        exact fun _ hp => he (pairOn_inj.1 hp)
      · rfl
  shown := by
    intro a b fa fb o' f' hs ha hb ho
    rw [hout] at ho
    split at ho
    · simp only [Option.some.injEq, Prod.mk.injEq, pairOn_inj] at ho
      obtain ⟨rfl, rfl, rfl⟩ := ho
      exact (haccept ha hb).2
    · next hne =>
      have he : ¬ (x = a ∧ y = b) := by
        rintro ⟨rfl, rfl⟩
        exact hnone o' f' ho
      exact h.shown (hskip a b hs he) ha hb ho

/-- The output of a pair gets new facts. -/
theorem Valid.changePair (h : Valid joiners side v skip out own other)
    (hskip : ∀ a b, ¬ skip' a b → ¬ (x = a ∧ y = b) → ¬ skip a b)
    (ho : out o = some (f, pairOn side x y))
    (hout : ∀ z, out' z = if o = z then some (facts, pairOn side x y) else out z)
    (haccept : ∀ {fx fy}, v.Known side x fx → v.Known side.across y fy →
      acceptOn joiners side fx fy = .ok true ∧ facts = joinOn side fx fy) :
    Valid joiners side v skip' out' own other where
  files := h.files
  filesAcross := h.filesAcross
  carries := h.carries.change ho hout
  carriesAcross := h.carriesAcross.change ho hout
  paired := by
    intro o' f' s' ho'
    rw [hout] at ho'
    split at ho'
    · cases ho'; exact h.paired ho
    · exact h.paired ho'
  inj := by
    intro a b fa fb s ha hb
    rw [hout] at ha hb
    split at ha <;> split at hb
    · next he he' => exact he.symm.trans he'
    · next he _ => cases ha; exact he.symm.trans (h.inj ho hb)
    · next _ he => cases hb; exact (h.inj ha ho).trans he
    · exact h.inj ha hb
  exact := by
    intro a b fa fb k hs ha hb hka hkb
    by_cases he : x = a ∧ y = b
    · obtain ⟨rfl, rfl⟩ := he
      exact ⟨fun _ => (haccept ha hb).1, fun _ => ⟨o, facts, (hout o).trans (if_pos rfl)⟩⟩
    · rw [← h.exact (hskip a b hs he) ha hb hka hkb]
      refine exists_congr fun o' => ?_
      rw [hout]
      split
      · next hoo =>
        subst hoo
        simp [ho, pairOn_inj, he]
      · rfl
  shown := by
    intro a b fa fb o' f' hs ha hb ho'
    rw [hout] at ho'
    split at ho'
    · simp only [Option.some.injEq, Prod.mk.injEq, pairOn_inj] at ho'
      obtain ⟨rfl, rfl, rfl⟩ := ho'
      exact (haccept ha hb).2
    · next hne =>
      have he : ¬ (x = a ∧ y = b) := by
        rintro ⟨rfl, rfl⟩
        exact hne (h.inj ho ho')
      exact h.shown (hskip a b hs he) ha hb ho'

/-- The output of a pair is withdrawn. -/
theorem Valid.dropPair (h : Valid joiners side v skip out own other)
    (hskip : ∀ a b, ¬ skip' a b → ¬ (x = a ∧ y = b) → ¬ skip a b)
    (ho : out o = some (f, pairOn side x y))
    (hout : ∀ z, out' z = if o = z then none else out z)
    (hreject : ∀ {fx fy}, v.Known side x fx → v.Known side.across y fy →
      acceptOn joiners side fx fy ≠ .ok true) :
    Valid joiners side v skip' out' (own.removeOutput x o) (other.removeOutput y o) where
  files := h.files.removeOutput
  filesAcross := h.filesAcross.removeOutput
  carries := h.carries.remove ho hout
  carriesAcross := h.carriesAcross.remove (by rw [pairOn_across]; exact ho) hout
  paired := by
    intro o' f' s' ho'
    rw [hout] at ho'
    split at ho'
    · cases ho'
    · exact h.paired ho'
  inj := by
    intro a b fa fb s ha hb
    rw [hout] at ha hb
    split at ha
    · cases ha
    · split at hb
      · cases hb
      · exact h.inj ha hb
  exact := by
    intro a b fa fb k hs ha hb hka hkb
    by_cases he : x = a ∧ y = b
    · obtain ⟨rfl, rfl⟩ := he
      refine ⟨fun ⟨o', f', ho'⟩ => ?_, fun hacc => absurd hacc (hreject ha hb)⟩
      rw [hout] at ho'
      split at ho'
      · cases ho'
      · next hne => exact absurd (h.inj ho ho') hne
    · rw [← h.exact (hskip a b hs he) ha hb hka hkb]
      refine exists_congr fun o' => exists_congr fun f' => ?_
      rw [hout]
      split
      · next hoo =>
        subst hoo
        simp [ho, pairOn_inj, he]
      · rfl
  shown := by
    intro a b fa fb o' f' hs ha hb ho'
    rw [hout] at ho'
    split at ho'
    · cases ho'
    · next hne =>
      have he : ¬ (x = a ∧ y = b) := by
        rintro ⟨rfl, rfl⟩
        exact hne (h.inj ho ho')
      exact h.shown (hskip a b hs he) ha hb ho'

/-! ## Operations -/

/-- What the joiners say about a pair, and the facts of the pair. -/
theorem joinedFacts?_spec {m : JoinMemory} {u : Tuple} (hb : Bench node away g₀ g)
    (hx : g₀.find? x = some t) (hxn : t.node ≠ node) (hy : g₀.find? y = some u)
    (hyn : u.node ≠ node) (haccept : ∀ l r e, Joiner.accept joiners l r = .error e → E e)
    {Q : Option Facts → Workbench JoinMemory → Prop}
    (hQ : ∀ b, acceptOn joiners side t.facts u.facts = .ok b →
      Q (if b then some (joinOn side t.facts u.facts) else none) ⟨m, g⟩) :
    Action.Ensures E (joinedFacts? joiners (orient side x y)) ⟨m, g⟩ Q := by
  have hends (l r : Facts) (hl : acceptOn joiners side t.facts u.facts = Joiner.accept joiners l r)
      (hj : joinOn side t.facts u.facts = l ++ r) :
      Action.Ensures E (do if ← Joiner.accept joiners l r then pure (some (l ++ r)) else pure none)
        ⟨m, g⟩ Q := by
    rw [Action.ensures_bind, Action.ensures_lift]
    refine ⟨fun b hacc => ?_, haccept l r⟩
    have := hQ b (hl.trans hacc)
    rw [hj] at this
    cases b <;> exact this
  unfold joinedFacts?
  rw [Action.ensures_bind]
  cases side with
  | right =>
    rw [show (orient .right x y).1 = y from rfl, hb.ensures_inputFacts hy hyn, Action.ensures_bind,
      show (orient .right x y).2 = x from rfl, hb.ensures_inputFacts hx hxn]
    exact hends u.facts t.facts rfl rfl
  | left | only =>
    rw [show (orient _ x y).1 = x from rfl, hb.ensures_inputFacts hx hxn, Action.ensures_bind,
      show (orient _ x y).2 = y from rfl, hb.ensures_inputFacts hy hyn]
    exact hends t.facts u.facts rfl rfl

/-- Making the output of a pair. -/
theorem createPair_spec {m : JoinMemory} (hb : Bench node away g₀ g)
    (hlimit : ∀ limit details, E (.resourceLimit limit details))
    {Q : Unit → Workbench JoinMemory → Prop}
    (hQ : ∀ o g' m', Bench node away g₀ g' → g.openAt node o = none →
      (∀ z, g'.openAt node z = if o = z then some (facts, pairOn side x y) else g.openAt node z) →
      m'.own side = (m.own side).addOutput x o → m'.other side = (m.other side).addOutput y o →
      Q () ⟨m', g'⟩) :
    Action.Ensures E (createPair node (orient side x y) facts) ⟨m, g⟩ Q := by
  unfold createPair
  rw [Action.ensures_bind]
  refine hb.create hlimit fun o g' hb' hfree hout => ?_
  rw [Bench.ensures_modifyMemory]
  refine hQ o g' _ hb' (Agenda.openAt_of_none node hfree) hout ?_ ?_
  · cases side <;> rfl
  · cases side <;> rfl

/-- Withdrawing the output of a pair. -/
theorem retractOutput_spec {m : JoinMemory} (hb : Bench node away g₀ g)
    (ho : g.openAt node o = some (f, pairOn side x y)) {Q : Unit → Workbench JoinMemory → Prop}
    (hQ : ∀ g' m', Bench node away g₀ g' →
      (∀ z, g'.openAt node z = if o = z then none else g.openAt node z) →
      m'.own side = m.own side → m'.other side = (m.other side).removeOutput y o →
      Q () ⟨m', g'⟩) :
    Action.Ensures E (retractOutput side o) ⟨m, g⟩ Q := by
  unfold retractOutput
  rw [Action.ensures_bind, Bench.ensures_openSources ho, partner?_pairOn]
  dsimp only
  rw [Action.ensures_bind, Bench.ensures_modifyMemory]
  exact hb.retract ho fun g' hb' hout =>
    hQ g' _ hb' hout own_modifyOther other_modifyOther

theorem dropOutput_spec {m : JoinMemory} (hb : Bench node away g₀ g)
    (ho : g.openAt node o = some (f, pairOn side x y)) {Q : Unit → Workbench JoinMemory → Prop}
    (hQ : ∀ g' m', Bench node away g₀ g' →
      (∀ z, g'.openAt node z = if o = z then none else g.openAt node z) →
      m'.own side = (m.own side).removeOutput x o →
      m'.other side = (m.other side).removeOutput y o → Q () ⟨m', g'⟩) :
    Action.Ensures E (dropOutput side x o) ⟨m, g⟩ Q := by
  unfold dropOutput
  rw [Action.ensures_bind, Bench.ensures_modifyMemory]
  refine retractOutput_spec hb ho fun g' m' hb' hout hown hother => hQ g' m' hb' hout ?_ ?_
  · rw [hown, own_modifyOwn]
  · rw [hother, other_modifyOwn]

/-- The table lists the output of the pair of an input with a partner. -/
def Finds (existing : Table TupleId TupleId) (out : TupleId → Option (Facts × Sources)) (side : Side)
    (x y : TupleId) : Prop :=
  ∀ o, existing.get? y = some o ↔ ∃ f, out o = some (f, pairOn side x y)

/-- What a join keeps while it looks at the pairs of one input with the partners that are left. -/
structure Pairing (joiners : List Joiner) (side : Side) (node : NodeId) (away : List TupleId)
    (g₀ : Agenda) (v : View) (x : TupleId) (key : JoinKey) (existing : Table TupleId TupleId)
    (rest : List TupleId) (w : Workbench JoinMemory) : Prop where
  bench : Bench node away g₀ w.agenda
  valid : Valid joiners side v (fun a b => x = a ∧ b ∈ rest) (w.agenda.openAt node)
    (w.memory.own side) (w.memory.other side)
  filed : (w.memory.own side).keys.get? x = some key
  candidates : ∀ y ∈ rest, (w.memory.other side).keys.get? y = some key
  finds : ∀ y ∈ rest, Finds existing (w.agenda.openAt node) side x y
  nodup : rest.Nodup

namespace Finds

variable {existing : Table TupleId TupleId}

/-- A change of the output of one pair leaves the others to be found. -/
theorem of_ne (h : Finds existing out side x y) {e : Option (Facts × Sources)}
    (ho : ∀ f, out o ≠ some (f, pairOn side x y)) (he : ∀ f, e ≠ some (f, pairOn side x y))
    (hout : ∀ a, out' a = if o = a then e else out a) : Finds existing out' side x y := by
  intro a
  rw [h a]
  refine exists_congr fun f => ?_
  rw [hout]
  split
  · next hoa =>
    subst hoa
    exact ⟨fun h => absurd h (ho f), fun h => absurd h (he f)⟩
  · rfl

/-- A pair that is not listed has no output. -/
theorem ne_of_none (h : Finds existing out side x y) (hnone : existing.get? y = none) (o : TupleId)
    (f : Facts) : out o ≠ some (f, pairOn side x y) := by
  intro ho
  have hex := (h o).2 ⟨f, ho⟩
  rw [hnone] at hex
  cases hex

end Finds

/-- One output is that of one pair. -/
theorem partner_eq {f' : Facts} {z : TupleId} {e : Option (Facts × Sources)}
    (h : e = some (f, pairOn side x y)) (h' : e = some (f', pairOn side x z)) : z = y := by
  rw [h] at h'
  simp only [Option.some.injEq, Prod.mk.injEq, pairOn_inj] at h'
  exact h'.2.2.symm

namespace Pairing

variable {existing : Table TupleId TupleId} {rest : List TupleId} {w w' : Workbench JoinMemory}

/-- What is left to be looked at after one partner. -/
theorem skips {a b : TupleId} (hrest : ¬ (x = a ∧ b ∈ rest)) (hne : ¬ (x = a ∧ y = b)) :
    ¬ (x = a ∧ b ∈ y :: rest) := by
  rintro ⟨rfl, hm⟩
  rcases List.mem_cons.1 hm with rfl | hm
  · exact hne ⟨rfl, rfl⟩
  · exact hrest ⟨rfl, hm⟩

/-- The partner is a live tuple of another node. -/
theorem partner (h : Pairing joiners side node away g₀ v x key existing (y :: rest) w)
    (hfeeds : g₀.Feeds node v) : ∃ u, g₀.find? y = some u ∧ u.node ≠ node ∧
      ∀ fy, v.Known side.across y fy → fy = u.facts := by
  have hy := h.candidates y List.mem_cons_self
  obtain ⟨told, htold⟩ := Option.isSome_iff_exists.1
    ((h.valid.filesAcross.lists y).1 (by simp [hy]))
  obtain ⟨u, hu, hun, hfresh⟩ := hfeeds htold
  refine ⟨u, hu, hun, ?_⟩
  rintro fy ⟨hf, ht⟩
  rw [htold] at ht
  cases ht
  exact (hfresh hf).symm

/-- Once the pair with one partner is dealt with, by a change of its output at most, those with the
rest are left. -/
theorem next (h : Pairing joiners side node away g₀ v x key existing (y :: rest) w)
    (hb : Bench node away g₀ w'.agenda)
    (hvalid : Valid joiners side v (fun a b => x = a ∧ b ∈ rest) (w'.agenda.openAt node)
      (w'.memory.own side) (w'.memory.other side))
    (hown : (w'.memory.own side).keys = (w.memory.own side).keys)
    (hother : (w'.memory.other side).keys = (w.memory.other side).keys)
    {e : Option (Facts × Sources)}
    (hold : ∀ {f z}, w.agenda.openAt node o = some (f, pairOn side x z) → z = y)
    (hnew : ∀ {f z}, e = some (f, pairOn side x z) → z = y)
    (hout : ∀ a, w'.agenda.openAt node a = if o = a then e else w.agenda.openAt node a) :
    Pairing joiners side node away g₀ v x key existing rest w' where
  bench := hb
  valid := hvalid
  filed := by rw [hown]; exact h.filed
  candidates z hz := by rw [hother]; exact h.candidates z (List.mem_cons_of_mem y hz)
  finds z hz := by
    have hne : z ≠ y := by
      rintro rfl
      exact (List.nodup_cons.1 h.nodup).1 hz
    exact (h.finds z (List.mem_cons_of_mem y hz)).of_ne (fun f ho => hne (hold ho))
      (fun f he => hne (hnew he)) hout
  nodup := (List.nodup_cons.1 h.nodup).2

end Pairing

/-- Looking at the pair of an input with one partner. -/
theorem updatePair_spec {existing : Table TupleId TupleId} {rest : List TupleId}
    {w : Workbench JoinMemory} (h : Pairing joiners side node away g₀ v x key existing (y :: rest) w)
    (hfeeds : g₀.Feeds node v) (hx : g₀.find? x = some t) (hxn : t.node ≠ node)
    (hknown : ∀ fx, v.Known side x fx → fx = t.facts)
    (haccept : ∀ l r e, Joiner.accept joiners l r = .error e → E e)
    (hlimit : ∀ limit details, E (.resourceLimit limit details)) :
    Action.Ensures E (updatePair node joiners side x existing y) w fun _ w' =>
      Pairing joiners side node away g₀ v x key existing rest w' := by
  obtain ⟨m, g⟩ := w
  have hfound : Finds existing (g.openAt node) side x y := h.finds y List.mem_cons_self
  have hy : (m.other side).keys.get? y = some key := h.candidates y List.mem_cons_self
  obtain ⟨u, hu, hun, hknowny⟩ := h.partner hfeeds
  unfold updatePair
  rw [Action.ensures_bind]
  refine joinedFacts?_spec h.bench hx hxn hu hun haccept fun b hacc => ?_
  have hverdict : ∀ {fx fy}, v.Known side x fx → v.Known side.across y fy →
      acceptOn joiners side fx fy = .ok b ∧
        joinOn side t.facts u.facts = joinOn side fx fy := by
    intro fx fy hkx hky
    rw [hknown fx hkx, hknowny fy hky]
    exact ⟨hacc, rfl⟩
  cases b with
  | true =>
    cases hex : existing.get? y with
    | some o =>
      obtain ⟨f, ho⟩ := (hfound o).1 hex
      refine h.bench.refreshTuple ho fun g' hb' hout => ?_
      have hvalid := h.valid.changePair (fun _ _ => Pairing.skips) ho hout hverdict
      exact h.next hb' hvalid rfl rfl (partner_eq ho) (partner_eq rfl) hout
    | none =>
      have hnone := hfound.ne_of_none hex
      refine createPair_spec h.bench hlimit fun o g' m' hb' hnew hout hown hother => ?_
      have hvalid := h.valid.addPair (fun _ _ => Pairing.skips) h.filed hy hnew hnone hout hverdict
      rw [← hown, ← hother] at hvalid
      refine h.next hb' hvalid (by rw [hown]; rfl) (by rw [hother]; rfl) (fun ho => ?_)
        (partner_eq rfl) hout
      rw [hnew] at ho
      cases ho
  | false =>
    have hreject : ∀ {fx fy}, v.Known side x fx → v.Known side.across y fy →
        acceptOn joiners side fx fy ≠ .ok true := by
      intro fx fy hkx hky
      rw [(hverdict hkx hky).1]
      simp
    cases hex : existing.get? y with
    | some o =>
      obtain ⟨f, ho⟩ := (hfound o).1 hex
      refine dropOutput_spec h.bench ho fun g' m' hb' hout hown hother => ?_
      have hvalid := h.valid.dropPair (fun _ _ => Pairing.skips) ho hout hreject
      rw [← hown, ← hother] at hvalid
      exact h.next hb' hvalid (by rw [hown]; rfl) (by rw [hother]; rfl) (partner_eq ho)
        (fun he => by cases he) hout
    | none =>
      have hvalid := h.valid.pass (fun _ _ => Pairing.skips) (hfound.ne_of_none hex) hreject
      exact {
        bench := h.bench
        valid := hvalid
        filed := h.filed
        candidates := fun z hz => h.candidates z (List.mem_cons_of_mem y hz)
        finds := fun z hz => h.finds z (List.mem_cons_of_mem y hz)
        nodup := (List.nodup_cons.1 h.nodup).2 }

/-- Looking at the pairs of an input with all its partners. -/
theorem pairing_spec {existing : Table TupleId TupleId} {candidates : List TupleId}
    {w : Workbench JoinMemory}
    (h : Pairing joiners side node away g₀ v x key existing candidates w)
    (hfeeds : g₀.Feeds node v) (hx : g₀.find? x = some t) (hxn : t.node ≠ node)
    (hknown : ∀ fx, v.Known side x fx → fx = t.facts)
    (haccept : ∀ l r e, Joiner.accept joiners l r = .error e → E e)
    (hlimit : ∀ limit details, E (.resourceLimit limit details)) :
    Action.Ensures E (candidates.forM (updatePair node joiners side x existing)) w fun _ w' =>
      Bench node away g₀ w'.agenda ∧
        Valid joiners side v (fun _ _ => False) (w'.agenda.openAt node) (w'.memory.own side)
          (w'.memory.other side) := by
  have hloop := Action.Ensures.forM (E := E) (f := updatePair node joiners side x existing)
    (fun rest w => Pairing joiners side node away g₀ v x key existing rest w)
    (fun y rest w hw => updatePair_spec hw hfeeds hx hxn hknown haccept hlimit) h
  refine hloop.mono fun _ w' hw => ⟨hw.bench, hw.valid.narrow ?_⟩
  rintro a b - ⟨-, hm⟩
  cases hm

/-- A new input is paired as one that changes and has no outputs yet. -/
theorem insertPair_eq_updatePair (node : NodeId) (joiners : List Joiner) (side : Side) (x y : TupleId) :
    (do
      match ← joinedFacts? joiners (orient side x y) with
      | some facts => createPair node (orient side x y) facts
      | none => pure ()) = updatePair node joiners side x ∅ y := by
  unfold updatePair
  dsimp only
  congr 1
  funext facts?
  cases facts? <;> rfl

theorem known_across (hside : side ≠ .only) {z : TupleId} {fz : Facts}
    (hk : (v.tell side x facts).Known side.across z fz) : v.Known side.across z fz :=
  (View.known_tell_of_ne fun h => across_ne hside h.1).1 hk

theorem known_of_ne {z : TupleId} {fz : Facts} (hne : x ≠ z)
    (hk : (v.tell side x facts).Known side z fz) : v.Known side z fz :=
  (View.known_tell_of_ne fun h => hne h.2).1 hk

/-- No output mentions an input that is not listed. -/
theorem Paired.ne_of_unlisted (h : Paired joiners side v skip out own other)
    (hx : own.keys.get? x = none) (o : TupleId) (f : Facts) (y : TupleId) :
    out o ≠ some (f, pairOn side x y) := by
  intro ho
  obtain ⟨x', y', k, hp, hk, -⟩ := h.paired ho
  rw [← (pairOn_inj.1 hp).1, hx] at hk
  cases hk

/-- A new input is filed; its pairs are still to be looked at. -/
theorem Valid.file (h : Valid joiners side v (fun _ _ => False) out own other)
    (hside : side ≠ .only) (hnew : ¬ v.Held side x)
    (hkey : Joiner.keyOn joiners side facts = .ok key) {candidates : List TupleId}
    (hperm : candidates.Perm (other.index.find key)) :
    Valid joiners side (v.tell side x facts) (fun a b => x = a ∧ b ∈ candidates) out
      (own.file x key) other := by
  have hnoKey : own.keys.get? x = none := h.files.lists.get?_none hnew
  have hkeys : ∀ z, (own.file x key).keys.get? z = if x = z then some key else own.keys.get? z :=
    fun z => own.keys.get?_insert x z key
  refine {
    files := h.files.file hnew hkey
    filesAcross := h.filesAcross.tell_across (across_ne hside) facts
    carries := h.carries.file
    carriesAcross := h.carriesAcross
    paired := fun {o f s} ho => ?paired
    inj := h.inj
    exact := fun {a b fa fb k} hs ha hb hka hkb => ?exact
    shown := fun {a b fa fb o f} hs ha hb ho => ?shown }
  case paired =>
    obtain ⟨a, b, k, hp, ha, hb⟩ := h.paired ho
    refine ⟨a, b, k, hp, ?_, hb⟩
    rw [hkeys, if_neg, ha]
    rintro rfl
    rw [hnoKey] at ha
    cases ha
  case exact =>
    rw [hkeys] at hka
    split at hka
    · next he =>
      cases hka
      exact absurd ⟨he, hperm.mem_iff.2 (h.filesAcross.filed.mem_find.2 hkb)⟩ hs
    · next hne => exact h.exact not_false (known_of_ne hne ha) (known_across hside hb) hka hkb
  case shown =>
    have hne : x ≠ a := by
      rintro rfl
      exact h.ne_of_unlisted hnoKey o f b ho
    exact h.shown not_false (known_of_ne hne ha) (known_across hside hb) ho

/-- A join takes in a new input and pairs it with its partners. -/
theorem insert_spec {m : JoinMemory} (hb : Bench node away g₀ g) (hfeeds : g₀.Feeds node v)
    (hv : Valid joiners side v (fun _ _ => False) (g.openAt node) (m.own side) (m.other side))
    (hside : side ≠ .only) (hnew : ¬ v.Held side x) (hx : g₀.find? x = some t) (hxn : t.node ≠ node)
    (haccept : ∀ l r e, Joiner.accept joiners l r = .error e → E e)
    (hkeyOn : ∀ facts e, Joiner.keyOn joiners side facts = .error e → E e)
    (hlimit : ∀ limit details, E (.resourceLimit limit details)) :
    Action.Ensures E (insert node joiners side x) ⟨m, g⟩ fun _ w' =>
      Bench node away g₀ w'.agenda ∧
        Valid joiners side (v.tell side x t.facts) (fun _ _ => False) (w'.agenda.openAt node)
          (w'.memory.own side) (w'.memory.other side) := by
  unfold insert
  rw [Action.ensures_bind, hb.ensures_inputFacts hx hxn, Action.ensures_bind, Action.ensures_lift]
  refine ⟨fun key hkey => ?_, hkeyOn t.facts⟩
  simp only [Action.ensures_bind, Bench.ensures_memory]
  refine Bench.ensures_inHashOrder fun candidates hperm => ?_
  rw [Bench.ensures_modifyMemory]
  have hstart : Pairing joiners side node away g₀ (v.tell side x t.facts) x key ∅
      candidates ⟨m.modifyOwn side (·.file x key), g⟩ := {
    bench := hb
    valid := by
      dsimp only
      rw [own_modifyOwn, other_modifyOwn]
      exact hv.file hside hnew hkey hperm
    filed := by
      dsimp only
      rw [own_modifyOwn, JoinSide.file, Table.get?_insert, if_pos rfl]
    candidates := by
      intro y hy
      dsimp only
      rw [other_modifyOwn]
      exact hv.filesAcross.filed.mem_find.1 (hperm.mem_iff.1 hy)
    finds := by
      intro y _ o
      refine iff_of_false (by simp [EmptyCollection.emptyCollection]) ?_
      rintro ⟨f, ho⟩
      exact hv.ne_of_unlisted (hv.files.lists.get?_none hnew) o f y ho
    nodup := hperm.nodup_iff.2 (hv.filesAcross.filed.nodup key) }
  have hloop := pairing_spec (E := E) hstart (hfeeds.tell hx hxn) hx hxn
    (fun fx hk => (View.known_tell_self.1 hk).symm) haccept hlimit
  rw [← funext (insertPair_eq_updatePair node joiners side x)] at hloop
  exact hloop

/-! ## Withdrawing an input -/

theorem partner?_across {sources : Sources} :
    partner? side.across sources = some x ↔ ∃ y, sources = pairOn side x y := by
  constructor
  · intro h
    cases sources with
    | pair l r =>
      cases side <;> simp only [partner?, Side.across, Option.some.injEq] at h <;> subst h
      · exact ⟨r, rfl⟩
      · exact ⟨r, rfl⟩
      · exact ⟨l, rfl⟩
    | _ => simp [partner?] at h
  · rintro ⟨y, rfl⟩
    rw [← pairOn_across, partner?_pairOn]

/-- The outputs of a join without those of one input. -/
def hide (side : Side) (x : TupleId) (out : TupleId → Option (Facts × Sources)) (o : TupleId) :
    Option (Facts × Sources) :=
  (out o).filter fun e => partner? side.across e.2 ≠ some x

theorem hide_eq_some_iff {sources : Sources} :
    hide side x out o = some (f, sources) ↔
      out o = some (f, sources) ∧ ∀ y, sources ≠ pairOn side x y := by
  unfold hide
  rw [Option.filter_eq_some_iff]
  simp only [ne_eq, decide_not, Bool.not_eq_eq_eq_not, Bool.not_true, decide_eq_false_iff_not,
    partner?_across, not_exists]

theorem hide_pairOn {z : TupleId} :
    hide side x out o = some (f, pairOn side z y) ↔
      out o = some (f, pairOn side z y) ∧ x ≠ z := by
  rw [hide_eq_some_iff]
  simp only [pairOn_inj, ne_eq, not_and]
  refine and_congr_right fun _ => ⟨fun h he => h y he.symm rfl, fun h _ he => absurd he.symm h⟩

theorem hide_of_none (h : ∀ o f y, out o ≠ some (f, pairOn side x y)) : hide side x out = out := by
  funext o
  unfold hide
  cases ho : out o with
  | none => rfl
  | some e =>
    refine Option.filter_eq_some_iff.2 ⟨rfl, ?_⟩
    rw [decide_eq_true_iff, ne_eq, partner?_across]
    rintro ⟨y, hy⟩
    exact h o e.1 y (by rw [ho, ← hy])

/-- Withdrawing an output of a hidden input changes nothing that is not hidden. -/
theorem hide_retract (ho : out o = some (f, pairOn side x y))
    (hout : ∀ z, out' z = if o = z then none else out z) : hide side x out' = hide side x out := by
  funext z
  unfold hide
  rw [hout]
  split
  · next he =>
    subst he
    have hp : partner? side.across (pairOn side x y) = some x := partner?_across.2 ⟨y, rfl⟩
    rw [ho, Option.filter_some, hp]
    simp
  · rfl

/-- What a join keeps while it withdraws the outputs that are left of an input. -/
structure Leaving (joiners : List Joiner) (side : Side) (node : NodeId) (away : List TupleId)
    (g₀ : Agenda) (v : View) (x : TupleId) (rest : List TupleId) (w : Workbench JoinMemory) :
    Prop where
  bench : Bench node away g₀ w.agenda
  paired : Paired joiners side v (fun _ _ => False) (hide side x (w.agenda.openAt node))
    (w.memory.own side) (w.memory.other side)
  carriesAcross : (w.memory.other side).Carries side.across (w.agenda.openAt node)
  rest_iff : ∀ o, o ∈ rest ↔ ∃ f y, w.agenda.openAt node o = some (f, pairOn side x y)
  nodup : rest.Nodup

/-- One output fewer is left of the input. -/
theorem Leaving.next {rest : List TupleId} {w w' : Workbench JoinMemory}
    (h : Leaving joiners side node away g₀ v x (o :: rest) w) (hb : Bench node away g₀ w'.agenda)
    (ho : w.agenda.openAt node o = some (f, pairOn side x y))
    (hout : ∀ z, w'.agenda.openAt node z = if o = z then none else w.agenda.openAt node z)
    (hown : w'.memory.own side = w.memory.own side)
    (hother : w'.memory.other side = (w.memory.other side).removeOutput y o) :
    Leaving joiners side node away g₀ v x rest w' where
  bench := hb
  paired := by
    rw [hide_retract ho hout, hown, hother]
    exact { h.paired with
      filesAcross := h.paired.filesAcross.removeOutput
      paired := h.paired.paired
      exact := h.paired.exact }
  carriesAcross := by
    rw [hother]
    exact h.carriesAcross.remove (by rw [pairOn_across]; exact ho) hout
  rest_iff z := by
    rw [hout]
    split
    · next he =>
      subst he
      simp [(List.nodup_cons.1 h.nodup).1]
    · next he =>
      rw [← h.rest_iff, List.mem_cons]
      exact ⟨.inr, fun h => h.resolve_left (Ne.symm he)⟩
  nodup := (List.nodup_cons.1 h.nodup).2

/-- When no output is left of the input, nothing is hidden. -/
theorem Leaving.finish {w : Workbench JoinMemory} (h : Leaving joiners side node away g₀ v x [] w) :
    Valid joiners side v (fun _ _ => False) (w.agenda.openAt node) (w.memory.own side)
      (w.memory.other side) := by
  have hnone : ∀ o f y, w.agenda.openAt node o ≠ some (f, pairOn side x y) := by
    intro o f y ho
    have hm := (h.rest_iff o).2 ⟨f, y, ho⟩
    cases hm
  have hpaired := h.paired
  rw [hide_of_none hnone] at hpaired
  exact { hpaired with carriesAcross := h.carriesAcross }

/-- An input is given up, and its outputs are hidden. -/
theorem Valid.erase (h : Valid joiners side v (fun _ _ => False) out own other)
    (hside : side ≠ .only) (hkey : own.keys.get? x = some key) :
    Paired joiners side (v.drop side x) (fun _ _ => False) (hide side x out)
      { index := own.index.erase key x, keys := own.keys.erase x, outputs := own.outputs.erase x }
      other := by
  have hkeys : ∀ z, (own.keys.erase x).get? z = if x = z then none else own.keys.get? z :=
    own.keys.get?_erase x
  refine {
    files := h.files.erase hkey
    filesAcross := h.filesAcross.drop_across (across_ne hside)
    carries := ⟨fun {o z} => ?mem, fun z => ?nodup⟩
    paired := fun {o f s} ho => ?paired
    inj := fun ho ho' => h.inj (hide_eq_some_iff.1 ho).1 (hide_eq_some_iff.1 ho').1
    exact := fun {a b fa fb k} _ ha hb hka hkb => ?exact
    shown := fun _ ha hb ho => h.shown not_false (View.known_drop.1 ha).2 (View.known_drop.1 hb).2
      (hide_eq_some_iff.1 ho).1 }
  case mem =>
    unfold JoinSide.outputsOf
    rw [Table.get?_erase]
    simp only [hide_pairOn]
    by_cases he : x = z
    · simp [he]
    · simp only [he, if_false, ne_eq, not_false_eq_true, and_true]
      exact h.carries.mem
  case nodup =>
    unfold JoinSide.outputsOf
    rw [Table.get?_erase]
    split
    · exact List.nodup_nil
    · exact h.carries.nodup z
  case paired =>
    rw [hide_eq_some_iff] at ho
    obtain ⟨a, b, k, rfl, ha, hb⟩ := h.paired ho.1
    refine ⟨a, b, k, rfl, ?_, hb⟩
    rw [hkeys, if_neg, ha]
    rintro rfl
    exact ho.2 b rfl
  case exact =>
    rw [View.known_drop] at ha hb
    have he : x ≠ a := fun he => ha.1 ⟨rfl, he⟩
    rw [hkeys, if_neg he] at hka
    simp only [hide_pairOn, ne_eq, he, not_false_eq_true, and_true]
    exact h.exact not_false ha.2 hb.2 hka hkb

theorem retract_spec {m : JoinMemory} (hb : Bench node away g₀ g)
    (hv : Valid joiners side v (fun _ _ => False) (g.openAt node) (m.own side) (m.other side))
    (hside : side ≠ .only) (hheld : v.Held side x) :
    Action.Ensures E (retract side x) ⟨m, g⟩ fun _ w' =>
      Bench node away g₀ w'.agenda ∧
        Valid joiners side (v.drop side x) (fun _ _ => False) (w'.agenda.openAt node)
          (w'.memory.own side) (w'.memory.other side) := by
  obtain ⟨key, hkey⟩ := hv.files.lists.get?_some hheld
  unfold retract
  rw [Action.ensures_bind, Bench.ensures_memory, hkey]
  dsimp only
  rw [Action.ensures_bind]
  refine Bench.ensures_inHashOrder fun outputs hperm => ?_
  rw [Action.ensures_bind, Bench.ensures_setMemory]
  have hstart : Leaving joiners side node away g₀ (v.drop side x) x outputs
      ⟨m.modifyOwn side fun s =>
        { index := s.index.erase key x, keys := s.keys.erase x, outputs := s.outputs.erase x }, g⟩ := {
    bench := hb
    paired := by
      dsimp only
      rw [own_modifyOwn, other_modifyOwn]
      exact hv.erase hside hkey
    carriesAcross := by
      dsimp only
      rw [other_modifyOwn]
      exact hv.carriesAcross
    rest_iff := fun o => hperm.mem_iff.trans hv.carries.mem
    nodup := hperm.nodup_iff.2 (hv.carries.nodup x) }
  have hloop := Action.Ensures.forM (E := E) (f := retractOutput side)
    (fun rest w => Leaving joiners side node away g₀ (v.drop side x) x rest w)
    (fun o rest w hw => ?_) hstart
  · exact hloop.mono fun _ w' hw => ⟨hw.bench, hw.finish⟩
  · obtain ⟨f, y, ho⟩ := (hw.rest_iff o).1 List.mem_cons_self
    exact retractOutput_spec hw.bench ho fun g' m' hb' hout hown hother =>
      hw.next hb' ho hout hown hother

/-! ## Bringing an input up to date -/

/-- The outputs of an input, found by its partners. -/
theorem outputsByPartner_spec {m : JoinMemory} {skip : TupleId → TupleId → Prop}
    (hv : Valid joiners side v skip (g.openAt node) (m.own side) (m.other side))
    {outputs : List TupleId} (hperm : outputs.Perm ((m.own side).outputsOf x))
    {Q : Table TupleId TupleId → Workbench JoinMemory → Prop}
    (hQ : ∀ existing, (∀ y, Finds existing (g.openAt node) side x y) → Q existing ⟨m, g⟩) :
    Action.Ensures E (outputsByPartner side outputs) ⟨m, g⟩ Q := by
  have hmem : ∀ {o}, o ∈ outputs ↔ ∃ f y, g.openAt node o = some (f, pairOn side x y) :=
    hperm.mem_iff.trans hv.carries.mem
  unfold outputsByPartner
  refine Action.Ensures.mono (Action.Ensures.foldlM
    (fun rest found (w : Workbench JoinMemory) => w = ⟨m, g⟩ ∧ rest.Nodup ∧
      (∀ o ∈ rest, o ∈ outputs) ∧
      ∀ y o, found.get? y = some o ↔ o ∉ rest ∧ ∃ f, g.openAt node o = some (f, pairOn side x y))
    (fun found o rest w => ?_)
    ⟨rfl, hperm.nodup_iff.2 (hv.carries.nodup x), fun o ho => ho, fun y o => ?_⟩) ?_
  · rintro ⟨rfl, hnodup, hsub, hfound⟩
    obtain ⟨hnot, hnodup'⟩ := List.nodup_cons.1 hnodup
    obtain ⟨f, y, ho⟩ := hmem.1 (hsub o List.mem_cons_self)
    rw [Action.ensures_bind, Bench.ensures_openSources ho, partner?_pairOn]
    refine ⟨rfl, hnodup', fun o ho => hsub o (List.mem_cons_of_mem _ ho), fun z o' => ?_⟩
    rw [Table.get?_insert]
    by_cases hz : y = z
    · subst hz
      rw [if_pos rfl]
      constructor
      · rintro ⟨⟩
        exact ⟨hnot, f, ho⟩
      · rintro ⟨-, f', ho'⟩
        rw [hv.inj ho ho']
    · rw [if_neg hz, hfound]
      constructor
      · rintro ⟨hn, h⟩
        exact ⟨fun hm => hn (List.mem_cons_of_mem _ hm), h⟩
      · rintro ⟨hn, f', ho'⟩
        refine ⟨fun hm => ?_, f', ho'⟩
        rcases List.mem_cons.1 hm with rfl | hm
        · rw [ho] at ho'
          simp only [Option.some.injEq, Prod.mk.injEq, pairOn_inj] at ho'
          exact hz ho'.2.2
        · exact hn hm
  · constructor
    · intro h
      cases h
    · rintro ⟨hn, f, ho⟩
      exact absurd (hmem.2 ⟨f, y, ho⟩) hn
  · rintro existing w' ⟨rfl, _, _, hfound⟩
    refine hQ existing fun y o => ?_
    rw [hfound]
    simp

/-- All partners of an input have its key, so none is left over. -/
theorem filter_existing_eq_nil {existing : Table TupleId TupleId} {candidates : List TupleId}
    (h : ∀ y o, existing.get? y = some o → y ∈ candidates) :
    (existing.filter fun partner _ => !candidates.contains partner).values = [] := by
  unfold Table.filter Table.values
  simp only [List.map_eq_nil_iff, List.filter_eq_nil_iff]
  intro ⟨y, o⟩ hyo
  have := h y o (Table.get?_eq_some_iff.2 hyo)
  simpa using this

/-- An input changes and keeps its key; its pairs are still to be looked at. -/
theorem Valid.keep (h : Valid joiners side v (fun _ _ => False) out own other)
    (hside : side ≠ .only) (hold : own.keys.get? x = some key)
    (hkey : Joiner.keyOn joiners side facts = .ok key) {candidates : List TupleId}
    (hperm : candidates.Perm (other.index.find key)) :
    Valid joiners side (v.tell side x facts) (fun a b => x = a ∧ b ∈ candidates) out own other :=
  { h with
    files := h.files.keep hold hkey
    filesAcross := h.filesAcross.tell_across (across_ne hside) facts
    exact := by
      intro a b fa fb k hs ha hb hka hkb
      have hne : x ≠ a := by
        rintro rfl
        rw [hold] at hka
        cases hka
        exact hs ⟨rfl, hperm.mem_iff.2 (h.filesAcross.filed.mem_find.2 hkb)⟩
      exact h.exact not_false (known_of_ne hne ha) (known_across hside hb) hka hkb
    shown := by
      intro a b fa fb o f hs ha hb ho
      have hne : x ≠ a := by
        rintro rfl
        obtain ⟨a', b', k, hp, hka, hkb⟩ := h.paired ho
        obtain ⟨rfl, rfl⟩ := pairOn_inj.1 hp
        rw [hold] at hka
        cases hka
        exact hs ⟨rfl, hperm.mem_iff.2 (h.filesAcross.filed.mem_find.2 hkb)⟩
      exact h.shown not_false (known_of_ne hne ha) (known_across hside hb) ho }

theorem update_spec {m : JoinMemory} (hb : Bench node away g₀ g) (hfeeds : g₀.Feeds node v)
    (hv : Valid joiners side v (fun _ _ => False) (g.openAt node) (m.own side) (m.other side))
    (hside : side ≠ .only) (hheld : v.Held side x) (hx : g₀.find? x = some t) (hxn : t.node ≠ node)
    (haccept : ∀ l r e, Joiner.accept joiners l r = .error e → E e)
    (hkeyOn : ∀ facts e, Joiner.keyOn joiners side facts = .error e → E e)
    (hlimit : ∀ limit details, E (.resourceLimit limit details)) :
    Action.Ensures E (update node joiners side x) ⟨m, g⟩ fun _ w' =>
      Bench node away g₀ w'.agenda ∧
        Valid joiners side (v.tell side x t.facts) (fun _ _ => False) (w'.agenda.openAt node)
          (w'.memory.own side) (w'.memory.other side) := by
  obtain ⟨oldKey, hold⟩ := hv.files.lists.get?_some hheld
  unfold update
  rw [Action.ensures_bind, hb.ensures_inputFacts hx hxn, Action.ensures_bind, Action.ensures_lift]
  refine ⟨fun key hkey => ?_, hkeyOn t.facts⟩
  rw [Action.ensures_bind, Bench.ensures_memory, hold]
  dsimp only
  split
  · rw [Action.ensures_bind]
    refine (retract_spec hb hv hside hheld).mono ?_
    rintro _ w' ⟨hb', hv'⟩
    refine (insert_spec hb' hfeeds.drop hv' hside (by simp) hx hxn haccept hkeyOn hlimit).mono
      fun _ w'' h => ?_
    rwa [View.tell_drop] at h
  · next hsame =>
    have hsame := Decidable.not_not.1 hsame
    subst hsame
    rw [Action.ensures_bind]
    refine Bench.ensures_inHashOrder fun outputs houtputs => ?_
    rw [Action.ensures_bind]
    refine outputsByPartner_spec hv houtputs fun existing hfinds => ?_
    rw [Action.ensures_bind]
    refine Bench.ensures_inHashOrder fun candidates hperm => ?_
    have hleft : (existing.filter fun partner _ => !candidates.contains partner).values = [] := by
      refine filter_existing_eq_nil fun y o hyo => ?_
      obtain ⟨f, ho⟩ := (hfinds y o).1 hyo
      obtain ⟨a, b, k, hp, ha, hbk⟩ := hv.paired ho
      obtain ⟨rfl, rfl⟩ := pairOn_inj.1 hp
      rw [hold] at ha
      cases ha
      exact hperm.mem_iff.2 (hv.filesAcross.filed.mem_find.2 hbk)
    rw [Action.ensures_bind, hleft]
    have hstart : Pairing joiners side node away g₀ (v.tell side x t.facts) x oldKey existing
        candidates ⟨m, g⟩ := {
      bench := hb
      valid := hv.keep hside hold hkey hperm
      filed := hold
      candidates := fun y hy => hv.filesAcross.filed.mem_find.1 (hperm.mem_iff.1 hy)
      finds := fun y _ => hfinds y
      nodup := hperm.nodup_iff.2 (hv.filesAcross.filed.nodup oldKey) }
    refine (pairing_spec hstart (hfeeds.tell hx hxn) hx hxn
      (fun fx hk => (View.known_tell_self.1 hk).symm) haccept hlimit).mono ?_
    rintro _ ⟨m', g'⟩ h
    rw [Action.ensures_bind]
    refine Bench.ensures_inHashOrder fun unmatched hunmatched => ?_
    rw [hunmatched.eq_nil]
    exact h

/-- On each signal, a join brings the pairs of the input up to date. -/
theorem signal_spec {m : JoinMemory} (hb : Bench node away g₀ g) (hfeeds : g₀.Feeds node v)
    (hv : Valid joiners .left v (fun _ _ => False) (g.openAt node) m.left m.right)
    (hside : side ≠ .only) {signal : Signal} (hexpects : v.Expects signal side x)
    (hx : g₀.find? x = some t) (hxn : t.node ≠ node)
    (haccept : ∀ l r e, Joiner.accept joiners l r = .error e → E e)
    (hkeyOn : ∀ facts e, Joiner.keyOn joiners side facts = .error e → E e)
    (hlimit : ∀ limit details, E (.resourceLimit limit details)) :
    Action.Ensures E (Network.signalJoin node joiners side x signal) ⟨m, g⟩ fun _ w' =>
      Bench node away g₀ w'.agenda ∧
        Valid joiners .left (v.after signal side x t.facts) (fun _ _ => False)
          (w'.agenda.openAt node) w'.memory.left w'.memory.right := by
  have hnew (h : signal = .insert) : ¬ v.Held side x := fun hheld => hexpects.1 hheld h
  have hheld (h : signal ≠ .insert) : v.Held side x := hexpects.2 h
  -- Seen from the side of the input, the join is as from the left.
  have hturn {v' : View} {out' : TupleId → Option (Facts × Sources)} {m' : JoinMemory} :
      Valid joiners side v' (fun _ _ => False) out' (m'.own side) (m'.other side) ↔
        Valid joiners .left v' (fun _ _ => False) out' m'.left m'.right := by
    cases side with
    | only => exact absurd rfl hside
    | left => rfl
    | right => exact ⟨fun h => h.swap (by simp), fun h => h.swap (by simp)⟩
  simp only [← hturn] at hv ⊢
  cases signal with
  | insert => exact insert_spec hb hfeeds hv hside (hnew rfl) hx hxn haccept hkeyOn hlimit
  | update => exact update_spec hb hfeeds hv hside (hheld (by simp)) hx hxn haccept hkeyOn hlimit
  | retract => exact retract_spec hb hv hside (hheld (by simp))

end JoinMemory

end ConstraintStreams
