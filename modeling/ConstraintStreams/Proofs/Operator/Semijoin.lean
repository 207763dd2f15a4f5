import Mathlib.Data.List.Nodup
import ConstraintStreams.Network.Basic
import ConstraintStreams.Proofs.Joiner.Index
import ConstraintStreams.Proofs.Operator.Bench

/-!
# Semijoins count matches

A semijoin knows, of each left input that it holds, which right inputs match it, and of each right
input which left inputs it matches. A left input that is not dirty has an output exactly if its
having a match is as expected.
-/

namespace ConstraintStreams

namespace SemijoinMemory

/-- The left inputs that a right input matches. -/
def leftsAt (m : SemijoinMemory) (right : TupleId) : List TupleId := (m.leftsOf.get? right).getD []

/-- No right input is noted as matching nothing. -/
def Trimmed (m : SemijoinMemory) : Prop := ∀ r, m.leftsOf.get? r ≠ some []

/-- The output of each left input. -/
def output? (m : SemijoinMemory) (left : TupleId) : Option TupleId :=
  (m.counters.get? left).bind (·.output)

/-- What holds of the memory of a semijoin between signals, the left inputs of `dirty` being left to
settle. -/
structure Valid (joiners : List Joiner) (expected : Bool) (dirty : List TupleId) (v : View)
    (out : TupleId → Option (Facts × Sources)) (m : SemijoinMemory) : Prop where
  lefts : v.Lists .left m.leftKeys
  rights : v.Lists .right m.rightKeys
  counted : v.Lists .left m.counters
  filedLeft : Filed m.leftIndex m.leftKeys
  filedRight : Filed m.rightIndex m.rightKeys
  leftKey : ∀ {l facts key}, v.Known .left l facts → m.leftKeys.get? l = some key →
    Joiner.leftKey joiners facts = .ok key
  rightKey : ∀ {r facts key}, v.Known .right r facts → m.rightKeys.get? r = some key →
    Joiner.rightKey joiners facts = .ok key
  /-- The matches are noted on both sides. -/
  linked : ∀ {l r}, l ∈ m.leftsAt r ↔ ∃ c, m.counters.get? l = some c ∧ r ∈ c.hits
  hits_nodup : ∀ {l c}, m.counters.get? l = some c → c.hits.Nodup
  lefts_nodup : ∀ r, (m.leftsAt r).Nodup
  trimmed : m.Trimmed
  keys_agree : ∀ {l r}, l ∈ m.leftsAt r →
    ∃ key, m.leftKeys.get? l = some key ∧ m.rightKeys.get? r = some key
  exact : ∀ {l r fl fr key}, v.Known .left l fl → v.Known .right r fr →
    m.leftKeys.get? l = some key → m.rightKeys.get? r = some key →
    (l ∈ m.leftsAt r ↔ Joiner.accept joiners fl fr = .ok true)
  listing : Listing m.output? out
  shown : ∀ {l facts sources told}, outputUnder m.output? out l = some (facts, sources) →
    v.Known .left l told → facts = told
  settled : ∀ {l c}, l ∉ dirty → m.counters.get? l = some c →
    (c.output.isSome = true ↔ (!c.hits.isEmpty) = expected)

variable {E : Error → Prop} {node : NodeId} {away : List TupleId} {g₀ g : Agenda}
  {m m' : SemijoinMemory} {out out' : TupleId → Option (Facts × Sources)} {v v' : View}
  {joiners : List Joiner} {expected : Bool} {dirty : List TupleId} {left right l r o : TupleId}
  {c : Counter} {t : Tuple} {facts : Facts} {key : JoinKey} {hits lefts : List TupleId}
  {sources : Sources}

theorem Valid.fades (h : Valid joiners expected dirty v out m) (hv : View.Fades v v') :
    Valid joiners expected dirty v' out m :=
  { h with
    lefts := h.lefts.fades hv
    rights := h.rights.fades hv
    counted := h.counted.fades hv
    leftKey := fun hk => h.leftKey (hv.known hk)
    rightKey := fun hk => h.rightKey (hv.known hk)
    exact := fun hl hr => h.exact (hv.known hl) (hv.known hr)
    shown := fun ho hk => h.shown ho (hv.known hk) }

theorem Valid.empty (hout : ∀ o, out o = none) (hv : ∀ side input, v.told side input = none) :
    Valid joiners expected dirty v out {} where
  lefts := .empty hv
  rights := .empty hv
  counted := .empty hv
  filedLeft := .empty
  filedRight := .empty
  leftKey hk := by simp [View.Known, hv] at hk
  rightKey hk := by simp [View.Known, hv] at hk
  linked := by simp [leftsAt, EmptyCollection.emptyCollection]
  hits_nodup h := by simp [EmptyCollection.emptyCollection] at h
  lefts_nodup r := by simp [leftsAt, EmptyCollection.emptyCollection]
  trimmed r := by simp [EmptyCollection.emptyCollection]
  keys_agree h := by simp [leftsAt, EmptyCollection.emptyCollection] at h
  exact hk := by simp [View.Known, hv] at hk
  listing := .of_none (fun _ => rfl) hout
  shown ho := by simp [outputUnder, output?, EmptyCollection.emptyCollection] at ho
  settled _ h := by simp [EmptyCollection.emptyCollection] at h

/-- A semijoin that was told nothing, and has nothing to settle, remembers nothing and has no
outputs. -/
theorem Valid.blank (h : Valid joiners expected dirty v out m)
    (hv : ∀ side input, v.told side input = none) (hdirty : m.dirty = []) :
    m = {} ∧ ∀ o, out o = none := by
  have hleftKeys : m.leftKeys = ∅ := h.lefts.eq_empty hv
  have hrightKeys : m.rightKeys = ∅ := h.rights.eq_empty hv
  have hcounters : m.counters = ∅ := h.counted.eq_empty hv
  have hleftIndex : m.leftIndex = ∅ := by
    have hfiled := h.filedLeft
    rw [hleftKeys] at hfiled
    exact hfiled.eq_empty
  have hrightIndex : m.rightIndex = ∅ := by
    have hfiled := h.filedRight
    rw [hrightKeys] at hfiled
    exact hfiled.eq_empty
  have hleftsOf : m.leftsOf = ∅ := by
    refine Table.eq_empty fun r => ?_
    cases hr : m.leftsOf.get? r with
    | none => rfl
    | some lefts =>
      cases lefts with
      | nil => exact absurd hr (h.trimmed r)
      | cons l rest =>
        have hl : l ∈ m.leftsAt r := by simp [leftsAt, hr]
        obtain ⟨c, hc, -⟩ := h.linked.1 hl
        rw [hcounters] at hc
        cases hc
  have hlabel : ∀ l, m.output? l = none := fun l => by rw [output?, hcounters]; rfl
  refine ⟨?_, h.listing.out_eq_none hlabel⟩
  obtain ⟨leftIndex, rightIndex, leftKeys, rightKeys, counters, leftsOf, dirty⟩ := m
  cases hleftKeys
  cases hrightKeys
  cases hcounters
  cases hleftIndex
  cases hrightIndex
  cases hleftsOf
  cases hdirty
  rfl

/-! ## Links between matches -/

/-- Noting the matches of a left input. -/
theorem leftsAt_link_foldl (left : TupleId) (hits : List TupleId) (m : SemijoinMemory) (r : TupleId) :
    (hits.foldl (link left) m).leftsAt r =
      if r ∈ hits then (m.leftsAt r).insert left else m.leftsAt r := by
  induction hits generalizing m with
  | nil => simp
  | cons hit rest ih =>
    have hstep : (m.link left hit).leftsAt r =
        if hit = r then (m.leftsAt r).insert left else m.leftsAt r := by
      unfold leftsAt link
      rw [Table.get?_insert]
      split
      · next he => rw [he]; rfl
      · rfl
    rw [List.foldl_cons, ih, hstep]
    by_cases he : hit = r
    · subst he
      simp
    · simp [he, Ne.symm he]

theorem Trimmed.link_foldl (h : m.Trimmed) (left : TupleId) (hits : List TupleId) :
    (hits.foldl (link left) m).Trimmed := by
  induction hits generalizing m with
  | nil => exact h
  | cons hit rest ih =>
    refine ih fun r => ?_
    show (m.leftsOf.insert hit _).get? r ≠ some []
    rw [Table.get?_insert]
    split
    · exact fun he => List.ne_nil_of_mem (List.mem_insert_self) (Option.some.inj he)
    · exact h r

/-- Only the links change. -/
theorem link_foldl (left : TupleId) (hits : List TupleId) (m : SemijoinMemory) :
    ∃ leftsOf, hits.foldl (link left) m = { m with leftsOf } := by
  induction hits generalizing m with
  | nil => exact ⟨m.leftsOf, rfl⟩
  | cons hit rest ih =>
    obtain ⟨leftsOf, h⟩ := ih (m.link left hit)
    exact ⟨leftsOf, by rw [List.foldl_cons, h]; rfl⟩

/-- Striking the matches of a left input out. -/
theorem leftsAt_unlink_foldl (left : TupleId) (hits : List TupleId) (m : SemijoinMemory)
    (hnodup : ∀ r, (m.leftsAt r).Nodup) (r : TupleId) :
    (hits.foldl (unlink left) m).leftsAt r =
      if r ∈ hits then (m.leftsAt r).erase left else m.leftsAt r := by
  induction hits generalizing m with
  | nil => simp
  | cons hit rest ih =>
    have hstep : ∀ r, (m.unlink left hit).leftsAt r =
        if hit = r then (m.leftsAt r).erase left else m.leftsAt r := by
      intro r
      unfold unlink
      split
      · next hnone =>
        split
        · next he => subst he; simp [leftsAt, hnone]
        · rfl
      · next lefts hsome =>
        split
        · next hempty =>
          simp only [leftsAt, Table.get?_erase]
          split
          · next he => subst he; simp [hsome, hempty]
          · rfl
        · simp only [leftsAt, Table.get?_insert]
          split
          · next he => subst he; simp [hsome]
          · rfl
    have hnodup' : ∀ r, ((m.unlink left hit).leftsAt r).Nodup := by
      intro r
      rw [hstep]
      split
      · exact (hnodup r).erase left
      · exact hnodup r
    rw [List.foldl_cons, ih _ hnodup', hstep]
    by_cases he : hit = r
    · subst he
      simp only [if_true, List.mem_cons, true_or]
      split
      · exact List.erase_of_not_mem fun hm => ((hnodup hit).mem_erase_iff.1 hm).1 rfl
      · rfl
    · simp [he, Ne.symm he]

theorem Trimmed.unlink_foldl (h : m.Trimmed) (left : TupleId) (hits : List TupleId) :
    (hits.foldl (unlink left) m).Trimmed := by
  induction hits generalizing m with
  | nil => exact h
  | cons hit rest ih =>
    refine ih fun r => ?_
    unfold unlink
    split
    · exact h r
    · split
      · dsimp only
        rw [Table.get?_erase]
        split
        · simp
        · exact h r
      · next hne =>
        dsimp only
        rw [Table.get?_insert]
        split
        · exact fun he => hne (Option.some.inj he)
        · exact h r

theorem unlink_foldl (left : TupleId) (hits : List TupleId) (m : SemijoinMemory) :
    ∃ leftsOf, hits.foldl (unlink left) m = { m with leftsOf } := by
  induction hits generalizing m with
  | nil => exact ⟨m.leftsOf, rfl⟩
  | cons hit rest ih =>
    obtain ⟨leftsOf, h⟩ := ih (m.unlink left hit)
    refine ⟨leftsOf, ?_⟩
    rw [List.foldl_cons, h]
    unfold unlink
    split
    · rfl
    · split <;> rfl

/-! ## Changes on the left -/

/-- The matches of a left input with given facts and a given key. -/
structure Matches (joiners : List Joiner) (v : View) (rightKeys : Table TupleId JoinKey)
    (facts : Facts) (key : JoinKey) (hits : List TupleId) : Prop where
  nodup : hits.Nodup
  filed : ∀ {r}, r ∈ hits → rightKeys.get? r = some key
  exact : ∀ {r fr}, v.Known .right r fr → rightKeys.get? r = some key →
    (r ∈ hits ↔ Joiner.accept joiners facts fr = .ok true)

/-- How the memory changes when the matches of a left input are found anew. -/
structure SetLeft (left : TupleId) (key : JoinKey) (hits : List TupleId) (output : Option TupleId)
    (m m' : SemijoinMemory) : Prop where
  leftKeys : m'.leftKeys = m.leftKeys.insert left key
  filed : Filed m'.leftIndex m'.leftKeys
  rightKeys : m'.rightKeys = m.rightKeys
  rightIndex : m'.rightIndex = m.rightIndex
  counters : ∀ l, m'.counters.get? l = if left = l then some ⟨hits, output⟩ else m.counters.get? l
  leftsAt : ∀ {l r}, l ∈ m'.leftsAt r ↔ (left = l ∧ r ∈ hits) ∨ (left ≠ l ∧ l ∈ m.leftsAt r)
  nodup : ∀ r, (m'.leftsAt r).Nodup
  trimmed : m'.Trimmed

theorem Valid.leftFollows (h : Valid joiners expected dirty v out m) :
    v.Follows .left (fun facts key => Joiner.leftKey joiners facts = .ok key) m.leftKeys :=
  fun _ _ _ => h.leftKey

theorem Valid.rightFollows (h : Valid joiners expected dirty v out m) :
    v.Follows .right (fun facts key => Joiner.rightKey joiners facts = .ok key) m.rightKeys :=
  fun _ _ _ => h.rightKey

/-- Where a left input is noted on the right, its own note says so. -/
theorem Valid.mem_hits (h : Valid joiners expected dirty v out m) (hc : m.counters.get? left = some c)
    (hl : left ∈ m.leftsAt r) : r ∈ c.hits := by
  obtain ⟨d, hd, hr⟩ := h.linked.1 hl
  rw [hc] at hd
  cases hd
  exact hr

theorem Valid.setLeft (h : Valid joiners expected dirty v out m) {output : Option TupleId}
    (hset : SetLeft left key hits output m m') (hhits : Matches joiners v m.rightKeys facts key hits)
    (hkey : Joiner.leftKey joiners facts = .ok key) (hlisting : Listing m'.output? out')
    (hshown : ∀ {l f s}, outputUnder m'.output? out' l = some (f, s) →
      (left = l ∧ f = facts) ∨ (left ≠ l ∧ outputUnder m.output? out l = some (f, s)))
    {dirty' : List TupleId} (hdirty : ∀ {l}, l ∉ dirty' → left ≠ l ∧ l ∉ dirty) :
    Valid joiners expected dirty' (v.tell .left left facts) out' m' where
  lefts := by rw [hset.leftKeys]; exact h.lefts.insert facts key
  rights := by rw [hset.rightKeys]; exact h.rights.tell_across (by simp) facts
  counted := by
    intro x
    rw [hset.counters, View.held_tell, ← h.counted x]
    split
    · next he => simp [he]
    · next hne => simp [hne]
  filedLeft := hset.filed
  filedRight := by rw [hset.rightKeys, hset.rightIndex]; exact h.filedRight
  leftKey hk hl := by
    rw [hset.leftKeys] at hl
    exact h.leftFollows.insert hkey hk hl
  rightKey hk hr := by
    rw [hset.rightKeys] at hr
    exact h.rightFollows.tell_across (by simp) facts hk hr
  linked := by
    intro l r
    rw [hset.leftsAt, hset.counters]
    by_cases he : left = l
    · simp [he]
    · simp [he, h.linked]
  hits_nodup := by
    intro l c hc
    rw [hset.counters] at hc
    split at hc
    · cases hc; exact hhits.nodup
    · exact h.hits_nodup hc
  lefts_nodup := hset.nodup
  trimmed := hset.trimmed
  keys_agree := by
    intro l r hl
    rw [hset.leftsAt] at hl
    rw [hset.leftKeys, hset.rightKeys, Table.get?_insert]
    rcases hl with ⟨rfl, hr⟩ | ⟨hne, hl⟩
    · exact ⟨key, if_pos rfl, hhits.filed hr⟩
    · rw [if_neg hne]
      exact h.keys_agree hl
  exact := by
    intro l r fl fr k hl hr hkl hkr
    rw [hset.leftKeys, Table.get?_insert] at hkl
    rw [hset.rightKeys] at hkr
    rw [View.known_tell_of_ne (by simp)] at hr
    rw [hset.leftsAt]
    split at hkl
    · next he =>
      subst he
      cases hkl
      rw [View.known_tell_self] at hl
      subst hl
      simpa using hhits.exact hr hkr
    · next hne =>
      rw [View.known_tell_of_ne (by simp [hne])] at hl
      simpa [hne] using h.exact hl hr hkl hkr
  listing := hlisting
  shown := by
    intro l f s told ho hk
    rcases hshown ho with ⟨rfl, rfl⟩ | ⟨hne, ho⟩
    · exact View.known_tell_self.1 hk
    · rw [View.known_tell_of_ne (by simp [hne])] at hk
      exact h.shown ho hk
  settled := by
    intro l c hl hc
    obtain ⟨hne, hl⟩ := hdirty hl
    rw [hset.counters, if_neg hne] at hc
    exact h.settled hl hc

/-- How the memory changes when a left input is given up. -/
structure DropLeft (left : TupleId) (m m' : SemijoinMemory) : Prop where
  leftKeys : m'.leftKeys = m.leftKeys.erase left
  filed : Filed m'.leftIndex m'.leftKeys
  rightKeys : m'.rightKeys = m.rightKeys
  rightIndex : m'.rightIndex = m.rightIndex
  counters : m'.counters = m.counters.erase left
  leftsAt : ∀ {l r}, l ∈ m'.leftsAt r ↔ left ≠ l ∧ l ∈ m.leftsAt r
  nodup : ∀ r, (m'.leftsAt r).Nodup
  trimmed : m'.Trimmed

theorem output?_dropLeft (hdrop : DropLeft left m m') (x : TupleId) :
    m'.output? x = if left = x then none else m.output? x := by
  unfold output?
  rw [hdrop.counters, Table.get?_erase]
  split <;> rfl

theorem Valid.dropLeft (h : Valid joiners expected dirty v out m) (hdrop : DropLeft left m m')
    (hlisting : Listing m'.output? out')
    (hshown : ∀ {l e}, outputUnder m'.output? out' l = some e →
      left ≠ l ∧ outputUnder m.output? out l = some e)
    {dirty' : List TupleId} (hdirty : ∀ {l}, left ≠ l → l ∉ dirty' → l ∉ dirty) :
    Valid joiners expected dirty' (v.drop .left left) out' m' where
  lefts := by rw [hdrop.leftKeys]; exact h.lefts.erase
  rights := by rw [hdrop.rightKeys]; exact h.rights.drop_across (by simp)
  counted := by rw [hdrop.counters]; exact h.counted.erase
  filedLeft := hdrop.filed
  filedRight := by rw [hdrop.rightKeys, hdrop.rightIndex]; exact h.filedRight
  leftKey hk hl := by
    rw [hdrop.leftKeys] at hl
    exact h.leftFollows.erase hk hl
  rightKey hk hr := by
    rw [hdrop.rightKeys] at hr
    exact h.rightFollows.drop hk hr
  linked := by
    intro l r
    rw [hdrop.leftsAt, hdrop.counters, Table.get?_erase]
    by_cases he : left = l
    · simp [he]
    · simp [he, h.linked]
  hits_nodup := by
    intro l c hc
    rw [hdrop.counters, Table.get?_erase] at hc
    split at hc
    · cases hc
    · exact h.hits_nodup hc
  lefts_nodup := hdrop.nodup
  trimmed := hdrop.trimmed
  keys_agree := by
    intro l r hl
    rw [hdrop.leftsAt] at hl
    rw [hdrop.leftKeys, hdrop.rightKeys, Table.get?_erase, if_neg hl.1]
    exact h.keys_agree hl.2
  exact := by
    intro l r fl fr k hl hr hkl hkr
    rw [hdrop.leftKeys, Table.get?_erase] at hkl
    rw [hdrop.rightKeys] at hkr
    rw [hdrop.leftsAt]
    split at hkl
    · cases hkl
    · next hne =>
      simpa [hne] using h.exact (View.known_drop.1 hl).2 (View.known_drop.1 hr).2 hkl hkr
  listing := hlisting
  shown := by
    intro l f s told ho hk
    obtain ⟨-, ho⟩ := hshown ho
    exact h.shown ho (View.known_drop.1 hk).2
  settled := by
    intro l c hl hc
    rw [hdrop.counters, Table.get?_erase] at hc
    split at hc
    · cases hc
    · next hne => exact h.settled (hdirty hne hl) hc

/-! ## Changes on the right -/

/-- The matches of some left inputs are noted otherwise. -/
def Renotes (change : List TupleId → List TupleId) (lefts : List TupleId) (m m' : SemijoinMemory) :
    Prop :=
  ∀ l, m'.counters.get? l =
    if l ∈ lefts then (m.counters.get? l).map fun c => { c with hits := change c.hits }
    else m.counters.get? l

namespace Renotes

variable {change : List TupleId → List TupleId}

theorem counter (h : Renotes change lefts m m') (hc : m'.counters.get? l = some c) :
    ∃ d, m.counters.get? l = some d ∧ c.hits = if l ∈ lefts then change d.hits else d.hits := by
  rw [h] at hc
  split at hc
  · next hl =>
    obtain ⟨d, hd, rfl⟩ := Option.map_eq_some_iff.1 hc
    exact ⟨d, hd, by rw [if_pos hl]⟩
  · next hl => exact ⟨c, hc, by rw [if_neg hl]⟩

theorem isSome (h : Renotes change lefts m m') (l : TupleId) :
    (m'.counters.get? l).isSome = (m.counters.get? l).isSome := by
  rw [h]
  split <;> simp

theorem output? (h : Renotes change lefts m m') : m'.output? = m.output? := by
  funext l
  unfold SemijoinMemory.output?
  rw [h]
  split
  · cases m.counters.get? l <;> rfl
  · rfl

theorem hit_iff (h : Renotes change lefts m m') :
    (∃ c, m'.counters.get? l = some c ∧ r ∈ c.hits) ↔
      ∃ c, m.counters.get? l = some c ∧ r ∈ if l ∈ lefts then change c.hits else c.hits := by
  rw [h]
  split
  · simp
  · rfl

theorem hits_nodup (h : Renotes change lefts m m')
    (hchange : ∀ hits, hits.Nodup → (change hits).Nodup)
    (hnodup : ∀ {l c}, m.counters.get? l = some c → c.hits.Nodup)
    (hc : m'.counters.get? l = some c) : c.hits.Nodup := by
  obtain ⟨d, hd, hhits⟩ := h.counter hc
  rw [hhits]
  split
  · exact hchange _ (hnodup hd)
  · exact hnodup hd

end Renotes

/-- How the memory changes when a right input with given matches is taken in. -/
structure SetRight (right : TupleId) (key : JoinKey) (lefts : List TupleId)
    (m m' : SemijoinMemory) : Prop where
  leftKeys : m'.leftKeys = m.leftKeys
  leftIndex : m'.leftIndex = m.leftIndex
  rightKeys : m'.rightKeys = m.rightKeys.insert right key
  rightIndex : m'.rightIndex = m.rightIndex.insert key right
  counters : ∀ l, m'.counters.get? l =
    if l ∈ lefts then (m.counters.get? l).map fun c => { c with hits := c.hits.insert right }
    else m.counters.get? l
  leftsAt : ∀ r, m'.leftsAt r = if right = r then lefts else m.leftsAt r
  trimmed : m'.Trimmed
  dirty : ∀ {l}, l ∉ m'.dirty → l ∉ m.dirty ∧ l ∉ lefts

theorem SetRight.renotes (hset : SetRight right key lefts m m') :
    Renotes (·.insert right) lefts m m' := hset.counters

/-- A right input that is not listed matches nothing. -/
theorem Valid.unlinked (h : Valid joiners expected dirty v out m) (hnone : m.rightKeys.get? right = none) :
    m.leftsAt right = [] := by
  rw [List.eq_nil_iff_forall_not_mem]
  intro l hl
  obtain ⟨k, -, hk⟩ := h.keys_agree hl
  rw [hnone] at hk
  cases hk

/-- With the new matches noted on both sides, the notes agree again. -/
theorem SetRight.linked (hset : SetRight right key lefts m m') (h : Valid joiners expected dirty v out m)
    (hnone : m.rightKeys.get? right = none)
    (hfiled : ∀ {l}, l ∈ lefts → m.leftKeys.get? l = some key) :
    l ∈ m'.leftsAt r ↔ ∃ c, m'.counters.get? l = some c ∧ r ∈ c.hits := by
  rw [hset.leftsAt, hset.renotes.hit_iff]
  by_cases he : right = r
  · subst he
    rw [if_pos rfl]
    constructor
    · intro hl
      have hheld : v.Held .left l := (h.lefts l).1 (by simp [hfiled hl])
      obtain ⟨c, hc⟩ := h.counted.get?_some hheld
      exact ⟨c, hc, by simp [hl]⟩
    · rintro ⟨c, hc, hr⟩
      by_contra hl
      rw [if_neg hl] at hr
      have hmem := h.linked.2 ⟨c, hc, hr⟩
      rw [h.unlinked hnone] at hmem
      cases hmem
  · rw [if_neg he, h.linked]
    refine exists_congr fun c => and_congr_right fun _ => ?_
    split
    · simp [List.mem_insert_iff, Ne.symm he]
    · rfl

theorem Valid.setRight (h : Valid joiners expected m.dirty v out m) (hnew : ¬ v.Held .right right)
    (hset : SetRight right key lefts m m') (hnodup : lefts.Nodup)
    (hfiled : ∀ {l}, l ∈ lefts → m.leftKeys.get? l = some key)
    (hexact : ∀ {l fl}, v.Known .left l fl → m.leftKeys.get? l = some key →
      (l ∈ lefts ↔ Joiner.accept joiners fl facts = .ok true))
    (hkey : Joiner.rightKey joiners facts = .ok key) :
    Valid joiners expected m'.dirty (v.tell .right right facts) out m' where
  lefts := by rw [hset.leftKeys]; exact h.lefts.tell_across (by simp) facts
  rights := by rw [hset.rightKeys]; exact h.rights.insert facts key
  counted := by
    intro x
    rw [hset.renotes.isSome]
    exact h.counted.tell_across (by simp) facts x
  filedLeft := by rw [hset.leftKeys, hset.leftIndex]; exact h.filedLeft
  filedRight := by
    rw [hset.rightKeys, hset.rightIndex]
    exact h.filedRight.insert (h.rights.get?_none hnew) key
  leftKey hk hl := by
    rw [hset.leftKeys] at hl
    exact h.leftFollows.tell_across (by simp) facts hk hl
  rightKey hk hr := by
    rw [hset.rightKeys] at hr
    exact h.rightFollows.insert hkey hk hr
  linked := hset.linked h (h.rights.get?_none hnew) hfiled
  hits_nodup hc := hset.renotes.hits_nodup (fun _ hn => hn.insert) h.hits_nodup hc
  lefts_nodup := by
    intro r
    rw [hset.leftsAt]
    split
    · exact hnodup
    · exact h.lefts_nodup r
  trimmed := hset.trimmed
  keys_agree := by
    intro l r hl
    rw [hset.leftsAt] at hl
    rw [hset.leftKeys, hset.rightKeys, Table.get?_insert]
    split at hl
    · next he => exact ⟨key, hfiled hl, if_pos he⟩
    · next hne => rw [if_neg hne]; exact h.keys_agree hl
  exact := by
    intro l r fl fr k hl hr hkl hkr
    rw [hset.leftKeys] at hkl
    rw [hset.rightKeys, Table.get?_insert] at hkr
    rw [View.known_tell_of_ne (by simp)] at hl
    rw [hset.leftsAt]
    split at hkr
    · next he =>
      subst he
      cases hkr
      rw [View.known_tell_self] at hr
      subst hr
      rw [if_pos rfl]
      exact hexact hl hkl
    · next hne =>
      rw [View.known_tell_of_ne (by simp [hne])] at hr
      rw [if_neg hne]
      exact h.exact hl hr hkl hkr
  listing := by rw [hset.renotes.output?]; exact h.listing
  shown := by
    intro l f s told ho hk
    rw [hset.renotes.output?] at ho
    rw [View.known_tell_of_ne (by simp)] at hk
    exact h.shown ho hk
  settled := by
    intro l c hl hc
    obtain ⟨hd, hl⟩ := hset.dirty hl
    rw [hset.counters, if_neg hl] at hc
    exact h.settled hd hc

/-- How the memory changes when a right input is given up. -/
structure DropRight (right : TupleId) (m m' : SemijoinMemory) : Prop where
  leftKeys : m'.leftKeys = m.leftKeys
  leftIndex : m'.leftIndex = m.leftIndex
  rightKeys : m'.rightKeys = m.rightKeys.erase right
  filed : Filed m'.rightIndex m'.rightKeys
  counters : ∀ l, m'.counters.get? l =
    if l ∈ m.leftsAt right then
      (m.counters.get? l).map fun c => { c with hits := c.hits.erase right }
    else m.counters.get? l
  leftsAt : ∀ r, m'.leftsAt r = if right = r then [] else m.leftsAt r
  trimmed : m'.Trimmed
  dirty : ∀ {l}, l ∉ m'.dirty → l ∉ m.dirty ∧ l ∉ m.leftsAt right

theorem DropRight.renotes (hdrop : DropRight right m m') :
    Renotes (·.erase right) (m.leftsAt right) m m' := hdrop.counters

theorem DropRight.linked (hdrop : DropRight right m m') (h : Valid joiners expected dirty v out m) :
    l ∈ m'.leftsAt r ↔ ∃ c, m'.counters.get? l = some c ∧ r ∈ c.hits := by
  rw [hdrop.leftsAt, hdrop.renotes.hit_iff]
  by_cases he : right = r
  · subst he
    rw [if_pos rfl]
    refine iff_of_false List.not_mem_nil ?_
    rintro ⟨c, hc, hr⟩
    split at hr
    · exact ((h.hits_nodup hc).mem_erase_iff.1 hr).1 rfl
    · next hl => exact hl (h.linked.2 ⟨c, hc, hr⟩)
  · rw [if_neg he, h.linked]
    refine exists_congr fun c => and_congr_right fun hc => ?_
    split
    · simp [(h.hits_nodup hc).mem_erase_iff, Ne.symm he]
    · rfl

theorem Valid.dropRight (h : Valid joiners expected m.dirty v out m)
    (hdrop : DropRight right m m') :
    Valid joiners expected m'.dirty (v.drop .right right) out m' where
  lefts := by rw [hdrop.leftKeys]; exact h.lefts.drop_across (by simp)
  rights := by rw [hdrop.rightKeys]; exact h.rights.erase
  counted := by
    intro x
    rw [hdrop.renotes.isSome]
    exact h.counted.drop_across (by simp) x
  filedLeft := by rw [hdrop.leftKeys, hdrop.leftIndex]; exact h.filedLeft
  filedRight := hdrop.filed
  leftKey hk hl := by
    rw [hdrop.leftKeys] at hl
    exact h.leftFollows.drop hk hl
  rightKey hk hr := by
    rw [hdrop.rightKeys] at hr
    exact h.rightFollows.erase hk hr
  linked := hdrop.linked h
  hits_nodup hc := hdrop.renotes.hits_nodup (fun _ hn => hn.erase right) h.hits_nodup hc
  lefts_nodup := by
    intro r
    rw [hdrop.leftsAt]
    split
    · exact List.nodup_nil
    · exact h.lefts_nodup r
  trimmed := hdrop.trimmed
  keys_agree := by
    intro l r hl
    rw [hdrop.leftsAt] at hl
    split at hl
    · cases hl
    · next hne =>
      rw [hdrop.leftKeys, hdrop.rightKeys, Table.get?_erase, if_neg hne]
      exact h.keys_agree hl
  exact := by
    intro l r fl fr k hl hr hkl hkr
    rw [hdrop.leftKeys] at hkl
    rw [hdrop.rightKeys, Table.get?_erase] at hkr
    split at hkr
    · cases hkr
    · next hne =>
      rw [hdrop.leftsAt, if_neg hne]
      exact h.exact (View.known_drop.1 hl).2 (View.known_drop.1 hr).2 hkl hkr
  listing := by rw [hdrop.renotes.output?]; exact h.listing
  shown := by
    intro l f s told ho hk
    rw [hdrop.renotes.output?] at ho
    exact h.shown ho (View.known_drop.1 hk).2
  settled := by
    intro l c hl hc
    obtain ⟨hd, hl⟩ := hdrop.dirty hl
    rw [hdrop.counters, if_neg hl] at hc
    exact h.settled hd hc

/-! ## What a semijoin does on signals -/

/-- The candidates that a test accepts, where the test changes nothing. -/
theorem accepted_spec {test : TupleId → Work SemijoinMemory Bool} {w : Workbench SemijoinMemory}
    {p : TupleId → Except Error Bool} {candidates : List TupleId}
    (htest : ∀ x ∈ candidates, Action.Ensures E (test x) w fun b w' => w' = w ∧ p x = .ok b) :
    Action.Ensures E (accepted test candidates) w fun hits w' =>
      w' = w ∧ hits.Sublist candidates ∧ ∀ x ∈ candidates, (x ∈ hits ↔ p x = .ok true) := by
  induction candidates with
  | nil => exact ⟨rfl, .slnil, by simp⟩
  | cons x rest ih =>
    have hrest := ih fun y hy => htest y (List.mem_cons_of_mem x hy)
    unfold accepted
    rw [Action.ensures_bind]
    refine (htest x (by simp)).mono ?_
    rintro b _ ⟨rfl, hb⟩
    -- whether an item stands in the answer is the same question wherever it occurs
    have whole {hits : List TupleId} (hmem : ∀ y ∈ rest, (y ∈ hits ↔ p y = .ok true)) {y : TupleId}
        (hy : y ∈ x :: rest) (hne : y ≠ x) : y ∈ hits ↔ p y = .ok true :=
      hmem y ((List.mem_cons.1 hy).resolve_left hne)
    cases b with
    | true =>
      rw [if_pos rfl, Action.ensures_bind]
      refine hrest.mono ?_
      rintro hits _ ⟨rfl, hsub, hmem⟩
      refine ⟨rfl, hsub.cons_cons x, fun y hy => ?_⟩
      by_cases he : y = x
      · subst he; simp [hb]
      · rw [List.mem_cons, or_iff_right he]
        exact whole hmem hy he
    | false =>
      rw [if_neg (by simp)]
      refine hrest.mono ?_
      rintro hits _ ⟨rfl, hsub, hmem⟩
      refine ⟨rfl, hsub.cons x, fun y hy => ?_⟩
      by_cases he : y = x
      · subst he
        by_cases hr : y ∈ rest
        · exact hmem y hr
        · have hnot : y ∉ hits := fun hm => hr (hsub.subset hm)
          simp [hb, hnot]
      · exact whole hmem hy he

variable {left right : TupleId}

/-- The inputs of one side that are filed under a key and whose facts pass a test. -/
theorem acceptedFacts_spec {side : Side} {index : Index JoinKey TupleId}
    {keys : Table TupleId JoinKey} {test : Facts → Except Error Bool} (hb : Bench node away g₀ g)
    (hfeeds : g₀.Feeds node v) (hlists : v.Lists side keys) (hfiled : Filed index keys)
    {candidates : List TupleId} (hperm : candidates.Perm (index.find key))
    (htest : ∀ f e, test f = .error e → E e) :
    Action.Ensures E (accepted (fun x => do test (← Work.facts x)) candidates) ⟨m, g⟩
      fun hits w' => w' = ⟨m, g⟩ ∧ hits.Nodup ∧ (∀ {x}, x ∈ hits → keys.get? x = some key) ∧
        ∀ {x fx}, v.Known side x fx → keys.get? x = some key → (x ∈ hits ↔ test fx = .ok true) := by
  have hmem {x : TupleId} : x ∈ candidates ↔ keys.get? x = some key :=
    hperm.mem_iff.trans hfiled.mem_find
  let p (x : TupleId) : Except Error Bool := do test (← g₀.facts x)
  have hp : ∀ {x u}, g₀.find? x = some u → p x = test u.facts := by
    intro x u hu
    simp only [p, Agenda.facts_eq hu]
    rfl
  have htests : ∀ x ∈ candidates, Action.Ensures E
      (do test (← Work.facts x) : Work SemijoinMemory Bool) ⟨m, g⟩
      fun b w' => w' = ⟨m, g⟩ ∧ p x = .ok b := by
    intro x hx
    have hheld := (hlists x).1 (by simp [hmem.1 hx])
    obtain ⟨fx, hfx⟩ := Option.isSome_iff_exists.1 hheld
    obtain ⟨u, hu, hune, -⟩ := hfeeds hfx
    rw [Action.ensures_bind, hb.ensures_inputFacts hu hune, Action.ensures_lift, hp hu]
    exact ⟨fun b hb' => ⟨rfl, hb'⟩, htest u.facts⟩
  refine (accepted_spec htests).mono ?_
  rintro hits _ ⟨rfl, hsub, haccepted⟩
  refine ⟨rfl, (hperm.nodup_iff.2 (hfiled.nodup key)).sublist hsub, fun hx => hmem.1 (hsub.subset hx),
    fun {x fx} hk hx => ?_⟩
  obtain ⟨u, hu, -, hfresh⟩ := hfeeds hk.2
  rw [haccepted x (hmem.2 hx), hp hu, hfresh hk.1]

theorem findMatches_spec (hb : Bench node away g₀ g) (hfeeds : g₀.Feeds node v)
    (ht : g₀.find? left = some t) (hne : t.node ≠ node) (hrights : v.Lists .right m.rightKeys)
    (hfiled : Filed m.rightIndex m.rightKeys) (key : JoinKey)
    (haccept : ∀ l r e, Joiner.accept joiners l r = .error e → E e)
    {Q : List TupleId → Workbench SemijoinMemory → Prop}
    (hQ : ∀ hits, Matches joiners v m.rightKeys t.facts key hits →
      Q hits ⟨hits.foldl (link left) m, g⟩) :
    Action.Ensures E (findMatches joiners left key) ⟨m, g⟩ Q := by
  unfold findMatches
  simp only [Action.ensures_bind, hb.ensures_inputFacts ht hne, Bench.ensures_memory]
  refine Bench.ensures_inHashOrder fun candidates hperm => ?_
  refine (acceptedFacts_spec hb hfeeds hrights hfiled hperm (haccept t.facts)).mono ?_
  rintro hits _ ⟨rfl, hnodup, hfiledHits, hmem⟩
  simp only [Bench.ensures_modifyMemory, Action.ensures_pure]
  exact hQ hits ⟨hnodup, hfiledHits, hmem⟩

/-- The outputs stay where they are when the matches of a left input are found anew. -/
theorem output?_setLeft {output : Option TupleId} (hset : SetLeft left key hits output m m')
    (houtput : m.output? left = output) : m'.output? = m.output? := by
  funext l
  rw [output?, hset.counters]
  split
  · next he => rw [← he, houtput]; rfl
  · rfl

/-- The memory of a semijoin after a left input with given matches was taken in. -/
def enroll (m : SemijoinMemory) (left : TupleId) (key : JoinKey) (hits : List TupleId) :
    SemijoinMemory :=
  let m := hits.foldl (link left) m
  { m with
    leftIndex := m.leftIndex.insert key left
    leftKeys := m.leftKeys.insert left key
    counters := m.counters.insert left ⟨hits, none⟩
    dirty := m.dirty.insert left }

theorem setLeft_enroll (h : Valid joiners expected dirty v out m) (hnew : ¬ v.Held .left left)
    (key : JoinKey) (hits : List TupleId) :
    SetLeft left key hits none m (m.enroll left key hits) ∧
      (m.enroll left key hits).dirty = m.dirty.insert left := by
  have hunlinked : ∀ r, left ∉ m.leftsAt r := fun r hl => by
    obtain ⟨c, hc, -⟩ := h.linked.1 hl
    rw [h.counted.get?_none hnew] at hc
    cases hc
  obtain ⟨leftsOf, hlink⟩ := link_foldl left hits m
  have hleftsAt := leftsAt_link_foldl left hits m
  have htrimmed := h.trimmed.link_foldl left hits
  rw [hlink] at hleftsAt htrimmed
  have henroll : m.enroll left key hits = { m with
      leftsOf
      leftIndex := m.leftIndex.insert key left
      leftKeys := m.leftKeys.insert left key
      counters := m.counters.insert left ⟨hits, none⟩
      dirty := m.dirty.insert left } := by
    unfold enroll
    rw [hlink]
  have hat : ∀ r, (m.enroll left key hits).leftsAt r =
      if r ∈ hits then (m.leftsAt r).insert left else m.leftsAt r := by
    intro r
    rw [henroll]
    exact hleftsAt r
  refine ⟨{
    leftKeys := by rw [henroll]
    filed := by rw [henroll]; exact h.filedLeft.insert (h.lefts.get?_none hnew) key
    rightKeys := by rw [henroll]
    rightIndex := by rw [henroll]
    counters := fun l => by rw [henroll]; exact m.counters.get?_insert left l _
    leftsAt := fun {l r} => ?leftsAt
    nodup := fun r => ?nodup
    trimmed := by rw [henroll]; exact htrimmed }, by rw [henroll]⟩
  case leftsAt =>
    rw [hat]
    by_cases he : left = l
    · subst he
      by_cases hr : r ∈ hits <;> simp [hr, hunlinked r]
    · by_cases hr : r ∈ hits <;> simp [hr, he, Ne.symm he]
  case nodup =>
    rw [hat]
    split
    · exact (h.lefts_nodup r).insert
    · exact h.lefts_nodup r

theorem insertLeft_spec (hb : Bench node away g₀ g) (hfeeds : g₀.Feeds node v)
    (hv : Valid joiners expected m.dirty v (g.openAt node) m) (hnew : ¬ v.Held .left left)
    (ht : g₀.find? left = some t) (hne : t.node ≠ node)
    (haccept : ∀ l r e, Joiner.accept joiners l r = .error e → E e)
    (hkeys : ∀ facts e, Joiner.leftKey joiners facts = .error e → E e) :
    Action.Ensures E (insertLeft joiners left) ⟨m, g⟩ fun _ w' =>
      Bench node away g₀ w'.agenda ∧
        Valid joiners expected w'.memory.dirty (v.tell .left left t.facts) (w'.agenda.openAt node)
          w'.memory := by
  unfold insertLeft
  simp only [Action.ensures_bind, hb.ensures_inputFacts ht hne, Action.ensures_lift]
  refine ⟨fun key hkey => ?_, hkeys t.facts⟩
  refine findMatches_spec hb hfeeds ht hne hv.rights hv.filedRight key haccept fun hits hhits => ?_
  rw [Bench.ensures_modifyMemory]
  obtain ⟨hset, hdirty⟩ := setLeft_enroll hv hnew key hits
  have hnone : m.output? left = none := by simp [output?, hv.counted.get?_none hnew]
  have hsame := output?_setLeft hset hnone
  refine ⟨hb, hv.setLeft hset hhits hkey ?listing ?shown ?dirty⟩
  case listing =>
    rw [hsame]
    exact hv.listing
  case shown =>
    intro l f s ho
    rw [hsame] at ho
    refine .inr ⟨?_, ho⟩
    rintro rfl
    rw [outputUnder, hnone] at ho
    cases ho
  case dirty =>
    intro l hl
    replace hl : l ∉ (m.enroll left key hits).dirty := hl
    rw [hdirty, List.mem_insert_iff, not_or] at hl
    exact ⟨Ne.symm hl.1, hl.2⟩

/-- The memory of a semijoin after the matches of a left input were found anew. -/
def rematch (m : SemijoinMemory) (left : TupleId) (key : JoinKey) (leftIndex : Index JoinKey TupleId)
    (old new : List TupleId) : SemijoinMemory :=
  (setHits left new (new.foldl (link left) (old.foldl (unlink left)
    (setHits left [] { m with leftKeys := m.leftKeys.insert left key, leftIndex })))).markDirty left

theorem setLeft_rematch (h : Valid joiners expected dirty v out m)
    (hc : m.counters.get? left = some c) {leftIndex : Index JoinKey TupleId}
    (hindex : Filed leftIndex (m.leftKeys.insert left key)) (hits : List TupleId) :
    SetLeft left key hits c.output m (m.rematch left key leftIndex c.hits hits) ∧
      (m.rematch left key leftIndex c.hits hits).dirty = m.dirty.insert left := by
  let m₁ := setHits left [] { m with leftKeys := m.leftKeys.insert left key, leftIndex }
  obtain ⟨lefts₂, h₂⟩ := unlink_foldl left c.hits m₁
  obtain ⟨lefts₃, h₃⟩ := link_foldl left hits { m₁ with leftsOf := lefts₂ }
  have hleftsAt₂ := leftsAt_unlink_foldl left c.hits m₁ h.lefts_nodup
  have hleftsAt₃ := leftsAt_link_foldl left hits { m₁ with leftsOf := lefts₂ }
  have htrimmed₁ : m₁.Trimmed := h.trimmed
  have htrimmed := (htrimmed₁.unlink_foldl left c.hits).link_foldl left hits
  rw [h₂] at hleftsAt₂
  rw [h₃] at hleftsAt₃
  rw [h₂, h₃] at htrimmed
  have hrematch : m.rematch left key leftIndex c.hits hits
      = (setHits left hits { m₁ with leftsOf := lefts₃ }).markDirty left := by
    show (setHits left hits (hits.foldl (link left) (c.hits.foldl (unlink left) m₁))).markDirty left
      = _
    rw [h₂, h₃]
  have hat : ∀ r, (m.rematch left key leftIndex c.hits hits).leftsAt r
      = leftsAt { m₁ with leftsOf := lefts₃ } r := fun r => by rw [hrematch]; rfl
  have hold : ∀ r, leftsAt m₁ r = m.leftsAt r := fun r => rfl
  refine ⟨⟨by rw [hrematch]; rfl, by rw [hrematch]; exact hindex, by rw [hrematch]; rfl,
    by rw [hrematch]; rfl, ?_, ?_, ?_, by rw [hrematch]; exact htrimmed⟩, by rw [hrematch]; rfl⟩
  · intro l
    rw [hrematch]
    show ((m.counters.modify left _).modify left _).get? l = _
    rw [Table.get?_modify, Table.get?_modify, Table.get?_modify, hc]
    by_cases he : left = l <;> simp [he]
  · intro l r
    rw [hat, hleftsAt₃, hleftsAt₂, hold]
    by_cases he : left = l
    · subst he
      by_cases hr : r ∈ hits
      · simp [hr]
      · by_cases hr' : r ∈ c.hits
        · simp [hr, hr', (h.lefts_nodup r).mem_erase_iff]
        · have hnot : left ∉ m.leftsAt r := fun hl => hr' (h.mem_hits hc hl)
          simp [hr, hr', hnot]
    · by_cases hr : r ∈ hits <;> by_cases hr' : r ∈ c.hits <;>
        simp [hr, hr', he, Ne.symm he, (h.lefts_nodup r).mem_erase_iff]
  · intro r
    rw [hat, hleftsAt₃, hleftsAt₂, hold]
    have hn := h.lefts_nodup r
    split <;> split
    · exact (hn.erase left).insert
    · exact hn.insert
    · exact hn.erase left
    · exact hn

theorem renewLeft_spec (hb : Bench node away g₀ g) (hfeeds : g₀.Feeds node v)
    (hv : Valid joiners expected m.dirty v (g.openAt node) m) (hc : m.counters.get? left = some c)
    (ht : g₀.find? left = some t) (hne : t.node ≠ node)
    (hkey : Joiner.leftKey joiners t.facts = .ok key) {leftIndex : Index JoinKey TupleId}
    (hindex : Filed leftIndex (m.leftKeys.insert left key))
    (haccept : ∀ l r e, Joiner.accept joiners l r = .error e → E e) :
    Action.Ensures E (renewLeft joiners left key c)
      ⟨{ m with leftKeys := m.leftKeys.insert left key, leftIndex }, g⟩ fun _ w' =>
      Bench node away g₀ w'.agenda ∧
        Valid joiners expected w'.memory.dirty (v.tell .left left t.facts) (w'.agenda.openAt node)
          w'.memory := by
  unfold renewLeft
  simp only [Action.ensures_bind, Bench.ensures_modifyMemory]
  obtain ⟨leftsOf, hunlink⟩ := unlink_foldl left c.hits
    (setHits left [] { m with leftKeys := m.leftKeys.insert left key, leftIndex })
  rw [hunlink]
  refine findMatches_spec hb hfeeds ht hne ?rights ?filed key haccept fun hits hhits => ?_
  case rights => exact hv.rights
  case filed => exact hv.filedRight
  rw [← hunlink, Bench.ensures_modifyMemory]
  obtain ⟨hset, hdirty⟩ := setLeft_rematch hv hc hindex hits
  have hsame := output?_setLeft hset (by simp [output?, hc])
  have hundirty : ∀ {l}, l ∉ (m.rematch left key leftIndex c.hits hits).dirty →
      left ≠ l ∧ l ∉ m.dirty := by
    intro l hl
    rw [hdirty, List.mem_insert_iff, not_or] at hl
    exact ⟨Ne.symm hl.1, hl.2⟩
  cases houtput : c.output with
  | some output =>
    have hlisted : m.output? left = some output := by simp [output?, hc, houtput]
    obtain ⟨⟨old, sources⟩, hopen⟩ := hv.listing.opened hlisted
    simp only [Action.ensures_bind, hb.ensures_inputFacts ht hne]
    refine hb.refreshTuple hopen fun g' hb' hout => ?_
    rw [Bench.ensures_modifyMemory]
    refine ⟨hb', hv.setLeft hset hhits hkey ?_ ?_ hundirty⟩
    · rw [hsame]; exact hv.listing.change hlisted hout
    · intro l f s ho
      rw [hsame, hv.listing.outputUnder_change hlisted hout] at ho
      split at ho
      · next he => cases ho; exact .inl ⟨he, rfl⟩
      · next hne' => exact .inr ⟨hne', ho⟩
  | none =>
    rw [Bench.ensures_modifyMemory]
    refine ⟨hb, hv.setLeft hset hhits hkey ?_ ?_ hundirty⟩
    · rw [hsame]; exact hv.listing
    · intro l f s ho
      rw [hsame] at ho
      refine .inr ⟨fun he => ?_, ho⟩
      subst he
      simp [outputUnder, output?, hc, houtput] at ho

theorem updateLeft_spec (hb : Bench node away g₀ g) (hfeeds : g₀.Feeds node v)
    (hv : Valid joiners expected m.dirty v (g.openAt node) m) (hheld : v.Held .left left)
    (ht : g₀.find? left = some t) (hne : t.node ≠ node)
    (haccept : ∀ l r e, Joiner.accept joiners l r = .error e → E e)
    (hkeys : ∀ facts e, Joiner.leftKey joiners facts = .error e → E e) :
    Action.Ensures E (updateLeft joiners left) ⟨m, g⟩ fun _ w' =>
      Bench node away g₀ w'.agenda ∧
        Valid joiners expected w'.memory.dirty (v.tell .left left t.facts) (w'.agenda.openAt node)
          w'.memory := by
  obtain ⟨oldKey, hold⟩ := hv.lefts.get?_some hheld
  obtain ⟨c, hc⟩ := hv.counted.get?_some hheld
  unfold updateLeft
  simp only [Action.ensures_bind, hb.ensures_inputFacts ht hne, Action.ensures_lift,
    Bench.ensures_memory, Bench.ensures_setMemory, hold, hc]
  refine ⟨fun key hkey => ?_, hkeys t.facts⟩
  split
  · rw [Action.ensures_bind, Bench.ensures_modifyMemory]
    exact renewLeft_spec hb hfeeds hv hc ht hne hkey (hv.filedLeft.refile hold key) haccept
  · next he =>
    rw [Decidable.not_not] at he
    exact renewLeft_spec hb hfeeds hv hc ht hne hkey (hv.filedLeft.keep (he ▸ hold)) haccept

/-- The memory of a semijoin after a left input with given matches was given up. -/
def dismiss (m : SemijoinMemory) (left : TupleId) (key : JoinKey) (hits : List TupleId) :
    SemijoinMemory :=
  hits.foldl (unlink left) { m with
    leftKeys := m.leftKeys.erase left
    leftIndex := m.leftIndex.erase key left
    dirty := m.dirty.erase left
    counters := m.counters.erase left }

theorem dropLeft_dismiss (h : Valid joiners expected dirty v out m)
    (hkey : m.leftKeys.get? left = some key) (hc : m.counters.get? left = some c) :
    DropLeft left m (m.dismiss left key c.hits) ∧
      (m.dismiss left key c.hits).dirty = m.dirty.erase left := by
  let m₁ : SemijoinMemory := { m with
    leftKeys := m.leftKeys.erase left
    leftIndex := m.leftIndex.erase key left
    dirty := m.dirty.erase left
    counters := m.counters.erase left }
  obtain ⟨leftsOf, hunlink⟩ := unlink_foldl left c.hits m₁
  have htrimmed₁ : m₁.Trimmed := h.trimmed
  have hdismiss : m.dismiss left key c.hits = { m₁ with leftsOf } := hunlink
  have hat : ∀ r, (m.dismiss left key c.hits).leftsAt r =
      if r ∈ c.hits then (m.leftsAt r).erase left else m.leftsAt r :=
    leftsAt_unlink_foldl left c.hits m₁ h.lefts_nodup
  refine ⟨{
    leftKeys := by rw [hdismiss]
    filed := by rw [hdismiss]; exact h.filedLeft.erase hkey
    rightKeys := by rw [hdismiss]
    rightIndex := by rw [hdismiss]
    counters := by rw [hdismiss]
    leftsAt := fun {l r} => ?leftsAt
    nodup := fun r => ?nodup
    trimmed := htrimmed₁.unlink_foldl left c.hits }, by rw [hdismiss]⟩
  case leftsAt =>
    rw [hat]
    by_cases he : left = l
    · subst he
      by_cases hr : r ∈ c.hits
      · simp [hr, (h.lefts_nodup r).mem_erase_iff]
      · have hnot : left ∉ m.leftsAt r := fun hl => hr (h.mem_hits hc hl)
        simp [hr, hnot]
    · by_cases hr : r ∈ c.hits <;> simp [hr, he, Ne.symm he, (h.lefts_nodup r).mem_erase_iff]
  case nodup =>
    rw [hat]
    split
    · exact (h.lefts_nodup r).erase left
    · exact h.lefts_nodup r

theorem retractLeft_spec (hb : Bench node away g₀ g)
    (hv : Valid joiners expected m.dirty v (g.openAt node) m) (hheld : v.Held .left left) :
    Action.Ensures E (retractLeft left) ⟨m, g⟩ fun _ w' =>
      Bench node away g₀ w'.agenda ∧
        Valid joiners expected w'.memory.dirty (v.drop .left left) (w'.agenda.openAt node)
          w'.memory := by
  obtain ⟨key, hkey⟩ := hv.lefts.get?_some hheld
  obtain ⟨c, hc⟩ := hv.counted.get?_some hheld
  have hlabel : m.output? left = c.output := by simp [output?, hc]
  obtain ⟨hdrop, hdirty⟩ := dropLeft_dismiss hv hkey hc
  have hundirty : ∀ {l}, left ≠ l → l ∉ (m.dismiss left key c.hits).dirty → l ∉ m.dirty := by
    intro l hne hl hm
    rw [hdirty, List.mem_erase_of_ne (Ne.symm hne)] at hl
    exact hl hm
  -- Whatever becomes of the output of the input, it is not listed any more.
  have hvalid {out' : TupleId → Option (Facts × Sources)}
      (hout : ∀ o, out' o = if m.output? left = some o then none else g.openAt node o) :
      Valid joiners expected (m.dismiss left key c.hits).dirty (v.drop .left left) out'
        (m.dismiss left key c.hits) := by
    refine hv.dropLeft hdrop (hv.listing.clear (output?_dropLeft hdrop) hout) ?_ hundirty
    intro l e ho
    rw [hv.listing.outputUnder_clear (output?_dropLeft hdrop) hout] at ho
    split at ho
    · cases ho
    · next hne => exact ⟨hne, ho⟩
  unfold retractLeft
  simp only [Action.ensures_bind, Bench.ensures_memory, hkey, Bench.ensures_setMemory, hc]
  cases houtput : c.output with
  | some output =>
    have hlisted : m.output? left = some output := hlabel.trans houtput
    obtain ⟨e, hopen⟩ := hv.listing.opened hlisted
    refine hb.retract hopen fun g' hb' hout => ⟨hb', hvalid fun o => ?_⟩
    rw [hout, hlisted]
    simp only [Option.some.injEq]
  | none =>
    rw [Action.ensures_pure]
    refine ⟨hb, hvalid fun o => ?_⟩
    rw [hlabel, houtput]
    simp

/-- Changing what is noted of several left inputs, one after the other. -/
theorem hits_foldl {step : SemijoinMemory → TupleId → SemijoinMemory}
    (change : List TupleId → List TupleId)
    (hstep : ∀ m l, step m l = { m with
      counters := m.counters.modify l fun c => { c with hits := change c.hits }
      dirty := m.dirty.insert l })
    (lefts : List TupleId) (hnodup : lefts.Nodup) (m : SemijoinMemory) :
    ∃ counters dirty, lefts.foldl step m = { m with counters, dirty } ∧
      Renotes change lefts m { m with counters, dirty } ∧
      ∀ {l}, l ∉ dirty → l ∉ m.dirty ∧ l ∉ lefts := by
  induction lefts generalizing m with
  | nil => exact ⟨m.counters, m.dirty, rfl, fun l => by simp, by simp⟩
  | cons left rest ih =>
    rw [List.nodup_cons] at hnodup
    obtain ⟨counters, dirty, heq, hcounters, hdirty⟩ := ih hnodup.2 (step m left)
    rw [hstep] at heq hcounters hdirty
    refine ⟨counters, dirty, by rw [List.foldl_cons, hstep, heq], fun l => ?_, fun {l} hl => ?_⟩
    · rw [hcounters l]
      dsimp only
      rw [Table.get?_modify]
      by_cases he : left = l
      · subst he
        simp [hnodup.1]
      · simp [he, Ne.symm he]
    · obtain ⟨hd, hr⟩ := hdirty hl
      rw [List.mem_insert_iff, not_or] at hd
      exact ⟨hd.2, by simp [hd.1, hr]⟩

/-- The memory of a semijoin after a right input with given matches was taken in. -/
theorem setRight_insert (h : Valid joiners expected dirty v out m)
    (hnone : m.rightKeys.get? right = none) (key : JoinKey) (hnodup : lefts.Nodup) :
    SetRight right key lefts m (
      let m := lefts.foldl (addHit right) m
      { m with
        leftsOf := if lefts.isEmpty then m.leftsOf else m.leftsOf.insert right lefts
        rightIndex := m.rightIndex.insert key right
        rightKeys := m.rightKeys.insert right key }) := by
  obtain ⟨counters, dirty, heq, hcounters, hdirty⟩ :=
    hits_foldl (·.insert right) (fun _ _ => rfl) lefts hnodup m
  rw [show lefts.foldl (addHit right) m = _ from heq]
  refine ⟨rfl, rfl, rfl, rfl, hcounters, fun r => ?leftsAt, fun r => ?trimmed, hdirty⟩
  case leftsAt =>
    show ((if lefts.isEmpty = true then m.leftsOf else m.leftsOf.insert right lefts).get? r).getD []
      = _
    cases lefts with
    | nil =>
      by_cases he : right = r
      · subst he
        rw [if_pos rfl]
        exact h.unlinked hnone
      · rw [if_neg he]
        rfl
    | cons l rest =>
      simp only [List.isEmpty_cons, Bool.false_eq_true, if_false, Table.get?_insert]
      split <;> rfl
  case trimmed =>
    show (if lefts.isEmpty = true then m.leftsOf else m.leftsOf.insert right lefts).get? r ≠ _
    cases lefts with
    | nil => exact h.trimmed r
    | cons l rest =>
      simp only [List.isEmpty_cons, Bool.false_eq_true, if_false, Table.get?_insert]
      split
      · simp
      · exact h.trimmed r

theorem insertRight_spec (hb : Bench node away g₀ g) (hfeeds : g₀.Feeds node v)
    (hv : Valid joiners expected m.dirty v (g.openAt node) m) (hnew : ¬ v.Held .right right)
    (ht : g₀.find? right = some t) (hne : t.node ≠ node)
    (haccept : ∀ l r e, Joiner.accept joiners l r = .error e → E e)
    (hkeys : ∀ facts e, Joiner.rightKey joiners facts = .error e → E e) :
    Action.Ensures E (insertRight joiners right) ⟨m, g⟩ fun _ w' =>
      Bench node away g₀ w'.agenda ∧
        Valid joiners expected w'.memory.dirty (v.tell .right right t.facts) (w'.agenda.openAt node)
          w'.memory := by
  unfold insertRight
  simp only [Action.ensures_bind, hb.ensures_inputFacts ht hne, Action.ensures_lift,
    Bench.ensures_memory]
  refine ⟨fun key hkey => ?_, hkeys t.facts⟩
  refine Bench.ensures_inHashOrder fun candidates hperm => ?_
  refine (acceptedFacts_spec hb hfeeds hv.lefts hv.filedLeft hperm fun f => haccept f t.facts).mono ?_
  rintro lefts _ ⟨rfl, hnodup, hfiled, hmem⟩
  rw [Bench.ensures_modifyMemory]
  have hset := setRight_insert hv (hv.rights.get?_none hnew) key hnodup
  exact ⟨hb, hv.setRight hnew hset hnodup hfiled hmem hkey⟩

theorem retractRight_spec (hb : Bench node away g₀ g)
    (hv : Valid joiners expected m.dirty v (g.openAt node) m) (hheld : v.Held .right right) :
    Action.Ensures E (retractRight right) ⟨m, g⟩ fun _ w' =>
      Bench node away g₀ w'.agenda ∧
        Valid joiners expected w'.memory.dirty (v.drop .right right) (w'.agenda.openAt node)
          w'.memory := by
  obtain ⟨key, hkey⟩ := hv.rights.get?_some hheld
  unfold retractRight
  simp only [Action.ensures_bind, Bench.ensures_memory, hkey, Bench.ensures_setMemory]
  obtain ⟨counters, dirty, heq, hcounters, hdirty⟩ := hits_foldl (·.erase right)
    (fun _ _ => rfl) (m.leftsAt right) (hv.lefts_nodup right) { m with
      rightKeys := m.rightKeys.erase right
      rightIndex := m.rightIndex.erase key right
      leftsOf := m.leftsOf.erase right }
  rw [show ((m.leftsOf.get? right).getD []).foldl (removeHit right) _ = _ from heq]
  refine ⟨hb, hv.dropRight ⟨rfl, rfl, rfl, hv.filedRight.erase hkey, hcounters, ?_, ?_, hdirty⟩⟩
  · intro r
    show ((m.leftsOf.erase right).get? r).getD [] = _
    rw [Table.get?_erase]
    split <;> rfl
  · intro r
    show (m.leftsOf.erase right).get? r ≠ _
    rw [Table.get?_erase]
    split
    · simp
    · exact hv.trimmed r

/-- On each signal, a semijoin brings the matches of the input up to date. -/
theorem signal_spec (hb : Bench node away g₀ g) (hfeeds : g₀.Feeds node v)
    (hv : Valid joiners expected m.dirty v (g.openAt node) m) {side : Side} (hside : side ≠ .only)
    {signal : Signal} {input : TupleId} (hexpects : v.Expects signal side input)
    (ht : g₀.find? input = some t) (hne : t.node ≠ node)
    (haccept : ∀ l r e, Joiner.accept joiners l r = .error e → E e)
    (hleft : ∀ facts e, Joiner.leftKey joiners facts = .error e → E e)
    (hright : ∀ facts e, Joiner.rightKey joiners facts = .error e → E e) :
    Action.Ensures E (Network.signalSemijoin joiners input side signal) ⟨m, g⟩ fun _ w' =>
      Bench node away g₀ w'.agenda ∧
        Valid joiners expected w'.memory.dirty (v.after signal side input t.facts)
          (w'.agenda.openAt node) w'.memory := by
  have hnew (h : signal = .insert) : ¬ v.Held side input := fun hheld => hexpects.1 hheld h
  have hheld (h : signal ≠ .insert) : v.Held side input := hexpects.2 h
  cases side with
  | only => exact absurd rfl hside
  | left =>
    cases signal with
    | insert => exact insertLeft_spec hb hfeeds hv (hnew rfl) ht hne haccept hleft
    | update => exact updateLeft_spec hb hfeeds hv (hheld (by simp)) ht hne haccept hleft
    | retract => exact retractLeft_spec hb hv (hheld (by simp))
  | right =>
    cases signal with
    | insert => exact insertRight_spec hb hfeeds hv (hnew rfl) ht hne haccept hright
    | update =>
      show Action.Ensures E (updateRight joiners input) ⟨m, g⟩ _
      unfold updateRight
      rw [Action.ensures_bind]
      refine (retractRight_spec hb hv (hheld (by simp))).mono fun _ w' ⟨hb', hv'⟩ => ?_
      refine (insertRight_spec hb' hfeeds.drop hv' (by simp) ht hne haccept hright).mono
        fun _ w'' h => ?_
      rwa [View.tell_drop] at h
    | retract => exact retractRight_spec hb hv (hheld (by simp))

/-! ## Settling outputs -/

/-- The memory with another output of a left input. -/
def setOutput (m : SemijoinMemory) (left : TupleId) (c : Counter) (output : Option TupleId) :
    SemijoinMemory :=
  { m with counters := m.counters.insert left { c with output } }

theorem output?_setOutput (m : SemijoinMemory) (left : TupleId) (c : Counter)
    (output : Option TupleId) (x : TupleId) :
    (m.setOutput left c output).output? x = if left = x then output else m.output? x := by
  unfold output? setOutput
  rw [Table.get?_insert]
  split <;> rfl

/-- A left input that stands as expected, or is left to settle, may change its output. -/
theorem Valid.setOutput (h : Valid joiners expected dirty v out m)
    (hc : m.counters.get? left = some c) {output : Option TupleId}
    (hlisting : Listing (m.setOutput left c output).output? out') {shown : Option (Facts × Sources)}
    (hunder : ∀ l, outputUnder (m.setOutput left c output).output? out' l =
      if left = l then shown else outputUnder m.output? out l)
    (hshown : ∀ {f s told}, shown = some (f, s) → v.Known .left left told → f = told)
    {dirty' : List TupleId} (hdirty : ∀ {l}, left ≠ l → l ∉ dirty' → l ∉ dirty)
    (hsettled : output.isSome = true ↔ (!c.hits.isEmpty) = expected) :
    Valid joiners expected dirty' v out' (m.setOutput left c output) := by
  have hget : ∀ l, (m.setOutput left c output).counters.get? l =
      if left = l then some { c with output } else m.counters.get? l :=
    fun l => m.counters.get?_insert left l _
  refine { h with
    counted := fun l => ?counted
    linked := fun {l r} => ?linked
    hits_nodup := fun {l d} hd => ?hits_nodup
    listing := hlisting
    shown := fun {l f s told} ho hk => ?shown
    settled := fun {l d} hl hd => ?settled }
  case counted =>
    rw [hget, ← h.counted l]
    split
    · next he => subst he; simp [hc]
    · rfl
  case linked =>
    rw [hget]
    refine h.linked.trans ?_
    split
    · next he => subst he; simp [hc]
    · rfl
  case hits_nodup =>
    rw [hget] at hd
    split at hd
    · cases hd
      show c.hits.Nodup
      exact h.hits_nodup hc
    · exact h.hits_nodup hd
  case shown =>
    rw [hunder] at ho
    split at ho
    · next he => exact hshown ho (he ▸ hk)
    · exact h.shown ho hk
  case settled =>
    rw [hget] at hd
    split at hd
    · cases hd
      exact hsettled
    · next hne => exact h.settled (hdirty hne hl) hd

/-- The output of a left input need not change if it stands as expected. -/
theorem Valid.stands (h : Valid joiners expected (left :: dirty) v out m)
    (hc : ∀ {c}, m.counters.get? left = some c →
      (c.output.isSome = true ↔ (!c.hits.isEmpty) = expected)) :
    Valid joiners expected dirty v out m :=
  { h with
    settled := fun {l c} hl hd => by
      by_cases he : left = l
      · subst he
        exact hc hd
      · exact h.settled (List.not_mem_cons_of_ne_of_not_mem (Ne.symm he) hl) hd }

theorem settle_spec {rest : List TupleId} (hb : Bench node away g₀ g) (hfeeds : g₀.Feeds node v)
    (hv : Valid joiners expected (left :: rest) v (g.openAt node) m)
    (hlimit : ∀ limit details, E (.resourceLimit limit details)) :
    Action.Ensures E (settle node expected left) ⟨m, g⟩ fun _ w' =>
      Bench node away g₀ w'.agenda ∧ w'.memory.dirty = m.dirty ∧
        Valid joiners expected rest v (w'.agenda.openAt node) w'.memory := by
  have hundirty : ∀ {l}, left ≠ l → l ∉ rest → l ∉ left :: rest := fun hne hl =>
    List.not_mem_cons_of_ne_of_not_mem (Ne.symm hne) hl
  unfold settle
  rw [Action.ensures_bind, Bench.ensures_memory]
  split
  · next hnone =>
    refine ⟨hb, rfl, hv.stands fun hc => ?_⟩
    rw [hnone] at hc
    cases hc
  · next c hc =>
    have hlabel : m.output? left = c.output := by simp [output?, hc]
    dsimp only
    split
    · next hpasses houtput =>
      have hheld := (hv.counted left).1 (by simp [hc])
      obtain ⟨told, htold⟩ := Option.isSome_iff_exists.1 hheld
      obtain ⟨t, ht, hne, hfresh⟩ := hfeeds htold
      rw [Action.ensures_bind, hb.ensures_inputFacts ht hne, Action.ensures_bind]
      refine hb.create hlimit fun o g' hb' hfree hout => ?_
      have ho := Agenda.openAt_of_none node hfree
      have hlabel' := output?_setOutput m left c (some o)
      have hlisting := hv.listing.create ho (hlabel.trans houtput) hlabel' hout
      have hunder := hv.listing.outputUnder_create ho hlabel' hout
      rw [Bench.ensures_modifyMemory]
      refine ⟨hb', rfl, hv.setOutput hc hlisting hunder ?_ hundirty (by simpa using hpasses)⟩
      rintro f s told' ⟨⟩ ⟨hf, htold'⟩
      rw [htold] at htold'
      cases htold'
      exact hfresh hf
    · next o hpasses houtput =>
      have hlisted : m.output? left = some o := hlabel.trans houtput
      obtain ⟨e, hopen⟩ := hv.listing.opened hlisted
      have hlabel' := output?_setOutput m left c none
      rw [Action.ensures_bind, Bench.ensures_modifyMemory]
      refine hb.retract hopen fun g' hb' hout => ?_
      have hlisting := hv.listing.erase hlisted hlabel' hout
      have hunder := hv.listing.outputUnder_erase hlisted hlabel' hout
      exact ⟨hb', rfl, hv.setOutput hc hlisting hunder (fun hs => nomatch hs) hundirty
        (by simpa using hpasses)⟩
    · next hcreate hwithdraw =>
      refine ⟨hb, rfl, hv.stands fun {d} hd => ?_⟩
      rw [hc] at hd
      cases hd
      cases hp : (!c.hits.isEmpty) == expected with
      | true =>
        cases ho : c.output with
        | none => exact absurd ho (hcreate hp)
        | some o => simpa using hp
      | false =>
        cases ho : c.output with
        | none => simpa using hp
        | some o => exact absurd ho (hwithdraw o hp)

/-- After a refresh, every left input stands as expected. -/
theorem refresh_spec (hb : Bench node away g₀ g) (hfeeds : g₀.Feeds node v)
    (hv : Valid joiners expected m.dirty v (g.openAt node) m)
    (hlimit : ∀ limit details, E (.resourceLimit limit details)) :
    Action.Ensures E (refresh node expected) ⟨m, g⟩ fun _ w' =>
      Bench node away g₀ w'.agenda ∧ w'.memory.dirty = [] ∧
        Valid joiners expected [] v (w'.agenda.openAt node) w'.memory := by
  unfold refresh
  simp only [Action.ensures_bind, Bench.ensures_memory]
  refine Bench.ensures_inHashOrder fun dirty hperm => ?_
  rw [Bench.ensures_modifyMemory]
  refine Action.Ensures.forM (fun rest (w' : Workbench SemijoinMemory) =>
    Bench node away g₀ w'.agenda ∧ w'.memory.dirty = [] ∧
    Valid joiners expected rest v (w'.agenda.openAt node) w'.memory) ?_
    ⟨hb, rfl, { hv with settled := fun hl => hv.settled fun h => hl (hperm.mem_iff.2 h) }⟩
  rintro left rest ⟨m', g'⟩ ⟨hb', hd, hv'⟩
  refine (settle_spec hb' hfeeds hv' hlimit).mono ?_
  rintro _ w' ⟨hb'', hd', hv''⟩
  exact ⟨hb'', hd'.trans hd, hv''⟩

end SemijoinMemory

end ConstraintStreams
