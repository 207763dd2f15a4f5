import ConstraintStreams.Proofs.Table
import ConstraintStreams.Tuple.Store

/-!
# Stores hand out fresh names

A store is sound when its free slots are indeed free and no two live tuples share a slot. A sound
store stays sound, and names a new tuple by a name that no live tuple has.
-/

namespace ConstraintStreams

namespace TupleStore

/-- Free slots are free, used slots are below `unused`, no two live tuples share a slot, and no name is
of a generation to come. -/
structure Sound (s : TupleStore) : Prop where
  slot_lt : ∀ {id t}, s.find? id = some t → id.slot < s.unused
  slot_used : ∀ {id t}, s.find? id = some t → id.slot ∉ s.free
  slot_inj : ∀ {id t id' t'}, s.find? id = some t → s.find? id' = some t' → id.slot = id'.slot →
    id = id'
  free_lt : ∀ slot ∈ s.free, slot < s.unused
  free_nodup : s.free.Nodup
  generation_le : ∀ {id t}, s.find? id = some t → id.generation ≤ s.generation

@[simp] theorem find?_empty (id : TupleId) : (∅ : TupleStore).find? id = none := rfl

@[simp] theorem find?_set (s : TupleStore) (id id' : TupleId) (t : Tuple) :
    (s.set id t).find? id' = if id = id' then some t else s.find? id' :=
  s.live.get?_insert id id' t

theorem find?_insert (s : TupleStore) (t : Tuple) (id : TupleId) :
    (s.insert t).2.find? id = if (s.insert t).1 = id then some t else s.find? id := by
  unfold insert
  split
  · exact s.live.get?_insert _ id t
  · exact s.live.get?_insert _ id t

theorem find?_erase (s : TupleStore) (id id' : TupleId) :
    (s.erase id).find? id' = if id = id' then none else s.find? id' := by
  unfold erase
  split
  · exact s.live.get?_erase id id'
  · next h =>
    split
    · next he => subst he; simpa [contains, Table.contains, find?] using h
    · rfl

theorem find?_clear (s : TupleStore) (id : TupleId) : s.clear.find? id = none := rfl

theorem get_eq_ok {s : TupleStore} {id : TupleId} {t : Tuple} (h : s.find? id = some t) :
    s.get id = .ok t := by
  simp [get, h]

theorem find?_of_get {s : TupleStore} {id : TupleId} {t : Tuple} (h : s.get id = .ok t) :
    s.find? id = some t := by
  unfold get at h
  split at h
  · next u hu => cases h; exact hu
  · cases h

theorem Sound.empty : Sound ∅ where
  slot_lt h := by simp at h
  slot_used h := by simp at h
  slot_inj h := by simp at h
  free_lt := by simp [EmptyCollection.emptyCollection]
  free_nodup := List.nodup_nil
  generation_le h := by simp at h

theorem Sound.clear (s : TupleStore) : s.clear.Sound where
  slot_lt h := by simp [find?_clear] at h
  slot_used h := by simp [find?_clear] at h
  slot_inj h := by simp [find?_clear] at h
  free_lt := by simp [TupleStore.clear]
  free_nodup := List.nodup_nil
  generation_le h := by simp [find?_clear] at h

theorem generation_le_clear (s : TupleStore) : s.generation ≤ s.clear.generation := by
  unfold clear
  split
  · exact Nat.le_refl _
  · exact Nat.le_succ _

/-- Clearing a store that is not empty starts a new generation. -/
theorem Sound.generation_lt_clear {s : TupleStore} (h : s.Sound) {id : TupleId} {t : Tuple}
    (ht : s.find? id = some t) : id.generation < s.clear.generation := by
  have hlive : s.live.isEmpty = false := by
    have hmem := Table.get?_eq_some_iff.1 (show s.live.get? id = some t from ht)
    exact List.isEmpty_eq_false_iff.2 (List.ne_nil_of_mem hmem)
  have hle := h.generation_le ht
  simp only [TupleStore.clear, hlive, Bool.false_eq_true, if_false]
  omega

/-- A slot that no live tuple of the store is in has been taken for a new one. -/
structure Opens (s s' : TupleStore) (slot : Nat) : Prop where
  vacant : ∀ {id t}, s.find? id = some t → id.slot ≠ slot
  slot_lt : slot < s'.unused
  slot_used : slot ∉ s'.free
  unused_le : s.unused ≤ s'.unused
  free_sublist : s'.free.Sublist s.free

/-- A new tuple is put in a slot that was freed, or else in the first one that was never used. -/
theorem Sound.opens {s : TupleStore} (h : s.Sound) (t : Tuple) :
    Opens s (s.insert t).2 (s.insert t).1.slot := by
  unfold TupleStore.insert
  split
  · next slot free hfree =>
    have hnodup := h.free_nodup
    rw [hfree, List.nodup_cons] at hnodup
    have hmem : slot ∈ s.free := by rw [hfree]; exact List.mem_cons_self
    exact {
      vacant := fun hu he => h.slot_used hu (he ▸ hmem)
      slot_lt := h.free_lt slot hmem
      slot_used := hnodup.1
      unused_le := Nat.le_refl _
      free_sublist := by rw [hfree]; exact List.sublist_cons_self slot free }
  · next hfree =>
    exact {
      vacant := fun hu => Nat.ne_of_lt (h.slot_lt hu)
      slot_lt := Nat.lt_succ_self _
      slot_used := by simp [hfree]
      unused_le := Nat.le_succ _
      free_sublist := .refl _ }

/-- A new tuple gets a name that no live tuple has. -/
theorem Sound.find?_new {s : TupleStore} (h : s.Sound) (t : Tuple) : s.find? (s.insert t).1 = none :=
  Option.eq_none_iff_forall_not_mem.2 fun _ hu => (h.opens t).vacant hu rfl

theorem Sound.set {s : TupleStore} (h : s.Sound) {id : TupleId} {old : Tuple}
    (hold : s.find? id = some old) (t : Tuple) : (s.set id t).Sound := by
  have live : ∀ {id' t'}, (s.set id t).find? id' = some t' → ∃ u, s.find? id' = some u := by
    intro id' t' h'
    rw [find?_set] at h'
    split at h'
    · next he => exact ⟨old, he ▸ hold⟩
    · exact ⟨t', h'⟩
  constructor
  · intro id' t' h'
    obtain ⟨u, hu⟩ := live h'
    exact h.slot_lt hu
  · intro id' t' h'
    obtain ⟨u, hu⟩ := live h'
    exact h.slot_used hu
  · intro a t' b u' ha hb
    obtain ⟨u, hu⟩ := live ha
    obtain ⟨v, hv⟩ := live hb
    exact h.slot_inj hu hv
  · exact h.free_lt
  · exact h.free_nodup
  · intro id' t' h'
    obtain ⟨u, hu⟩ := live h'
    exact h.generation_le hu

/-- A new name is of the current generation. -/
theorem generation_insert (s : TupleStore) (t : Tuple) :
    (s.insert t).1.generation = s.generation ∧ (s.insert t).2.generation = s.generation := by
  unfold insert
  split <;> exact ⟨rfl, rfl⟩

theorem Sound.generation_insert_le {s : TupleStore} (h : s.Sound) (t : Tuple) {id : TupleId}
    {u : Tuple} (hu : (s.insert t).2.find? id = some u) :
    id.generation ≤ (s.insert t).2.generation := by
  obtain ⟨hname, hgen⟩ := s.generation_insert t
  rw [find?_insert] at hu
  rw [hgen]
  split at hu
  · next he => exact he ▸ Nat.le_of_eq hname
  · exact h.generation_le hu

theorem Sound.insert {s : TupleStore} (h : s.Sound) (t : Tuple) : (s.insert t).2.Sound := by
  have ho := h.opens t
  refine {
    slot_lt := fun {id u} hu => ?slot_lt
    slot_used := fun {id u} hu => ?slot_used
    slot_inj := fun {a u b v} ha hb hslot => ?slot_inj
    free_lt := fun slot hmem =>
      Nat.lt_of_lt_of_le (h.free_lt slot (ho.free_sublist.subset hmem)) ho.unused_le
    free_nodup := h.free_nodup.sublist ho.free_sublist
    generation_le := h.generation_insert_le t }
  case slot_lt =>
    rw [find?_insert] at hu
    split at hu
    · next he => exact he ▸ ho.slot_lt
    · exact Nat.lt_of_lt_of_le (h.slot_lt hu) ho.unused_le
  case slot_used =>
    rw [find?_insert] at hu
    split at hu
    · next he => exact he ▸ ho.slot_used
    · exact fun hmem => h.slot_used hu (ho.free_sublist.subset hmem)
  case slot_inj =>
    rw [find?_insert] at ha hb
    split at ha <;> split at hb
    · next he he' => exact he.symm.trans he'
    · next he _ => subst he; exact absurd hslot.symm (ho.vacant hb)
    · next _ he => subst he; exact absurd hslot (ho.vacant ha)
    · exact h.slot_inj ha hb hslot

/-- Freeing the slot of a live tuple starts a new generation. -/
theorem generation_erase {s : TupleStore} {id : TupleId} {t : Tuple} (ht : s.find? id = some t) :
    (s.erase id).generation = s.generation + 1 := by
  have hc : s.contains id = true := Option.isSome_iff_exists.2 ⟨t, ht⟩
  simp [TupleStore.erase, hc]

theorem Sound.erase {s : TupleStore} (h : s.Sound) (id : TupleId) : (s.erase id).Sound := by
  by_cases hc : s.contains id = true
  · obtain ⟨t, ht⟩ : ∃ t, s.find? id = some t := Option.isSome_iff_exists.1 hc
    have live : ∀ {id' t'}, (s.erase id).find? id' = some t' → id ≠ id' ∧ s.find? id' = some t' := by
      intro id' t' h'
      rw [find?_erase] at h'
      split at h'
      · cases h'
      · next hne => exact ⟨hne, h'⟩
    have hfree : (s.erase id).free = id.slot :: s.free := by simp [TupleStore.erase, hc]
    have hunused : (s.erase id).unused = s.unused := by simp [TupleStore.erase, hc]
    constructor
    · intro id' t' h'
      rw [hunused]
      exact h.slot_lt (live h').2
    · intro id' t' h'
      obtain ⟨hne, h'⟩ := live h'
      rw [hfree, List.mem_cons, not_or]
      exact ⟨fun hslot => hne (h.slot_inj ht h' hslot.symm), h.slot_used h'⟩
    · intro a u b v ha hb
      exact h.slot_inj (live ha).2 (live hb).2
    · intro slot hmem
      rw [hfree, List.mem_cons] at hmem
      rw [hunused]
      exact hmem.elim (fun he => he ▸ h.slot_lt ht) (h.free_lt slot)
    · rw [hfree, List.nodup_cons]
      exact ⟨h.slot_used ht, h.free_nodup⟩
    · intro id' t' h'
      rw [generation_erase ht]
      exact Nat.le_succ_of_le (h.generation_le (live h').2)
  · rw [Bool.not_eq_true] at hc
    simpa [TupleStore.erase, hc] using h

end TupleStore

end ConstraintStreams
