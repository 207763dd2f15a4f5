import Mathlib.Data.List.Nodup
import ConstraintStreams.Joiner.Index
import ConstraintStreams.Proofs.Table
import ConstraintStreams.Tuple.Id

/-!
# Filed inputs

One side of a join files each of its inputs under one key and remembers the key. `Filed` says that
the two agree, so that the inputs found under a key are those that have it.
-/

namespace ConstraintStreams

namespace Index

variable {κ α : Type} [DecidableEq κ] [DecidableEq α]

omit [DecidableEq α] in
@[simp] theorem find_empty (k : κ) : (∅ : Index κ α).find k = [] := rfl

theorem find_insert (x : Index κ α) (k k' : κ) (a : α) :
    (x.insert k a).find k' =
      if k = k' then (if a ∈ x.find k then x.find k else x.find k ++ [a]) else x.find k' := by
  unfold insert
  by_cases hc : x.contains k a = true
  · rw [if_pos hc, if_pos (List.contains_iff_mem.1 hc)]
    split
    · next he => rw [he]
    · rfl
  · rw [if_neg hc, if_neg fun hm => hc (List.contains_iff_mem.2 hm)]
    simp only [find, Table.get?_insert]
    split <;> rfl

theorem find_erase (x : Index κ α) (k k' : κ) (a : α) :
    (x.erase k a).find k' = if k = k' then (x.find k).erase a else x.find k' := by
  unfold erase
  by_cases hc : x.contains k a = true
  · rw [dif_pos hc]
    dsimp only
    split
    · next hrest =>
      simp only [find, Table.get?_erase] at hrest ⊢
      split
      · rw [hrest]; rfl
      · rfl
    · next b bs hrest =>
      simp only [find, Table.get?_insert] at hrest ⊢
      split
      · rw [hrest]; rfl
      · rfl
  · rw [dif_neg hc]
    have hnot : a ∉ x.find k := fun hm => hc (List.contains_iff_mem.2 hm)
    split
    · next he => rw [List.erase_of_not_mem hnot, he]
    · rfl

/-- No bucket stays behind without items. -/
def Trimmed (x : Index κ α) : Prop := ∀ k, x.buckets.get? k ≠ some []

theorem Trimmed.insert {x : Index κ α} (h : x.Trimmed) (k : κ) (a : α) : (x.insert k a).Trimmed := by
  intro k'
  unfold Index.insert
  split
  · exact h k'
  · rw [Table.get?_insert]
    split
    · simp
    · exact h k'

theorem Trimmed.erase {x : Index κ α} (h : x.Trimmed) (k : κ) (a : α) : (x.erase k a).Trimmed := by
  intro k'
  unfold Index.erase
  split
  · dsimp only
    split
    · rw [Table.get?_erase]
      split
      · exact Option.some_ne_none _ ∘ Eq.symm
      · exact h k'
    · rw [Table.get?_insert]
      split
      · simp
      · exact h k'
  · exact h k'

/-- Taking an item out lowers the count by one if the item was there, and never below zero. -/
theorem size_erase (x : Index κ α) (k : κ) (a : α) :
    (x.erase k a).size + (if x.contains k a then 1 else 0) = x.size := by
  by_cases hc : x.contains k a = true
  · have hsize : (x.erase k a).size = x.size - 1 := by
      unfold erase
      rw [dif_pos hc]
      dsimp only
      split <;> rfl
    rw [hsize, if_pos hc]
    exact Nat.succ_pred_eq_of_pos (size_pos_of_contains hc)
  · unfold erase
    rw [dif_neg hc, if_neg hc]
    rfl

end Index

/-- Indexes with the same buckets are the same. -/
theorem Index.eq_of_buckets {κ α : Type} {x y : Index κ α} (h : x.buckets = y.buckets) : x = y := by
  obtain ⟨bx, sx, hx⟩ := x
  obtain ⟨by', sy, hy⟩ := y
  cases h
  cases hx.trans hy.symm
  rfl

/-- Each input is filed under the key that is remembered of it, once. -/
structure Filed {κ : Type} [DecidableEq κ] (index : Index κ TupleId) (keys : Table TupleId κ) :
    Prop where
  mem_find : ∀ {k input}, input ∈ index.find k ↔ keys.get? input = some k
  nodup : ∀ k, (index.find k).Nodup
  trimmed : index.Trimmed

namespace Filed

variable {κ : Type} [DecidableEq κ] {index : Index κ TupleId} {keys : Table TupleId κ}
  {input : TupleId} {k k' : κ}

theorem empty : Filed (∅ : Index κ TupleId) ∅ where
  mem_find := by simp [EmptyCollection.emptyCollection, Index.find]
  nodup k := by simp
  trimmed k := by simp [EmptyCollection.emptyCollection]

/-- Where no key is remembered, nothing is filed. -/
theorem eq_empty (h : Filed index ∅) : index = ∅ := by
  refine Index.eq_of_buckets (Table.eq_empty fun k => ?_)
  cases hk : index.buckets.get? k with
  | none => rfl
  | some items =>
    cases items with
    | nil => exact absurd hk (h.trimmed k)
    | cons input rest =>
      have hfind : input ∈ index.find k := by simp [Index.find, hk]
      cases h.mem_find.1 hfind

theorem insert (h : Filed index keys) (hnew : keys.get? input = none) (k : κ) :
    Filed (index.insert k input) (keys.insert input k) := by
  have hnot : ∀ k', input ∉ index.find k' := fun k' hm => by
    have := h.mem_find.1 hm
    rw [hnew] at this
    cases this
  constructor
  · intro k' x
    rw [Index.find_insert, Table.get?_insert, if_neg (hnot k)]
    by_cases hx : input = x
    · subst hx
      by_cases hk : k = k'
      · simp [hk]
      · simp [hk, hnot k']
    · rw [if_neg hx, ← h.mem_find]
      split
      · next hk => simp [hk, Ne.symm hx]
      · rfl
  · intro k'
    rw [Index.find_insert, if_neg (hnot k)]
    split
    · rw [List.nodup_append]
      refine ⟨h.nodup k, List.pairwise_singleton _ _, fun a ha b hb => ?_⟩
      rw [List.mem_singleton] at hb
      subst hb
      exact fun he => hnot k (he ▸ ha)
    · exact h.nodup k'
  · exact h.trimmed.insert k input

theorem erase (h : Filed index keys) (hold : keys.get? input = some k) :
    Filed (index.erase k input) (keys.erase input) := by
  constructor
  · intro k' x
    rw [Index.find_erase, Table.get?_erase]
    by_cases hx : input = x
    · subst hx
      rw [if_pos rfl]
      by_cases hk : k = k'
      · simp [hk, (h.nodup k').mem_erase_iff]
      · rw [if_neg hk, h.mem_find, hold]
        simp [hk]
    · rw [if_neg hx, ← h.mem_find]
      split
      · next hk =>
        rw [(h.nodup k).mem_erase_iff, hk]
        simp [Ne.symm hx]
      · rfl
  · intro k'
    rw [Index.find_erase]
    split
    · exact (h.nodup k).erase input
    · exact h.nodup k'
  · exact h.trimmed.erase k input

/-- Filing an input under another key. -/
theorem refile (h : Filed index keys) (hold : keys.get? input = some k) (k' : κ) :
    Filed ((index.erase k input).insert k' input) (keys.insert input k') := by
  have hmoved := (h.erase hold).insert ((keys.get?_erase input input).trans (if_pos rfl)) k'
  refine ⟨fun {x a} => ?_, hmoved.nodup, hmoved.trimmed⟩
  rw [hmoved.mem_find, Table.get?_insert, Table.get?_insert, Table.get?_erase]
  split <;> rfl

/-- Remembering the key once more. -/
theorem keep (h : Filed index keys) (hold : keys.get? input = some k) :
    Filed index (keys.insert input k) := by
  refine ⟨fun {k' x} => ?_, h.nodup, h.trimmed⟩
  rw [h.mem_find, Table.get?_insert]
  split
  · next he => rw [← he, hold]
  · rfl

end Filed

end ConstraintStreams
