import Mathlib.Data.Finset.Card
import Mathlib.Data.Finset.Image
import Mathlib.Data.List.Forall2
import ConstraintStreams.Proofs.Joiner.Index

/-!
# Indexes are multimaps

An index with a count of its own and buckets that come and go is, for whoever looks, a finite set of
entries: an item filed under a key. `Index.Holds` says so, and every step keeps it. What the entries are
follows from the steps: `Stands` holds of the items that were filed under a key and not taken out since.

The keys of joins are compared property by property. `JoinKey.agrees` goes by the types and the values of
the properties, as they are known only when two keys meet, and comes to equality.
-/

namespace ConstraintStreams

/-- A step on an index: an item is filed under a key or taken out from under it. -/
inductive Filing (κ α : Type)
  | put (k : κ) (a : α)
  | remove (k : κ) (a : α)

namespace Filing

variable {κ α : Type}

/-- An item was filed under a key and has not been taken out since. -/
def Stands (steps : List (Filing κ α)) (k : κ) (a : α) : Prop :=
  ∃ before since, steps = before ++ put k a :: since ∧ remove k a ∉ since

theorem not_stands_nil {k : κ} {a : α} : ¬ Stands [] k a := by
  rintro ⟨before, since, h, -⟩
  cases before <;> cases h

theorem stands_concat_put {steps : List (Filing κ α)} {k k' : κ} {a a' : α} :
    Stands (steps ++ [put k a]) k' a' ↔ (k = k' ∧ a = a') ∨ Stands steps k' a' := by
  constructor
  · rintro ⟨before, since, h, hnot⟩
    rcases List.eq_nil_or_concat since with rfl | ⟨since, last, rfl⟩
    · obtain ⟨-, hlast⟩ := List.append_inj' h rfl
      cases hlast
      exact .inl ⟨rfl, rfl⟩
    · rw [List.concat_eq_append, ← List.cons_append, ← List.append_assoc] at h
      obtain ⟨hfront, -⟩ := List.append_inj' h rfl
      refine .inr ⟨before, since, hfront, fun hm => hnot ?_⟩
      rw [List.concat_eq_append]
      exact List.mem_append_left _ hm
  · rintro (⟨rfl, rfl⟩ | ⟨before, since, rfl, hnot⟩)
    · exact ⟨steps, [], rfl, List.not_mem_nil⟩
    · refine ⟨before, since ++ [put k a], by simp, fun hm => ?_⟩
      rcases List.mem_append.1 hm with hm | hm
      · exact hnot hm
      · cases List.mem_singleton.1 hm

theorem stands_concat_remove {steps : List (Filing κ α)} {k k' : κ} {a a' : α} :
    Stands (steps ++ [remove k a]) k' a' ↔ ¬ (k = k' ∧ a = a') ∧ Stands steps k' a' := by
  constructor
  · rintro ⟨before, since, h, hnot⟩
    rcases List.eq_nil_or_concat since with rfl | ⟨since, last, rfl⟩
    · obtain ⟨-, hlast⟩ := List.append_inj' h rfl
      cases hlast
    · rw [List.concat_eq_append] at h hnot
      rw [← List.cons_append, ← List.append_assoc] at h
      obtain ⟨hfront, hlast⟩ := List.append_inj' h rfl
      cases hlast
      refine ⟨?_, before, since, hfront, fun hm => hnot (List.mem_append_left _ hm)⟩
      rintro ⟨rfl, rfl⟩
      exact hnot (List.mem_append_right _ (List.mem_singleton.2 rfl))
  · rintro ⟨hother, before, since, rfl, hnot⟩
    refine ⟨before, since ++ [remove k a], by simp, fun hm => ?_⟩
    rcases List.mem_append.1 hm with hm | hm
    · exact hnot hm
    · cases List.mem_singleton.1 hm
      exact hother ⟨rfl, rfl⟩

end Filing

namespace Index

variable {κ α : Type} [DecidableEq κ] [DecidableEq α]

/-- Takes an item out from under a key, and answers whether it was there. -/
def remove (x : Index κ α) (k : κ) (a : α) : Bool × Index κ α := (x.contains k a, x.erase k a)

/-- The index after a step. -/
def step (x : Index κ α) : Filing κ α → Index κ α
  | .put k a => x.insert k a
  | .remove k a => (x.remove k a).2

/-- The index after some steps, the first of which finds it empty. -/
def after (steps : List (Filing κ α)) : Index κ α := steps.foldl step ∅

/-- The index holds some entries and nothing else: every item once under its key, no bucket without an
item, and the right count. -/
structure Holds (x : Index κ α) (entries : Finset (κ × α)) : Prop where
  mem_find : ∀ {k a}, a ∈ x.find k ↔ (k, a) ∈ entries
  nodup : ∀ k, (x.find k).Nodup
  trimmed : x.Trimmed
  size : x.size = entries.card

theorem size_insert (x : Index κ α) (k : κ) (a : α) :
    (x.insert k a).size = x.size + if x.contains k a then 0 else 1 := by
  unfold insert
  split <;> rfl

namespace Holds

variable {x : Index κ α} {entries : Finset (κ × α)}

theorem contains_iff (h : x.Holds entries) {k : κ} {a : α} :
    x.contains k a = true ↔ (k, a) ∈ entries := by
  rw [← h.mem_find]
  exact List.contains_iff_mem

omit [DecidableEq α] in
theorem empty : (∅ : Index κ α).Holds ∅ where
  mem_find := by simp
  nodup k := by simp
  trimmed k := Option.some_ne_none _ ∘ Eq.symm
  size := rfl

theorem insert (h : x.Holds entries) (k : κ) (a : α) : (x.insert k a).Holds (Insert.insert (k, a) entries) where
  mem_find {k' a'} := by
    rw [find_insert, Finset.mem_insert, ← h.mem_find, Prod.mk.injEq]
    by_cases hk : k = k'
    · subst hk
      rw [if_pos rfl]
      split
      · next hm => exact ⟨.inr, fun hm' => hm'.elim (fun e => e.2 ▸ hm) id⟩
      · simp [or_comm]
    · rw [if_neg hk]
      simp [Ne.symm hk]
  nodup k' := by
    rw [find_insert]
    split
    · split
      · exact h.nodup k
      · next hnot =>
        rw [List.nodup_append]
        refine ⟨h.nodup k, List.pairwise_singleton _ _, fun b hb c hc => ?_⟩
        rw [List.mem_singleton.1 hc]
        exact fun he => hnot (he ▸ hb)
    · exact h.nodup k'
  trimmed := h.trimmed.insert k a
  size := by
    rw [size_insert, h.size]
    split
    · next hc => rw [Finset.insert_eq_of_mem (h.contains_iff.1 hc), Nat.add_zero]
    · next hc => rw [Finset.card_insert_of_notMem (mt h.contains_iff.2 hc)]

theorem erase (h : x.Holds entries) (k : κ) (a : α) : (x.erase k a).Holds (entries.erase (k, a)) where
  mem_find {k' a'} := by
    rw [find_erase, Finset.mem_erase, ← h.mem_find, Ne, Prod.mk.injEq]
    split
    · next hk =>
      subst hk
      rw [(h.nodup k).mem_erase_iff]
      simp
    · next hk => simp [Ne.symm hk]
  nodup k' := by
    rw [find_erase]
    split
    · exact (h.nodup k).erase a
    · exact h.nodup k'
  trimmed := h.trimmed.erase k a
  size := by
    have hsize := x.size_erase k a
    by_cases hm : (k, a) ∈ entries
    · rw [if_pos (h.contains_iff.2 hm), h.size] at hsize
      rw [Finset.card_erase_of_mem hm, ← hsize, Nat.add_sub_cancel]
    · rw [if_neg (mt h.contains_iff.1 hm), h.size] at hsize
      rwa [Finset.erase_eq_of_notMem hm]

omit [DecidableEq α] in
/-- There is one bucket for each key that has an entry. -/
theorem keyCount (h : x.Holds entries) : x.keyCount = (entries.image Prod.fst).card := by
  have hkeys : x.buckets.keys.toFinset = entries.image Prod.fst := by
    ext k
    rw [List.mem_toFinset, ← Table.contains_iff, Table.contains, Finset.mem_image]
    constructor
    · intro hk
      obtain ⟨items, hitems⟩ := Option.isSome_iff_exists.1 hk
      obtain ⟨a, ha⟩ := List.exists_mem_of_ne_nil items fun he => h.trimmed k (he ▸ hitems)
      exact ⟨(k, a), h.mem_find.1 (by simpa [find, hitems] using ha), rfl⟩
    · rintro ⟨⟨k, a⟩, hm, rfl⟩
      by_contra hnone
      have hfind := h.mem_find.2 hm
      rw [find, Option.not_isSome_iff_eq_none.1 hnone] at hfind
      cases hfind
  calc x.keyCount = x.buckets.keys.length := (List.length_map _).symm
    _ = x.buckets.keys.toFinset.card := (List.toFinset_card_of_nodup x.buckets.keys_nodup).symm
    _ = (entries.image Prod.fst).card := by rw [hkeys]

/-- What a step does to the entries. -/
theorem step (h : x.Holds entries) : ∀ s : Filing κ α, (x.step s).Holds (match s with
    | .put k a => Insert.insert (k, a) entries
    | .remove k a => entries.erase (k, a))
  | .put k a => h.insert k a
  | .remove k a => h.erase k a

end Holds

/-- The entries of an index are the items that stand filed under a key. -/
theorem exists_holds_after (steps : List (Filing κ α)) :
    ∃ entries : Finset (κ × α), (∀ k a, (k, a) ∈ entries ↔ Filing.Stands steps k a) ∧
      (after steps).Holds entries := by
  induction steps using List.reverseRecOn with
  | nil => exact ⟨∅, fun k a => by simp [Filing.not_stands_nil], .empty⟩
  | append_singleton steps s ih =>
    obtain ⟨entries, hentries, hholds⟩ := ih
    rw [after, List.foldl_append]
    refine ⟨_, fun k a => ?_, hholds.step s⟩
    cases s with
    | put k' a' =>
      rw [Filing.stands_concat_put, ← hentries, Finset.mem_insert, Prod.mk.injEq, eq_comm, @eq_comm _ a]
    | remove k' a' =>
      rw [Filing.stands_concat_remove, ← hentries, Finset.mem_erase, Ne, Prod.mk.injEq, eq_comm, @eq_comm _ a]

end Index

/-! ## Comparing keys -/

/-- The type of a property. -/
inductive PropertyType
  | value
  | int64
  | int32
  | uint8
  | bool
  | text
  | optional
  deriving DecidableEq

/-- The values of a type of properties. -/
abbrev PropertyType.Carrier : PropertyType → Type
  | value => Value
  | int64 => Int64
  | int32 => Int32
  | uint8 => UInt8
  | bool => Bool
  | text => String
  | optional => Option Int64

instance : (t : PropertyType) → DecidableEq t.Carrier
  | .value => inferInstanceAs (DecidableEq Value)
  | .int64 => inferInstanceAs (DecidableEq Int64)
  | .int32 => inferInstanceAs (DecidableEq Int32)
  | .uint8 => inferInstanceAs (DecidableEq UInt8)
  | .bool => inferInstanceAs (DecidableEq Bool)
  | .text => inferInstanceAs (DecidableEq String)
  | .optional => inferInstanceAs (DecidableEq (Option Int64))

namespace Property

/-- The type of a property and its value. -/
def typed : Property → (t : PropertyType) × t.Carrier
  | value v => ⟨.value, v⟩
  | int64 n => ⟨.int64, n⟩
  | int32 n => ⟨.int32, n⟩
  | uint8 n => ⟨.uint8, n⟩
  | bool b => ⟨.bool, b⟩
  | text s => ⟨.text, s⟩
  | optional n => ⟨.optional, n⟩

/-- The value of a property that is of a type. -/
def as? (p : Property) (t : PropertyType) : Option t.Carrier :=
  if h : p.typed.1 = t then some (h ▸ p.typed.2) else none

/-- Another property is of the same type and has the same value. -/
def agrees (p q : Property) : Bool :=
  match q.as? p.typed.1 with
  | some v => v = p.typed.2
  | none => false

theorem typed_injective {p q : Property} (h : p.typed = q.typed) : p = q := by
  cases p <;> cases q <;> cases h <;> rfl

/-- Only a property of one's own type and value agrees. -/
theorem agrees_iff (p q : Property) : p.agrees q = true ↔ p = q := by
  constructor
  · intro h
    unfold agrees as? at h
    split at h
    · next v hv =>
      split at hv
      · next htype =>
        refine typed_injective (Sigma.ext htype.symm ?_)
        cases hv
        rw [decide_eq_true_iff] at h
        exact (heq_of_eq h.symm).trans (eqRec_heq htype _)
      · cases hv
    · cases h
  · rintro rfl
    simp [agrees, as?]

end Property

namespace JoinKey

/-- Another key has as many properties, and each agrees with the one in its place. -/
def agrees (k l : JoinKey) : Bool := k.length == l.length && (k.zip l).all fun e => e.1.agrees e.2

theorem agrees_iff (k l : JoinKey) : agrees k l = true ↔ k = l := by
  induction k generalizing l with
  | nil => cases l <;> simp [agrees]
  | cons p k ih =>
    cases l with
    | nil => simp [agrees]
    | cons q l =>
      rw [List.cons.injEq, ← Property.agrees_iff, ← ih]
      simp only [agrees, List.length_cons, List.zip_cons_cons, List.all_cons, Bool.and_eq_true, beq_iff_eq,
        Nat.add_right_cancel_iff]
      exact and_left_comm

/-- How a hasher is fed with lengths, and with types and values of properties. It may be any function of
these. -/
structure Feed where
  lengthBytes : UInt64 → List UInt8
  typeBytes : PropertyType → List UInt8
  valueBytes : (t : PropertyType) → t.Carrier → List UInt8

/-- What is fed of a key: its length, then the type and the value of each property. -/
def Feed.bytes (f : Feed) (k : JoinKey) : List UInt8 :=
  f.lengthBytes (.ofNat k.length) ++
    k.flatMap fun p => f.typeBytes p.typed.1 ++ f.valueBytes p.typed.1 p.typed.2

end JoinKey

/-- An index of a join side is a multimap, whatever was filed and taken out before. Under a key there are
the items that stand filed under an equal key, each once; the count is that of all such entries and there
are as many buckets as keys that have one, none of them empty; and taking an item out tells whether it
stood there. Keys are equal if they have the same number of properties, each of the type and the value of
the one in its place, which is an equivalence that hashing respects. -/
theorem Index.multimap {α : Type} [DecidableEq α] (steps : List (Filing JoinKey α)) :
    (∀ k, ((after steps).find k).Nodup ∧
      ∀ a, a ∈ (after steps).find k ↔ ∃ l, JoinKey.agrees k l = true ∧ Filing.Stands steps l a) ∧
    (∃ entries : Finset (JoinKey × α), (∀ k a, (k, a) ∈ entries ↔ Filing.Stands steps k a) ∧
      (after steps).size = entries.card ∧ (after steps).keyCount = (entries.image Prod.fst).card) ∧
    (after steps).Trimmed ∧
    (∀ k a, (((after steps).remove k a).1 = true ↔ Filing.Stands steps k a) ∧
      ((after steps).remove k a).2 = after (steps ++ [.remove k a])) ∧
    Equivalence (fun k l => JoinKey.agrees k l = true) ∧
    (∀ k l, JoinKey.agrees k l = true ↔ List.Forall₂ (fun p q => p.typed = q.typed) k l) ∧
    ∀ (f : JoinKey.Feed) k l, JoinKey.agrees k l = true → f.bytes k = f.bytes l := by
  obtain ⟨entries, hentries, hholds⟩ := exists_holds_after steps
  refine ⟨fun k => ⟨hholds.nodup k, fun a => ?_⟩, ⟨entries, hentries, hholds.size, hholds.keyCount⟩,
    hholds.trimmed, fun k a => ⟨?_, ?_⟩, ?_, fun k l => ?_, fun f k l h => ?_⟩
  · simp only [hholds.mem_find, hentries, JoinKey.agrees_iff, exists_eq_left']
  · rw [remove, hholds.contains_iff, hentries]
  · rw [after, after, List.foldl_append]
    rfl
  · simp only [JoinKey.agrees_iff]
    exact eq_equivalence
  · rw [JoinKey.agrees_iff, ← List.forall₂_eq_eq_eq]
    exact ⟨fun h => h.imp fun _ _ e => e ▸ rfl, fun h => h.imp fun _ _ => Property.typed_injective⟩
  · rw [(JoinKey.agrees_iff k l).1 h]

end ConstraintStreams
