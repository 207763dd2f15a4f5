/-!
# Finite tables

A `Table` maps finitely many keys to values. It is the list of its entries in the order in which
their keys first arrived, with no key twice; `get?` is its view, and every operation is described
through it (`get?_insert`, `get?_erase`).
-/

namespace ConstraintStreams

/-- A finite map, kept as the list of its entries; no key occurs twice. -/
structure Table (κ : Type u) (α : Type v) where
  entries : List (κ × α)
  keys_nodup : (entries.map Prod.fst).Nodup

namespace Table

variable {κ : Type u} {α : Type v}

/-- The table without entries. -/
def empty : Table κ α := ⟨[], List.nodup_nil⟩

instance : EmptyCollection (Table κ α) := ⟨empty⟩
instance : Inhabited (Table κ α) := ⟨empty⟩

@[ext] theorem ext {s t : Table κ α} (h : s.entries = t.entries) : s = t := by
  cases s; cases t; cases h; rfl

/-- The keys, in order of first arrival. -/
def keys (t : Table κ α) : List κ := t.entries.map Prod.fst

/-- The values, in the order of their keys. -/
def values (t : Table κ α) : List α := t.entries.map Prod.snd

/-- The number of entries. -/
def size (t : Table κ α) : Nat := t.entries.length

def isEmpty (t : Table κ α) : Bool := t.entries.isEmpty

variable [DecidableEq κ]

/-- The value listed for a key. -/
def find (k : κ) : List (κ × α) → Option α
  | [] => none
  | e :: rest => if e.1 = k then some e.2 else find k rest

/-- The list with the value of a key replaced, or with a new entry at its end. -/
def put (k : κ) (a : α) : List (κ × α) → List (κ × α)
  | [] => [(k, a)]
  | e :: rest => if e.1 = k then (k, a) :: rest else e :: put k a rest

/-- The list without the entry of a key. -/
def drop (k : κ) : List (κ × α) → List (κ × α)
  | [] => []
  | e :: rest => if e.1 = k then rest else e :: drop k rest

theorem mem_keys_put {k k' : κ} {a : α} {es : List (κ × α)} :
    k' ∈ (put k a es).map Prod.fst ↔ k' = k ∨ k' ∈ es.map Prod.fst := by
  induction es with
  | nil => simp [put]
  | cons e rest ih =>
    unfold put; split
    · next h => subst h; simp
    · rw [List.map_cons, List.mem_cons, ih, List.map_cons, List.mem_cons]
      constructor
      · rintro (h | h | h)
        · exact .inr (.inl h)
        · exact .inl h
        · exact .inr (.inr h)
      · rintro (h | h | h)
        · exact .inr (.inl h)
        · exact .inl h
        · exact .inr (.inr h)

theorem nodup_put {k : κ} {a : α} {es : List (κ × α)} (h : (es.map Prod.fst).Nodup) :
    ((put k a es).map Prod.fst).Nodup := by
  induction es with
  | nil => simp [put]
  | cons e rest ih =>
    rw [List.map_cons, List.nodup_cons] at h
    unfold put; split
    · next hk => subst hk; rw [List.map_cons, List.nodup_cons]; exact h
    · next hk =>
      rw [List.map_cons, List.nodup_cons, mem_keys_put]
      exact ⟨fun hm => hm.elim hk h.1, ih h.2⟩

theorem drop_sublist (k : κ) (es : List (κ × α)) : (drop k es).Sublist es := by
  induction es with
  | nil => exact .slnil
  | cons e rest ih =>
    unfold drop; split
    · exact List.sublist_cons_self e rest
    · exact ih.cons_cons e

theorem nodup_drop {k : κ} {es : List (κ × α)} (h : (es.map Prod.fst).Nodup) :
    ((drop k es).map Prod.fst).Nodup :=
  h.sublist ((drop_sublist k es).map Prod.fst)

/-- The value of a key. -/
def get? (t : Table κ α) (k : κ) : Option α := find k t.entries

/-- A key has a value. -/
def contains (t : Table κ α) (k : κ) : Bool := (t.get? k).isSome

/-- Gives a key a value, whether it had one or not. -/
def insert (t : Table κ α) (k : κ) (a : α) : Table κ α :=
  ⟨put k a t.entries, nodup_put t.keys_nodup⟩

/-- Forgets a key. -/
def erase (t : Table κ α) (k : κ) : Table κ α :=
  ⟨drop k t.entries, nodup_drop t.keys_nodup⟩

/-- Changes the value of a key that has one. -/
def modify (t : Table κ α) (k : κ) (f : α → α) : Table κ α :=
  match t.get? k with
  | some a => t.insert k (f a)
  | none => t

/-- The entries that satisfy a test. -/
def filter (t : Table κ α) (p : κ → α → Bool) : Table κ α :=
  ⟨t.entries.filter fun e => p e.1 e.2, t.keys_nodup.sublist (List.filter_sublist.map Prod.fst)⟩

/-- Changes every value, keeping the keys. -/
def mapValues {β : Type w} (t : Table κ α) (f : κ → α → β) : Table κ β :=
  ⟨t.entries.map fun e => (e.1, f e.1 e.2), by
    rw [List.map_map]; exact t.keys_nodup⟩

theorem find_put (k k' : κ) (a : α) (es : List (κ × α)) :
    find k' (put k a es) = if k = k' then some a else find k' es := by
  induction es with
  | nil => simp [put, find]
  | cons e rest ih =>
    unfold put
    by_cases hk : e.1 = k
    · rw [if_pos hk]
      by_cases h : k = k'
      · simp [find, h]
      · have : e.1 ≠ k' := hk ▸ h
        simp [find, h, this]
    · rw [if_neg hk]
      by_cases h : e.1 = k'
      · have : k ≠ k' := fun hkk => hk (h.trans hkk.symm)
        simp [find, h, this]
      · simp [find, h, ih]

theorem find_eq_none_iff {k : κ} {es : List (κ × α)} :
    find k es = none ↔ k ∉ es.map Prod.fst := by
  induction es with
  | nil => simp [find]
  | cons e rest ih =>
    by_cases h : e.1 = k
    · simp [find, h]
    · have : k ≠ e.1 := fun hk => h hk.symm
      simp only [find, if_neg h, List.map_cons, List.mem_cons, this, false_or]
      exact ih

theorem find_drop {k : κ} (k' : κ) {es : List (κ × α)} (hn : (es.map Prod.fst).Nodup) :
    find k' (drop k es) = if k = k' then none else find k' es := by
  induction es with
  | nil => simp [drop, find]
  | cons e rest ih =>
    rw [List.map_cons, List.nodup_cons] at hn
    unfold drop
    by_cases hk : e.1 = k
    · rw [if_pos hk]
      by_cases h : k = k'
      · rw [if_pos h]
        exact find_eq_none_iff.2 (h ▸ hk ▸ hn.1)
      · have : e.1 ≠ k' := hk ▸ h
        simp [find, h, this]
    · rw [if_neg hk]
      by_cases h : e.1 = k'
      · have : k ≠ k' := fun hkk => hk (h.trans hkk.symm)
        simp [find, h, this]
      · simp [find, h, ih hn.2]

theorem find_eq_some_iff {k : κ} {a : α} {es : List (κ × α)} (hn : (es.map Prod.fst).Nodup) :
    find k es = some a ↔ (k, a) ∈ es := by
  induction es with
  | nil => simp [find]
  | cons e rest ih =>
    rw [List.map_cons, List.nodup_cons] at hn
    obtain ⟨k', a'⟩ := e
    by_cases h : k' = k
    · subst h
      have : (k', a) ∉ rest := fun hm => hn.1 (List.mem_map.2 ⟨(k', a), hm, rfl⟩)
      simp [find, this, eq_comm]
    · simp [find, h, ih hn.2, Ne.symm h]

@[simp] theorem get?_empty (k : κ) : (empty : Table κ α).get? k = none := rfl

@[simp] theorem get?_insert (t : Table κ α) (k k' : κ) (a : α) :
    (t.insert k a).get? k' = if k = k' then some a else t.get? k' :=
  find_put k k' a t.entries

@[simp] theorem get?_erase (t : Table κ α) (k k' : κ) :
    (t.erase k).get? k' = if k = k' then none else t.get? k' :=
  find_drop k' t.keys_nodup

theorem get?_modify (t : Table κ α) (k k' : κ) (f : α → α) :
    (t.modify k f).get? k' = if k = k' then (t.get? k).map f else t.get? k' := by
  unfold modify
  split
  · next a h => rw [get?_insert, h]; rfl
  · next h =>
    by_cases hk : k = k'
    · subst hk; simp [h]
    · rw [if_neg hk]

theorem length_flatten_put {β : Type w} (k : κ) (b : List β) (es : List (κ × List β)) :
    ((put k b es).map Prod.snd).flatten.length + ((find k es).getD []).length
      = (es.map Prod.snd).flatten.length + b.length := by
  induction es with
  | nil => simp [put, find]
  | cons e rest ih =>
    unfold put find
    by_cases h : e.1 = k
    · simp only [if_pos h, List.map_cons, List.flatten_cons, List.length_append, Option.getD_some]
      omega
    · simp only [if_neg h, List.map_cons, List.flatten_cons, List.length_append]
      omega

theorem length_flatten_drop {β : Type w} (k : κ) (es : List (κ × List β)) :
    ((drop k es).map Prod.snd).flatten.length + ((find k es).getD []).length
      = (es.map Prod.snd).flatten.length := by
  induction es with
  | nil => simp [drop, find]
  | cons e rest ih =>
    unfold drop find
    by_cases h : e.1 = k
    · simp only [if_pos h, List.map_cons, List.flatten_cons, List.length_append, Option.getD_some]
      omega
    · simp only [if_neg h, List.map_cons, List.flatten_cons, List.length_append]
      omega

/-- Giving a key another bucket changes the number of items by the difference of the buckets. -/
theorem length_values_insert {β : Type w} (t : Table κ (List β)) (k : κ) (b : List β) :
    (t.insert k b).values.flatten.length + ((t.get? k).getD []).length
      = t.values.flatten.length + b.length :=
  length_flatten_put k b t.entries

/-- Forgetting a key takes the items of its bucket away. -/
theorem length_values_erase {β : Type w} (t : Table κ (List β)) (k : κ) :
    (t.erase k).values.flatten.length + ((t.get? k).getD []).length = t.values.flatten.length :=
  length_flatten_drop k t.entries

theorem get?_eq_some_iff {t : Table κ α} {k : κ} {a : α} :
    t.get? k = some a ↔ (k, a) ∈ t.entries :=
  find_eq_some_iff t.keys_nodup

theorem get?_eq_none_iff {t : Table κ α} {k : κ} : t.get? k = none ↔ k ∉ t.keys :=
  find_eq_none_iff

theorem contains_iff {t : Table κ α} {k : κ} : t.contains k = true ↔ k ∈ t.keys := by
  unfold contains
  rw [← Decidable.not_iff_not, ← get?_eq_none_iff]
  simp

end Table

end ConstraintStreams
