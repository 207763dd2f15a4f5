import ConstraintStreams.Proofs.Action
import ConstraintStreams.Table

/-!
# Entries of tables

How the lists of entries behind tables change, for what is counted or added up over all entries.
-/

namespace ConstraintStreams

namespace Table

variable {κ : Type u} {α : Type v} [DecidableEq κ] {k : κ} {a : α}

omit [DecidableEq κ] in
/-- What is picked from the entries of some keys comes in the order of these keys. -/
theorem filterMap_sublist_keys {f : κ × α → Option κ} {es : List (κ × α)}
    (hf : ∀ e k, f e = some k → k = e.1) : (es.filterMap f).Sublist (es.map Prod.fst) := by
  induction es with
  | nil => exact .slnil
  | cons e rest ih =>
    rw [List.filterMap_cons]
    split
    · exact ih.cons _
    · next k hk =>
      rw [hf e k hk]
      exact ih.cons_cons _

theorem put_of_find_none {es : List (κ × α)} (h : find k es = none) :
    put k a es = es ++ [(k, a)] := by
  induction es with
  | nil => rfl
  | cons e rest ih =>
    unfold find at h
    split at h
    · cases h
    · next hne => simp [put, hne, ih h]

theorem perm_drop_of_find {es : List (κ × α)} (h : find k es = some a) :
    es.Perm ((k, a) :: drop k es) := by
  induction es with
  | nil => cases h
  | cons e rest ih =>
    unfold find at h
    unfold drop
    split at h
    · next he =>
      cases h
      subst he
      rw [if_pos rfl]
    · next hne =>
      rw [if_neg hne]
      exact ((ih h).cons e).trans (.swap _ _ _)

/-- A new key is entered behind all others. -/
theorem entries_insert_of_none {t : Table κ α} (h : t.get? k = none) :
    (t.insert k a).entries = t.entries ++ [(k, a)] :=
  put_of_find_none h

/-- The entries are that of a key and those that are left without it. -/
theorem entries_perm_erase {t : Table κ α} (h : t.get? k = some a) :
    t.entries.Perm ((k, a) :: (t.erase k).entries) :=
  perm_drop_of_find h

theorem values_insert_of_none {t : Table κ α} (h : t.get? k = none) :
    (t.insert k a).values = t.values ++ [a] := by
  simp [values, entries_insert_of_none h]

theorem values_perm_erase {t : Table κ α} (h : t.get? k = some a) :
    t.values.Perm (a :: (t.erase k).values) := by
  simpa [values] using (entries_perm_erase h).map Prod.snd

/-- The entry of a key is taken out where it stands. -/
theorem entries_erase_append {t : Table κ α} {front rest : List (κ × α)}
    (h : t.entries = front ++ (k, a) :: rest) : (t.erase k).entries = front ++ rest := by
  have hkeys : k ∉ front.map Prod.fst := by
    have hnodup := t.keys_nodup
    rw [h, List.map_append, List.map_cons, List.nodup_append] at hnodup
    exact fun hk => hnodup.2.2 k hk k List.mem_cons_self rfl
  have drop_append : ∀ es : List (κ × α), k ∉ es.map Prod.fst →
      drop k (es ++ (k, a) :: rest) = es ++ rest := by
    intro es hes
    induction es with
    | nil => exact if_pos rfl
    | cons e es ih =>
      rw [List.map_cons, List.mem_cons, not_or] at hes
      rw [List.cons_append, drop, if_neg (Ne.symm hes.1), ih hes.2, List.cons_append]
  show drop k t.entries = _
  rw [h, drop_append front hkeys]

theorem keys_erase (t : Table κ α) (k : κ) : (t.erase k).keys = t.keys.erase k := by
  have map_drop : ∀ es : List (κ × α),
      (drop k es).map Prod.fst = (es.map Prod.fst).erase k := by
    intro es
    induction es with
    | nil => rfl
    | cons e es ih =>
      rw [List.map_cons, List.erase_cons, drop]
      by_cases he : e.1 = k
      · rw [if_pos he, if_pos (beq_iff_eq.2 he)]
      · rw [if_neg he, if_neg (mt beq_iff_eq.1 he), List.map_cons, ih]
  exact map_drop t.entries

theorem erase_of_none {t : Table κ α} (h : t.get? k = none) : t.erase k = t := by
  have drop_eq : ∀ es : List (κ × α), find k es = none → drop k es = es := by
    intro es hes
    induction es with
    | nil => rfl
    | cons e rest ih =>
      unfold find at hes
      unfold drop
      split at hes
      · cases hes
      · next hne => rw [if_neg hne, ih hes]
  exact Table.ext (drop_eq t.entries h)

/-- Giving a key the value that it has changes nothing. -/
theorem insert_eq_self {t : Table κ α} (h : t.get? k = some a) : t.insert k a = t := by
  have put_eq : ∀ es : List (κ × α), find k es = some a → put k a es = es := by
    intro es hes
    induction es with
    | nil => cases hes
    | cons e rest ih =>
      unfold find at hes
      unfold put
      split at hes
      · next he =>
        cases hes
        rw [if_pos he, ← he]
      · next hne => rw [if_neg hne, ih hes]
  exact Table.ext (put_eq t.entries h)

/-- What is entered under a key goes as the key is struck out. -/
theorem erase_insert (t : Table κ α) (k : κ) (a : α) : (t.insert k a).erase k = t.erase k := by
  have drop_put : ∀ es : List (κ × α), drop k (put k a es) = drop k es := by
    intro es
    induction es with
    | nil => simp [put, drop]
    | cons e rest ih =>
      by_cases he : e.1 = k
      · simp [put, drop, he]
      · simp [put, drop, he, ih]
  exact Table.ext (drop_put t.entries)

/-- The order of the entries makes no difference to what a table holds. -/
theorem get?_of_perm {t t' : Table κ α} (h : t.entries.Perm t'.entries) (k : κ) :
    t.get? k = t'.get? k := by
  refine Option.ext fun a => ?_
  rw [get?_eq_some_iff, get?_eq_some_iff, h.mem_iff]

/-- A table in which no key has a value is empty. -/
theorem eq_empty {t : Table κ α} (h : ∀ k, t.get? k = none) : t = ∅ := by
  refine Table.ext ?_
  cases hes : t.entries with
  | nil => rfl
  | cons e rest =>
    have := h e.1
    simp [get?, hes, find] at this

theorem keys_put_of_find {es : List (κ × α)} {b : α} (h : find k es = some b) :
    (put k a es).map Prod.fst = es.map Prod.fst := by
  induction es with
  | nil => cases h
  | cons e rest ih =>
    unfold find at h
    unfold put
    split at h
    · next he => simp [he]
    · next hne => simp [hne, ih h]

/-- Changing a value changes no key. -/
theorem keys_modify (t : Table κ α) (k : κ) (f : α → α) : (t.modify k f).keys = t.keys := by
  unfold modify
  split
  · next b hb => exact keys_put_of_find hb
  · rfl

theorem isSome_get?_modify (t : Table κ α) (k k' : κ) (f : α → α) :
    ((t.modify k f).get? k').isSome = (t.get? k').isSome := by
  rw [get?_modify]
  split
  · next he => exact he ▸ Option.isSome_map
  · rfl

theorem keys_insert_of_none {t : Table κ α} (h : t.get? k = none) :
    (t.insert k a).keys = t.keys ++ [k] := by
  simp [keys, entries_insert_of_none h]

theorem get?_filter (t : Table κ α) (p : κ → α → Bool) (k : κ) :
    (t.filter p).get? k = (t.get? k).filter (p k) := by
  rw [Option.ext_iff]
  intro a
  simp only [get?_eq_some_iff, Option.filter_eq_some_iff]
  exact List.mem_filter

theorem get?_mapValues {β : Type w} (t : Table κ α) (f : κ → α → β) (k : κ) :
    (t.mapValues f).get? k = (t.get? k).map (f k) := by
  rw [Option.ext_iff]
  intro b
  simp only [get?_eq_some_iff, Option.map_eq_some_iff]
  show (k, b) ∈ t.entries.map (fun e => (e.1, f e.1 e.2)) ↔ _
  rw [List.mem_map]
  constructor
  · rintro ⟨⟨k', a⟩, hm, he⟩
    cases he
    exact ⟨a, hm, rfl⟩
  · rintro ⟨a, hm, rfl⟩
    exact ⟨(k, a), hm, rfl⟩

theorem mapValues_insert {β : Type w} (t : Table κ α) (f : α → β) (k : κ) (a : α) :
    (t.insert k a).mapValues (fun _ => f) = (t.mapValues fun _ => f).insert k (f a) := by
  refine Table.ext ?_
  show (put k a t.entries).map (fun e => (e.1, f e.2)) = put k (f a) (t.entries.map fun e => (e.1, f e.2))
  induction t.entries with
  | nil => rfl
  | cons e rest ih =>
    rw [List.map_cons]
    unfold put
    by_cases he : e.1 = k
    · simp [he]
    · simp [he, ih]

theorem mapValues_erase {β : Type w} (t : Table κ α) (f : α → β) (k : κ) :
    (t.erase k).mapValues (fun _ => f) = (t.mapValues fun _ => f).erase k := by
  refine Table.ext ?_
  show (drop k t.entries).map (fun e => (e.1, f e.2)) = drop k (t.entries.map fun e => (e.1, f e.2))
  induction t.entries with
  | nil => rfl
  | cons e rest ih =>
    rw [List.map_cons]
    unfold drop
    by_cases he : e.1 = k
    · simp [he]
    · simp [he, ih]

/-- The later of two entries under one key counts. -/
theorem get?_insert_insert (t : Table κ α) (k : κ) (a b : α) (k' : κ) :
    ((t.insert k a).insert k b).get? k' = if k = k' then some b else t.get? k' := by
  rw [get?_insert, get?_insert]
  split <;> rfl

omit [DecidableEq κ] in
theorem values_mapValues {β : Type w} (t : Table κ α) (f : α → β) :
    (t.mapValues fun _ => f).values = t.values.map f := by
  simp [mapValues, values]

/-! ## Values -/

theorem mem_values {t : Table κ α} : a ∈ t.values ↔ ∃ k, t.get? k = some a := by
  simp [values, get?_eq_some_iff]

theorem mem_values_of_get? {t : Table κ α} (h : t.get? k = some a) : a ∈ t.values :=
  mem_values.2 ⟨k, h⟩

/-- The keys under which a value stands, each once. -/
theorem exists_keys_of_value [BEq α] [LawfulBEq α] (t : Table κ α) (a : α) :
    ∃ ks : List κ, ks.Nodup ∧ (∀ k, k ∈ ks ↔ t.get? k = some a) ∧ t.values.count a = ks.length := by
  let entries := t.entries.filter fun e => e.2 == a
  refine ⟨entries.map Prod.fst, (List.filter_sublist.map Prod.fst).nodup t.keys_nodup,
    fun k => ?_, ?_⟩
  · rw [get?_eq_some_iff]
    simp [entries]
  · rw [values, List.count_eq_countP, List.countP_map, List.countP_eq_length_filter, List.length_map]
    rfl

theorem mem_values_insert {t : Table κ α} {b : α} (h : b ∈ (t.insert k a).values) :
    b = a ∨ b ∈ t.values := by
  obtain ⟨k', hk'⟩ := mem_values.1 h
  rw [get?_insert] at hk'
  split at hk'
  · exact .inl (Option.some.inj hk').symm
  · exact .inr (mem_values_of_get? hk')

theorem mem_values_erase {t : Table κ α} {b : α} (h : b ∈ (t.erase k).values) : b ∈ t.values := by
  obtain ⟨k', hk'⟩ := mem_values.1 h
  rw [get?_erase] at hk'
  split at hk'
  · cases hk'
  · exact mem_values_of_get? hk'

/-- A value after a change is what a value before it was made into, or was there before. -/
theorem mem_values_modify {t : Table κ α} {b : α} {f : α → α} (h : b ∈ (t.modify k f).values) :
    (∃ a ∈ t.values, b = f a) ∨ b ∈ t.values := by
  obtain ⟨k', hk'⟩ := mem_values.1 h
  rw [get?_modify] at hk'
  split at hk'
  · obtain ⟨a, ha, rfl⟩ := Option.map_eq_some_iff.1 hk'
    exact .inl ⟨a, mem_values_of_get? ha, rfl⟩
  · exact .inr (mem_values_of_get? hk')

end Table

end ConstraintStreams
