import Mathlib.Data.Finset.Card
import Mathlib.Data.Finset.Image
import Mathlib.Data.Finset.Union
import ConstraintStreams.Proofs.Fact.Data
import ConstraintStreams.Proofs.Operator.Bench

/-!
# Rows

The rows of some tuples are the data of their facts, without regard to order and to names. What is
compared between networks is rows.
-/

namespace ConstraintStreams

/-- The rows of the tuples that have facts. -/
def Rows (f : TupleId → Option Facts) (rows : Multiset Facts) : Prop :=
  ∃ S : Finset TupleId, (∀ u, u ∈ S ↔ (f u).isSome = true) ∧
    rows = S.val.map fun u => Facts.data ((f u).getD [])

namespace Rows

variable {f f' : TupleId → Option Facts} {rows rows' : Multiset Facts}

theorem unique (h : Rows f rows) (h' : Rows f rows') : rows = rows' := by
  obtain ⟨S, hS, rfl⟩ := h
  obtain ⟨S', hS', rfl⟩ := h'
  obtain rfl : S = S' := Finset.ext fun u => (hS u).trans (hS' u).symm
  rfl

theorem none : Rows (fun _ => none) 0 := ⟨∅, by simp, rfl⟩

theorem mem_iff (h : Rows f rows) {row : Facts} :
    row ∈ rows ↔ ∃ u facts, f u = some facts ∧ Facts.data facts = row := by
  obtain ⟨S, hS, rfl⟩ := h
  rw [Multiset.mem_map]
  constructor
  · rintro ⟨u, hu, rfl⟩
    obtain ⟨facts, hfacts⟩ := Option.isSome_iff_exists.1 ((hS u).1 hu)
    exact ⟨u, facts, hfacts, by rw [hfacts]; rfl⟩
  · rintro ⟨u, facts, hfacts, rfl⟩
    exact ⟨u, (hS u).2 (by simp [hfacts]), by rw [hfacts]; rfl⟩

/-- Where some things are in correspondence with the tuples, the rows can be read off the things. -/
theorem of_index {ι : Type} {I : Finset ι} {o : ι → TupleId} {g : ι → Facts}
    (hopen : ∀ i ∈ I, f (o i) = some (g i)) (hinj : ∀ i ∈ I, ∀ j ∈ I, o i = o j → i = j)
    (hsurj : ∀ u, (f u).isSome = true → ∃ i ∈ I, o i = u) :
    Rows f (I.val.map fun i => Facts.data (g i)) := by
  classical
  refine ⟨I.image o, fun u => ?_, ?_⟩
  · rw [Finset.mem_image]
    constructor
    · rintro ⟨i, hi, rfl⟩
      simp [hopen i hi]
    · exact hsurj u
  · rw [Finset.image_val_of_injOn fun i hi j hj => hinj i hi j hj, Multiset.map_map]
    refine Multiset.map_congr rfl fun i hi => ?_
    simp [hopen i hi]

/-- The tuples that a test of their facts selects. -/
theorem filter (h : Rows f rows) {p : Facts → Prop} [DecidablePred p]
    (hf' : ∀ u facts, f' u = some facts ↔ f u = some facts ∧ p (Facts.data facts)) :
    Rows f' (rows.filter p) := by
  obtain ⟨S, hS, rfl⟩ := h
  rw [Multiset.filter_map]
  have hsome : ∀ u, (f' u).isSome = true ↔ ∃ facts, f u = some facts ∧ p (Facts.data facts) := by
    intro u
    rw [Option.isSome_iff_exists]
    exact exists_congr (hf' u)
  refine ⟨S.filter fun u => p (Facts.data ((f u).getD [])), fun u => ?_, ?_⟩
  · rw [Finset.mem_filter, hS, hsome]
    constructor
    · rintro ⟨hu, hp⟩
      obtain ⟨facts, hfacts⟩ := Option.isSome_iff_exists.1 hu
      rw [hfacts] at hp
      exact ⟨facts, hfacts, hp⟩
    · rintro ⟨facts, hfacts, hp⟩
      rw [hfacts]
      exact ⟨rfl, hp⟩
  · refine Multiset.map_congr rfl fun u hu => ?_
    obtain ⟨hu, hp⟩ := Multiset.mem_filter.1 hu
    obtain ⟨facts, hfacts⟩ := Option.isSome_iff_exists.1 ((hS u).1 hu)
    have hp' : p (Facts.data facts) := by simpa [hfacts] using hp
    rw [hfacts, (hf' u facts).2 ⟨hfacts, hp'⟩]

/-- Tuples that are listed in a table, as far as they have facts. -/
theorem of_table {α : Type} (t : Table TupleId α) (facts : TupleId → α → Option Facts) :
    Rows (fun u => (t.get? u).bind (facts u))
      (Multiset.ofList (t.entries.filterMap fun e => (facts e.1 e.2).map Facts.data)) := by
  have hnodup : (t.entries.filter fun e => (facts e.1 e.2).isSome).Nodup :=
    (List.Nodup.of_map Prod.fst t.keys_nodup).filter _
  let I : Finset (TupleId × α) := ⟨Multiset.ofList _, Multiset.coe_nodup.2 hnodup⟩
  have hmem : ∀ e, e ∈ I ↔ t.get? e.1 = some e.2 ∧ (facts e.1 e.2).isSome = true := by
    intro e
    rw [Table.get?_eq_some_iff]
    exact List.mem_filter
  have hindex : Rows (fun u => (t.get? u).bind (facts u))
      (I.val.map fun e => Facts.data ((facts e.1 e.2).getD [])) := by
    refine of_index (o := Prod.fst) ?_ ?_ ?_
    · intro e he
      obtain ⟨hget, hsome⟩ := (hmem e).1 he
      obtain ⟨fs, hfs⟩ := Option.isSome_iff_exists.1 hsome
      simp [hget, hfs]
    · intro e he e' he' heq
      have hget := ((hmem e).1 he).1
      have hget' := ((hmem e').1 he').1
      rw [heq, hget'] at hget
      exact Prod.ext heq (Option.some.inj hget).symm
    · intro u hu
      obtain ⟨fs, hfs⟩ := Option.isSome_iff_exists.1 hu
      obtain ⟨a, ha, hfacts⟩ := Option.bind_eq_some_iff.1 hfs
      exact ⟨(u, a), (hmem (u, a)).2 ⟨ha, by simp [hfacts]⟩, rfl⟩
  convert hindex using 1
  show _ = Multiset.map _ (Multiset.ofList _)
  rw [Multiset.map_coe]
  congr 1
  induction t.entries with
  | nil => rfl
  | cons e rest ih =>
    cases hfacts : facts e.1 e.2 with
    | none => simp [hfacts, ih]
    | some fs => simp [hfacts, ih]

/-- The rows of inputs that are listed in a table. -/
theorem of_lists {α : Type} {v : View} {side : Side} {t : Table TupleId α} (h : v.Lists side t) :
    Rows (v.told side)
      (Multiset.ofList (t.entries.filterMap fun e => (v.told side e.1).map Facts.data)) := by
  have htold : (fun u => (t.get? u).bind fun _ => v.told side u) = v.told side := by
    funext u
    cases ht : v.told side u with
    | none => cases t.get? u <;> rfl
    | some facts =>
      obtain ⟨a, ha⟩ := h.get?_some (show v.Held side u by simp [View.Held, ht])
      rw [ha]
      rfl
  have := of_table t fun u _ => v.told side u
  rwa [htold] at this

end Rows

namespace View

/-- What the node was told about its inputs is current. -/
def Current (v : View) : Prop := ∀ side u, v.Held side u → v.fresh side u

theorem Current.known {v : View} (h : v.Current) {side : Side} {u : TupleId} {facts : Facts} :
    v.Known side u facts ↔ v.told side u = some facts :=
  ⟨fun hk => hk.2, fun ht => ⟨h side u (by simp [Held, ht]), ht⟩⟩

end View

end ConstraintStreams
