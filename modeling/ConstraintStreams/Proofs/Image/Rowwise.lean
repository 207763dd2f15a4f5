import ConstraintStreams.Proofs.Image.Rows
import ConstraintStreams.Proofs.Image.Spec
import ConstraintStreams.Proofs.Operator.Distinct
import ConstraintStreams.Proofs.Operator.Filter
import ConstraintStreams.Proofs.Operator.Flatten
import ConstraintStreams.Proofs.Operator.Mirror

/-!
# Images of single rows

Filters, maps, flattening, concatenations and distinct nodes whose knowledge of their inputs is
current have the rows that `Operator.Image` asks for.
-/

namespace ConstraintStreams

/-- The facts of open tuples. -/
def shownFacts (out : TupleId → Option (Facts × Sources)) (o : TupleId) : Option Facts :=
  (out o).map Prod.fst

variable {v : View} {out : TupleId → Option (Facts × Sources)} {ins : Multiset Facts}

/-- The rows of listed outputs, by the keys under which they are listed. -/
theorem Listing.rows {κ : Type} {label : κ → Option TupleId} (h : Listing label out) {I : Finset κ}
    (hI : ∀ k, k ∈ I ↔ (label k).isSome = true) :
    Rows (shownFacts out)
      (I.val.map fun k => Facts.data (((outputUnder label out k).map Prod.fst).getD [])) := by
  have hlabel : ∀ k ∈ I, label k = some ((label k).getD ⟨0, 0⟩) := fun k hk => by
    obtain ⟨o, ho⟩ := Option.isSome_iff_exists.1 ((hI k).1 hk)
    simp [ho]
  refine .of_index (o := fun k => (label k).getD ⟨0, 0⟩) ?_ ?_ ?_
  · intro k hk
    obtain ⟨o, ho⟩ := Option.isSome_iff_exists.1 ((hI k).1 hk)
    obtain ⟨e, he⟩ := h.opened ho
    simp [shownFacts, outputUnder, ho, he]
  · intro k hk k' hk' he
    exact h.inj (hlabel k hk) (he ▸ hlabel k' hk')
  · intro o ho
    obtain ⟨e, he⟩ := Option.isSome_iff_exists.1 (Option.isSome_map.symm.trans ho)
    obtain ⟨k, hk⟩ := h.owned he
    exact ⟨k, (hI k).2 (by simp [hk]), by simp [hk]⟩

/-! ## Filters -/

theorem FilterMemory.Valid.rows {m : FilterMemory} {predicate : Facts → Except Error Bool}
    (h : m.Valid predicate v) (hv : v.Current) (hlaw : ReadsData id predicate)
    (hins : Rows (v.told .only) ins) [DecidablePred fun r => predicate r = .ok true] :
    Rows (fun u => if u ∈ m.passed then v.told .only u else none)
      (ins.filter fun r => predicate r = .ok true) := by
  refine hins.filter fun u facts => ?_
  rw [hlaw.eq]
  constructor
  · intro hu
    split at hu
    · next hp => exact ⟨hu, (h.passed_iff (hv.known.2 hu)).1 hp⟩
    · cases hu
  · rintro ⟨hu, hp⟩
    rw [if_pos ((h.passed_iff (hv.known.2 hu)).2 hp), hu]

/-! ## Maps -/

/-- Where there is an answer for each, the answers are a map. -/
theorem filterMap_eq_map {α β : Type} {f : α → Option β} {g : α → β} {s : Multiset α}
    (h : ∀ a ∈ s, f a = some (g a)) : s.filterMap f = s.map g := by
  rw [← Multiset.filterMap_eq_map]
  exact filterMap_congr h

theorem MapMemory.Valid.rows {m : MapMemory} {mapper : Facts → Except Error Facts}
    (h : m.Valid mapper v out) (hv : v.Current) (hlaw : ReadsData Facts.data mapper)
    (hins : Rows (v.told .only) ins) :
    Rows (shownFacts out) (ins.filterMap fun r => (mapper r).toOption.map Facts.data) := by
  obtain ⟨S, hS, rfl⟩ := hins
  rw [Multiset.filterMap_map]
  have hlisted := Listing.rows h.listing (I := S) fun u => (hS u).trans h.held.symm
  rwa [filterMap_eq_map (g := fun u =>
    Facts.data (((outputUnder m.outputs.get? out u).map Prod.fst).getD []))]
  intro u hu
  obtain ⟨told, htold⟩ := Option.isSome_iff_exists.1 ((hS u).1 hu)
  have hsome : (m.outputs.get? u).isSome = true := h.held.2 ((hS u).1 hu)
  rw [← h.listing.isSome_outputUnder] at hsome
  obtain ⟨⟨facts, sources⟩, hshown⟩ := Option.isSome_iff_exists.1 hsome
  obtain ⟨image, n, himage, rfl⟩ := h.image_of hshown (hv.known.2 htold)
  obtain ⟨b, hb, hdata⟩ := hlaw.of_ok himage
  simp [htold, hshown, hb, hdata, Facts.data_numberItemsFrom, Except.toOption]

/-! ## Concatenations -/

theorem ConcatMemory.Valid.rows {m : ConcatMemory} {insRight : Multiset Facts}
    (h : m.Valid v out) (hv : v.Current) (hsides : ∀ u, ¬ v.Held .only u)
    (hleft : Rows (v.told .left) ins) (hright : Rows (v.told .right) insRight) :
    Rows (shownFacts out) (ins + insRight) := by
  obtain ⟨S, hS, rfl⟩ := hleft
  obtain ⟨T, hT, rfl⟩ := hright
  let I : Finset (Side × TupleId) := (S.map ⟨Prod.mk .left, Prod.mk_right_injective _⟩).disjUnion
    (T.map ⟨Prod.mk .right, Prod.mk_right_injective _⟩) (by
      rw [Finset.disjoint_left]
      intro k hk hk'
      obtain ⟨u, -, rfl⟩ := Finset.mem_map.1 hk
      obtain ⟨u', -, he⟩ := Finset.mem_map.1 hk'
      cases he)
  have hI : ∀ k, k ∈ I ↔ v.Held k.1 k.2 := by
    intro k
    obtain ⟨side, u⟩ := k
    rw [Finset.mem_disjUnion, Finset.mem_map, Finset.mem_map]
    cases side with
    | only => simp [hsides u]
    | left => simp [hS, View.Held]
    | right => simp [hT, View.Held]
  have hlisted := Listing.rows h.listing fun k => (hI k).trans h.held.symm
  have hrow : ∀ k told, v.told k.1 k.2 = some told →
      Facts.data (((outputUnder m.outputs.get? out k).map Prod.fst).getD []) = Facts.data told := by
    intro k told htold
    have hsome : (m.outputs.get? k).isSome = true := h.held.2 (by simp [View.Held, htold])
    rw [← h.listing.isSome_outputUnder] at hsome
    obtain ⟨⟨facts, sources⟩, hshown⟩ := Option.isSome_iff_exists.1 hsome
    rw [hshown, h.image_of hshown (hv.known.2 htold)]
    rfl
  have hval : I.val = S.val.map (Prod.mk .left) + T.val.map (Prod.mk .right) := rfl
  rw [hval, Multiset.map_add, Multiset.map_map, Multiset.map_map] at hlisted
  convert hlisted using 2
  · refine Multiset.map_congr rfl fun u hu => ?_
    obtain ⟨told, htold⟩ := Option.isSome_iff_exists.1 ((hS u).1 hu)
    rw [htold]
    exact (hrow (.left, u) told htold).symm
  · refine Multiset.map_congr rfl fun u hu => ?_
    obtain ⟨told, htold⟩ := Option.isSome_iff_exists.1 ((hT u).1 hu)
    rw [htold]
    exact (hrow (.right, u) told htold).symm

/-! ## Flattening -/

/-- An input is expanded by its data. -/
theorem FlattenMemory.expansion_data {items : Fact → Except Error (List Fact)}
    (hlaw : ∀ a, Facts.data <$> items a = Facts.data <$> items a.data) {told : Facts} {a : Fact}
    {expanded : List Fact} (hlast : told.last? = .ok a) (hitems : items a = .ok expanded) (n : Nat) :
    expansion items (Facts.data told) = Multiset.ofList
      ((Fact.numberItemsFrom n expanded).1.map fun item => Facts.data (told.dropLast ++ [item])) := by
  have hlast' : Facts.last? (Facts.data told) = .ok a.data := by
    unfold Facts.last? at hlast ⊢
    rw [Facts.data, List.getLast?_map]
    cases htold : told.getLast? with
    | none => rw [htold] at hlast; cases hlast
    | some b => rw [htold] at hlast; cases hlast; rfl
  obtain ⟨expanded', hitems', hdata⟩ : ∃ expanded', items a.data = .ok expanded' ∧
      Facts.data expanded' = Facts.data expanded := by
    have hboth := hlaw a
    rw [hitems] at hboth
    cases hi : items a.data with
    | ok expanded' => rw [hi] at hboth; exact ⟨expanded', rfl, (Except.ok.inj hboth).symm⟩
    | error e => rw [hi] at hboth; cases hboth
  have hrows : ∀ items : List Fact, items.map (fun item => Facts.data (told.dropLast ++ [item])) =
      (Facts.data items).map fun item => Facts.data told.dropLast ++ [item] := by
    intro items
    simp [Facts.data]
  have hdropLast : List.dropLast (Facts.data told) = Facts.data told.dropLast := by
    simp [Facts.data, List.map_dropLast]
  have hbind : (Facts.last? (Facts.data told) >>= items) = .ok expanded' := by
    rw [hlast']
    exact hitems'
  rw [hrows, Facts.data_numberItemsFrom, ← hdata, expansion, hbind, hdropLast]
  show _ = Multiset.ofList ((expanded'.map Fact.data).map _)
  rw [List.map_map]
  rfl

theorem FlattenMemory.Valid.rows {m : FlattenMemory} {items : Fact → Except Error (List Fact)}
    (h : m.Valid items v out) (hv : v.Current)
    (hlaw : ∀ a, Facts.data <$> items a = Facts.data <$> items a.data)
    (hins : Rows (v.told .only) ins) :
    Rows (shownFacts out) (ins.bind (expansion items)) := by
  obtain ⟨S, hS, rfl⟩ := hins
  let os (u : TupleId) : List TupleId := (m.outputs.get? u).getD []
  have hget : ∀ u ∈ S, m.outputs.get? u = some (os u) := by
    intro u hu
    obtain ⟨l, hl⟩ := h.held.get?_some ((hS u).1 hu)
    simp [os, hl]
  have hnodup : ∀ u, (os u).Nodup := by
    intro u
    cases hl : m.outputs.get? u with
    | none => simp [os, hl]
    | some l => simpa [os, hl] using (h.opened hl).1
  let O (u : TupleId) : Finset TupleId := ⟨Multiset.ofList (os u), Multiset.coe_nodup.2 (hnodup u)⟩
  have hdisjoint : Set.PairwiseDisjoint (S : Set TupleId) O := by
    intro u hu u' hu' hne
    exact Finset.disjoint_left.2 fun o ho ho' => hne (h.inj (hget u hu) (hget u' hu') ho ho')
  refine ⟨S.disjiUnion O hdisjoint, ?_, ?_⟩
  · intro o
    rw [Finset.mem_disjiUnion]
    constructor
    · rintro ⟨u, hu, ho⟩
      obtain ⟨e, he⟩ := (h.opened (hget u hu)).2 o ho
      simp [shownFacts, he]
    · intro ho
      obtain ⟨e, he⟩ := Option.isSome_iff_exists.1 (Option.isSome_map.symm.trans ho)
      obtain ⟨u, l, hl, hmem⟩ := h.owned he
      refine ⟨u, (hS u).2 ((h.held u).1 (by simp [hl])), ?_⟩
      show o ∈ os u
      simpa [os, hl] using hmem
  · rw [Finset.disjiUnion_val, Multiset.map_bind, Multiset.bind_map]
    refine Multiset.bind_congr fun u hu => ?_
    obtain ⟨told, htold⟩ := Option.isSome_iff_exists.1 ((hS u).1 hu)
    obtain ⟨a, expanded, n, hlast, hitems, hshown⟩ := h.expands (hget u hu) (hv.known.2 htold)
    rw [htold, Option.getD_some, expansion_data hlaw hlast hitems n]
    show _ = Multiset.map _ (Multiset.ofList (os u))
    rw [Multiset.map_coe]
    congr 1
    have hfacts := congrArg (List.map fun e => Facts.data ((e.map Prod.fst).getD [])) hshown
    rw [List.map_map, List.map_map] at hfacts
    exact hfacts.symm

/-! ## Distinct nodes -/

namespace DistinctMemory

variable {m : DistinctMemory} {identity told : Facts} {u : TupleId}

/-- The data that a class shows. -/
def shown (m : DistinctMemory) (out : TupleId → Option (Facts × Sources)) (identity : Facts) : Facts :=
  Facts.data (((outputUnder m.output? out identity).map Prod.fst).getD [])

/-- What a class shows stands for the class. -/
theorem Valid.identity_shown (h : m.Valid v out) (hclass : (m.output? identity).isSome = true) :
    (m.shown out identity).identity = identity := by
  rw [← h.listing.isSome_outputUnder] at hclass
  obtain ⟨⟨facts, sources⟩, hshown⟩ := Option.isSome_iff_exists.1 hclass
  show Facts.identity (Facts.data _) = _
  rw [hshown, Facts.data_identity]
  exact h.stands hshown

/-- The class of a member is there. -/
theorem Valid.isSome_output? (h : m.Valid v out) (hm : m.members.get? u = some identity) :
    (m.output? identity).isSome = true := by
  obtain ⟨c, hc⟩ := h.classed hm
  simp [output?, hc]

/-- A class has a member, for its size is positive. -/
theorem Valid.exists_member (h : m.Valid v out) (hclass : (m.output? identity).isSome = true) :
    ∃ u told, m.members.get? u = some identity ∧ v.told .only u = some told := by
  rw [output?, Option.isSome_map] at hclass
  obtain ⟨c, hc⟩ := Option.isSome_iff_exists.1 hclass
  obtain ⟨hsize, hpos⟩ := h.size_eq hc
  rw [hsize, List.count_pos_iff] at hpos
  obtain ⟨⟨u, i⟩, he, rfl⟩ := List.mem_map.1 hpos
  have hm : m.members.get? u = some i := Table.get?_eq_some_iff.2 he
  obtain ⟨told, htold⟩ := Option.isSome_iff_exists.1 ((h.held u).1 (by simp [hm]))
  exact ⟨u, told, hm, htold⟩

/-- Where a class consists of values, it shows the data of each of its members. -/
theorem Valid.shown_eq_data (h : m.Valid v out) (hv : v.Current)
    (hm : m.members.get? u = some identity) (htold : v.told .only u = some told)
    (hvalue : Facts.AreValues (Facts.data told)) : m.shown out identity = Facts.data told := by
  have hidentity : told.identity = identity := h.same hm (hv.known.2 htold)
  have hsame : Facts.Same (Facts.data told) (m.shown out identity) := by
    rw [Facts.Same, Facts.data_identity, hidentity, h.identity_shown (h.isSome_output? hm)]
  have hdata := hvalue.data_eq hsame
  rwa [shown, Facts.data_data, Facts.data_data] at hdata

theorem Valid.rows (h : m.Valid v out) (hv : v.Current) (hins : Rows (v.told .only) ins)
    (hvalues : ∀ r ∈ ins, Facts.AreValues r) : Rows (shownFacts out) ins.dedup := by
  have hvalue : ∀ {u told}, v.told .only u = some told → Facts.AreValues (Facts.data told) :=
    fun {u told} htold => hvalues _ (hins.mem_iff.2 ⟨u, told, htold, rfl⟩)
  let I : Finset Facts := ⟨Multiset.ofList m.classes.keys, Multiset.coe_nodup.2 m.classes.keys_nodup⟩
  have hI : ∀ identity, identity ∈ I ↔ (m.output? identity).isSome = true := by
    intro identity
    rw [output?, Option.isSome_map]
    exact Table.contains_iff.symm
  -- Distinct classes show distinct rows, and together they show all of them.
  have hinj : Set.InjOn (m.shown out) I := fun i hi j hj he => by
    rw [← h.identity_shown ((hI i).1 hi), he, h.identity_shown ((hI j).1 hj)]
  have hset : ins.toFinset = I.image (m.shown out) := by
    ext r
    rw [Multiset.mem_toFinset, hins.mem_iff, Finset.mem_image]
    constructor
    · rintro ⟨u, told, htold, rfl⟩
      obtain ⟨identity, hm⟩ := h.held.get?_some (by rw [View.Held, htold]; rfl)
      exact ⟨identity, (hI identity).2 (h.isSome_output? hm),
        h.shown_eq_data hv hm htold (hvalue htold)⟩
    · rintro ⟨identity, hi, rfl⟩
      obtain ⟨u, told, hm, htold⟩ := h.exists_member ((hI identity).1 hi)
      exact ⟨u, told, htold, (h.shown_eq_data hv hm htold (hvalue htold)).symm⟩
  rw [← Multiset.toFinset_val, hset, Finset.image_val_of_injOn hinj]
  exact Listing.rows h.listing hI

end DistinctMemory

end ConstraintStreams
