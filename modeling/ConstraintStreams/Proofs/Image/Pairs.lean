import Mathlib.Data.Finset.Prod
import ConstraintStreams.Proofs.Image.Rowwise
import ConstraintStreams.Proofs.Operator.Join
import ConstraintStreams.Proofs.Operator.Semijoin

/-!
# Images of pairs of rows

Joins and semijoins whose knowledge of their inputs is current have the rows that `Operator.Image`
asks for: a pair of inputs meets exactly if its rows match.
-/

namespace ConstraintStreams

/-! ## Joiners see data only -/

namespace Joiner

variable {joiners : List Joiner} {l r : Facts}

theorem mapM_congr {α β : Type} {f g : α → Except Error β} {as : List α} (h : ∀ a ∈ as, f a = g a) :
    as.mapM f = as.mapM g := by
  induction as with
  | nil => rfl
  | cons a rest ih =>
    rw [List.mapM_cons, List.mapM_cons, h a List.mem_cons_self,
      ih fun b hb => h b (List.mem_cons_of_mem a hb)]

theorem leftKey_data (h : ∀ j ∈ joiners, j.Lawful) (l : Facts) :
    leftKey joiners (Facts.data l) = leftKey joiners l := by
  refine mapM_congr fun f hf => ?_
  obtain ⟨j, hj, hjf⟩ := List.mem_filterMap.1 hf
  cases j with
  | indexed left right => cases hjf; exact (h _ hj).1.eq l
  | test => cases hjf

theorem rightKey_data (h : ∀ j ∈ joiners, j.Lawful) (r : Facts) :
    rightKey joiners (Facts.data r) = rightKey joiners r := by
  refine mapM_congr fun f hf => ?_
  obtain ⟨j, hj, hjf⟩ := List.mem_filterMap.1 hf
  cases j with
  | indexed left right => cases hjf; exact (h _ hj).2.eq r
  | test => cases hjf

theorem accept_data (h : ∀ j ∈ joiners, j.Lawful) (l r : Facts) :
    accept joiners (Facts.data l) (Facts.data r) = accept joiners l r := by
  have hpasses : ∀ fs : List (Handle PairTest),
      (∀ f ∈ fs, f.run (Facts.data l) (Facts.data r) = f.run l r) →
      passes fs (Facts.data l) (Facts.data r) = passes fs l r := by
    intro fs hfs
    induction fs with
    | nil => rfl
    | cons f rest ih =>
      unfold passes
      rw [hfs f List.mem_cons_self, ih fun f hf => hfs f (List.mem_cons_of_mem _ hf)]
  refine hpasses _ fun f hf => ?_
  obtain ⟨j, hj, hjf⟩ := List.mem_filterMap.1 hf
  cases j with
  | indexed => cases hjf
  | test kind accepts => cases hjf; exact h _ hj l r

/-- Whether rows match is a matter of keys and tests on the facts themselves. -/
theorem matches_data (h : ∀ j ∈ joiners, j.Lawful) :
    Matches joiners (Facts.data l) (Facts.data r) ↔ Matches joiners l r := by
  unfold Matches
  rw [leftKey_data h, rightKey_data h, accept_data h]

end Joiner

variable {v : View} {out : TupleId → Option (Facts × Sources)} {ins insRight : Multiset Facts}
  {joiners : List Joiner}

/-! ## Joins -/

theorem product_map {α β γ δ : Type} (s : Multiset α) (t : Multiset β) (f : α → γ) (g : β → δ) :
    s.map f ×ˢ t.map g = (s ×ˢ t).map (Prod.map f g) := by
  simp [SProd.sprod, Multiset.product, Multiset.bind_map, Multiset.map_bind]

/-- Two inputs of a join have an output together exactly if they match. -/
theorem JoinMemory.Valid.has_output {left right : JoinSide}
    (h : JoinMemory.Valid joiners .left v (fun _ _ => False) out left right) (hv : v.Current)
    {x y : TupleId} {fx fy : Facts} (hx : v.told .left x = some fx) (hy : v.told .right y = some fy) :
    (∃ o f, out o = some (f, JoinMemory.pairOn .left x y)) ↔ Joiner.Matches joiners fx fy := by
  have hheldx : v.Held .left x := by simp [View.Held, hx]
  have hheldy : v.Held .right y := by simp [View.Held, hy]
  obtain ⟨kx, hkx⟩ := h.files.lists.get?_some hheldx
  obtain ⟨ky, hky⟩ := h.filesAcross.lists.get?_some hheldy
  have hleft : Joiner.leftKey joiners fx = .ok kx := h.files.key (hv.known.2 hx) hkx
  have hright : Joiner.rightKey joiners fy = .ok ky := h.filesAcross.key (hv.known.2 hy) hky
  constructor
  · rintro ⟨o, f, ho⟩
    obtain ⟨x', y', key, hp, hx', hy'⟩ := h.paired ho
    obtain ⟨rfl, rfl⟩ := JoinMemory.pairOn_inj.1 hp
    rw [hkx] at hx'
    rw [hky] at hy'
    cases hx'
    cases hy'
    exact ⟨kx, hleft, hright,
      (h.exact not_false (hv.known.2 hx) (hv.known.2 hy) hkx hky).1 ⟨o, f, ho⟩⟩
  · rintro ⟨key, hl, hr, haccept⟩
    rw [hleft] at hl
    rw [hright] at hr
    cases hl
    cases hr
    exact (h.exact not_false (hv.known.2 hx) (hv.known.2 hy) hkx hky).2 haccept

open Classical in
theorem JoinMemory.Valid.rows {left right : JoinSide}
    (h : JoinMemory.Valid joiners .left v (fun _ _ => False) out left right) (hv : v.Current)
    (hlaw : ∀ j ∈ joiners, j.Lawful) (hleft : Rows (v.told .left) ins)
    (hright : Rows (v.told .right) insRight) :
    Rows (shownFacts out) (((ins ×ˢ insRight).filter fun p => Joiner.Matches joiners p.1 p.2).map
      fun p => p.1 ++ p.2) := by
  obtain ⟨S, hS, rfl⟩ := hleft
  obtain ⟨T, hT, rfl⟩ := hright
  let fl (x : TupleId) : Facts := (v.told .left x).getD []
  let fr (y : TupleId) : Facts := (v.told .right y).getD []
  have hfl : ∀ x ∈ S, v.told .left x = some (fl x) := fun x hx => by
    obtain ⟨f, hf⟩ := Option.isSome_iff_exists.1 ((hS x).1 hx)
    simp [fl, hf]
  have hfr : ∀ y ∈ T, v.told .right y = some (fr y) := fun y hy => by
    obtain ⟨f, hf⟩ := Option.isSome_iff_exists.1 ((hT y).1 hy)
    simp [fr, hf]
  let I : Finset (TupleId × TupleId) := (S ×ˢ T).filter fun p => Joiner.Matches joiners (fl p.1) (fr p.2)
  have hI : ∀ p ∈ I, v.told .left p.1 = some (fl p.1) ∧ v.told .right p.2 = some (fr p.2) ∧
      ∃ o f, out o = some (f, pairOn .left p.1 p.2) := by
    intro p hp
    obtain ⟨hmem, hmatches⟩ := Finset.mem_filter.1 hp
    obtain ⟨hx, hy⟩ := Finset.mem_product.1 hmem
    exact ⟨hfl _ hx, hfr _ hy, (h.has_output hv (hfl _ hx) (hfr _ hy)).2 hmatches⟩
  have hrows : ((S.val.map fun x => Facts.data (fl x)) ×ˢ (T.val.map fun y => Facts.data (fr y))).filter
      (fun p => Joiner.Matches joiners p.1 p.2) =
      I.val.map fun p => (Facts.data (fl p.1), Facts.data (fr p.2)) := by
    rw [product_map, Multiset.filter_map]
    refine congrArg₂ Multiset.map rfl (Multiset.filter_congr fun p _ => ?_)
    exact Joiner.matches_data hlaw
  show Rows _ (Multiset.map _ (Multiset.filter _
    ((S.val.map fun x => Facts.data (fl x)) ×ˢ (T.val.map fun y => Facts.data (fr y)))))
  rw [hrows, Multiset.map_map]
  let o (p : TupleId × TupleId) : TupleId :=
    if hp : ∃ o f, out o = some (f, pairOn .left p.1 p.2) then hp.choose else ⟨0, 0⟩
  have ho : ∀ p ∈ I, out (o p) = some (fl p.1 ++ fr p.2, pairOn .left p.1 p.2) := by
    intro p hp
    obtain ⟨hx, hy, hex⟩ := hI p hp
    obtain ⟨f, hf⟩ := hex.choose_spec
    have hshown : f = joinOn .left (fl p.1) (fr p.2) :=
      h.shown not_false (hv.known.2 hx) (hv.known.2 hy) hf
    simp only [o, dif_pos hex]
    rw [hf, hshown]
    rfl
  have hindex := Rows.of_index (f := shownFacts out) (I := I) (o := o)
    (g := fun p => fl p.1 ++ fr p.2) (fun p hp => by simp [shownFacts, ho p hp]) ?_ ?_
  · simpa [Function.comp_def] using hindex
  · intro p hp q hq he
    have hpair := (ho p hp).symm.trans (he ▸ ho q hq)
    have := pairOn_inj.1 (congrArg Prod.snd (Option.some.inj hpair))
    exact Prod.ext this.1 this.2
  · intro u hu
    obtain ⟨⟨f, sources⟩, he⟩ := Option.isSome_iff_exists.1 (Option.isSome_map.symm.trans hu)
    obtain ⟨x, y, key, rfl, hx, hy⟩ := h.paired he
    have hxS : x ∈ S := (hS x).2 ((h.files.lists x).1 (by simp [hx]))
    have hyT : y ∈ T := (hT y).2 ((h.filesAcross.lists y).1 (by simp [hy]))
    have hmatches := (h.has_output hv (hfl x hxS) (hfr y hyT)).1 ⟨u, f, he⟩
    have hp : (x, y) ∈ I := Finset.mem_filter.2 ⟨Finset.mem_product.2 ⟨hxS, hyT⟩, hmatches⟩
    exact ⟨(x, y), hp, h.inj (ho (x, y) hp) he⟩

/-! ## Semijoins -/

/-- A left input has a match exactly if it is counted so. -/
theorem SemijoinMemory.Valid.has_match {m : SemijoinMemory} {expected : Bool} {dirty : List TupleId}
    (h : m.Valid joiners expected dirty v out) (hv : v.Current) {l : TupleId} {fl : Facts}
    {c : Counter} (hl : v.told .left l = some fl) (hc : m.counters.get? l = some c) :
    c.hits.isEmpty = false ↔
      ∃ r fr, v.told .right r = some fr ∧ Joiner.Matches joiners fl fr := by
  have hheld : v.Held .left l := by simp [View.Held, hl]
  obtain ⟨key, hkey⟩ := h.lefts.get?_some hheld
  have hleft := h.leftKey (hv.known.2 hl) hkey
  rw [List.isEmpty_eq_false_iff_exists_mem]
  constructor
  · rintro ⟨r, hr⟩
    have hlinked : l ∈ m.leftsAt r := h.linked.2 ⟨c, hc, hr⟩
    obtain ⟨k, hkl, hkr⟩ := h.keys_agree hlinked
    cases hkey.symm.trans hkl
    obtain ⟨fr, hfr⟩ := Option.isSome_iff_exists.1 ((h.rights r).1 (by simp [hkr]))
    exact ⟨r, fr, hfr, key, hleft, h.rightKey (hv.known.2 hfr) hkr,
      (h.exact (hv.known.2 hl) (hv.known.2 hfr) hkl hkr).1 hlinked⟩
  · rintro ⟨r, fr, hfr, k, hkl, hkr, haccept⟩
    rw [hleft] at hkl
    cases hkl
    obtain ⟨k', hk'⟩ := h.rights.get?_some (show v.Held .right r by simp [View.Held, hfr])
    have hright := h.rightKey (hv.known.2 hfr) hk'
    rw [hkr] at hright
    cases hright
    obtain ⟨c', hc', hr⟩ :=
      h.linked.1 ((h.exact (hv.known.2 hl) (hv.known.2 hfr) hkey hk').2 haccept)
    cases hc.symm.trans hc'
    exact ⟨r, hr⟩

/-- A left input has an output exactly if it has a match or none, whichever is expected. -/
theorem SemijoinMemory.Valid.passes_iff {m : SemijoinMemory} {expected : Bool}
    (h : m.Valid joiners expected [] v out) (hv : v.Current) {l : TupleId} {fl : Facts}
    (hl : v.told .left l = some fl) : (m.output? l).isSome = true ↔
      ((∃ r fr, v.told .right r = some fr ∧ Joiner.Matches joiners fl fr) ↔ expected = true) := by
  obtain ⟨c, hc⟩ := h.counted.get?_some (show v.Held .left l by simp [View.Held, hl])
  have hsettled := h.settled (by simp) hc
  rw [show m.output? l = c.output by simp [output?, hc], hsettled, ← h.has_match hv hl hc]
  cases c.hits.isEmpty <;> cases expected <;> simp

open Classical in
theorem SemijoinMemory.Valid.rows {m : SemijoinMemory} {expected : Bool}
    (h : m.Valid joiners expected [] v out) (hv : v.Current) (hlaw : ∀ j ∈ joiners, j.Lawful)
    (hleft : Rows (v.told .left) ins) (hright : Rows (v.told .right) insRight) :
    Rows (shownFacts out)
      (ins.filter fun l => (∃ r ∈ insRight, Joiner.Matches joiners l r) ↔ expected = true) := by
  have hmatch : ∀ fl : Facts, (∃ r ∈ insRight, Joiner.Matches joiners (Facts.data fl) r) ↔
      ∃ r fr, v.told .right r = some fr ∧ Joiner.Matches joiners fl fr := by
    intro fl
    constructor
    · rintro ⟨row, hrow, hm⟩
      obtain ⟨r, fr, hfr, rfl⟩ := hright.mem_iff.1 hrow
      exact ⟨r, fr, hfr, (Joiner.matches_data hlaw).1 hm⟩
    · rintro ⟨r, fr, hfr, hm⟩
      exact ⟨_, hright.mem_iff.2 ⟨r, fr, hfr, rfl⟩, (Joiner.matches_data hlaw).2 hm⟩
  obtain ⟨S, hS, rfl⟩ := hleft
  rw [Multiset.filter_map]
  let P (u : TupleId) : Prop := (∃ r ∈ insRight,
    Joiner.Matches joiners (Facts.data ((v.told .left u).getD [])) r) ↔ expected = true
  -- The left inputs that pass are those with an output.
  have hpasses : ∀ u, u ∈ S.filter P ↔ (m.output? u).isSome = true := by
    intro u
    rw [Finset.mem_filter, hS]
    cases hu : v.told .left u with
    | none =>
      have hnone : m.counters.get? u = none := h.counted.get?_none (by simp [View.Held, hu])
      simp [output?, hnone]
    | some fl =>
      rw [Option.isSome_some, eq_self_iff_true, true_and, h.passes_iff hv hu]
      simp only [P, hu, Option.getD_some, hmatch]
  have hlisted := Listing.rows h.listing hpasses
  convert hlisted using 1
  show Multiset.map _ (S.filter P).val = _
  refine Multiset.map_congr rfl fun u hu => ?_
  have hsome := (hpasses u).1 hu
  obtain ⟨told, htold⟩ := Option.isSome_iff_exists.1 ((hS u).1 (Finset.mem_filter.1 hu).1)
  rw [← h.listing.isSome_outputUnder] at hsome
  obtain ⟨⟨facts, sources⟩, hshown⟩ := Option.isSome_iff_exists.1 hsome
  rw [hshown, htold, h.shown hshown (hv.known.2 htold)]
  rfl

end ConstraintStreams
