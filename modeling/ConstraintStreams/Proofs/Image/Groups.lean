import ConstraintStreams.Proofs.Image.Rowwise
import ConstraintStreams.Proofs.Operator.Group

/-!
# Images of groups of rows

What an accumulator reports is what `Accumulator.Report` asks for of the rows of its members, and a
grouping whose knowledge of its inputs is current has one row for each group, as `Operator.Image` has
it.
-/

namespace ConstraintStreams

/-! ## Reports -/

theorem Fact.Numbers.data {a b : Fact} (h : a.Numbers b) : b.data = a.data := by
  obtain ⟨n, rfl⟩ := h
  exact Fact.data_numberFrom n a

theorem Fact.Unboxes.data {a b : Fact} (h : a.Unboxes b) : b.data = a.data := by
  obtain ⟨n, rfl⟩ := h
  exact Fact.data_unboxFrom n a

/-- The rows of the members of an accumulator. -/
def depositRows (ms : Multiset Deposit) : Multiset Facts := ms.map fun p => Facts.data p.1

namespace Slots

variable {shape : Facts → Fact → Prop} {s : Slots} {ms : Multiset Deposit}

theorem Keeps.of_entry (h : s.Keeps shape ms) {e : Nat × Fact} (he : e ∈ s.members.entries) :
    ∃ p ∈ ms, shape p.1 e.2 := by
  obtain ⟨p, hp, -, hshape⟩ := Multiset.exists_mem_of_rel_of_mem h.rel (Multiset.mem_coe.2 he)
  exact ⟨p, hp, hshape⟩

theorem Keeps.of_member (h : s.Keeps shape ms) {p : Deposit} (hp : p ∈ ms) :
    ∃ e ∈ s.members.entries, shape p.1 e.2 := by
  obtain ⟨e, he, -, hshape⟩ := Multiset.exists_mem_of_rel_of_mem (Multiset.rel_flip.2 h.rel) hp
  exact ⟨e, Multiset.mem_coe.1 he, hshape⟩

end Slots

namespace Ranking

variable {order : Fact → Fact → Ordering} {r : Ranking} {a : Fact}

theorem order_ne_gt_of_lt {a b : Nat × Fact} (h : compare order a b = .lt) : order a.2 b.2 ≠ .gt := by
  intro hgt
  rw [compare, hgt] at h
  cases h

/-- No member ranks below the least. -/
theorem Ascends.least (h : Ascends order r) (htrans : Std.TransCmp order) (ha : r.least? = some a) :
    (∃ n, (n, a) ∈ r) ∧ ∀ e ∈ r, order a e.2 ≠ .gt := by
  cases r with
  | nil => cases ha
  | cons x rest =>
    cases ha
    refine ⟨⟨x.1, List.mem_cons_self⟩, fun e he => ?_⟩
    rcases List.mem_cons.1 he with rfl | he
    · have hself : order e.2 e.2 = .eq := Std.ReflCmp.compare_self
      simp [hself]
    · exact order_ne_gt_of_lt ((List.pairwise_cons.1 h).1 e he)

/-- No member ranks above the greatest. -/
theorem Ascends.greatest (h : Ascends order r) (htrans : Std.TransCmp order)
    (ha : r.greatest? = some a) : (∃ n, (n, a) ∈ r) ∧ ∀ e ∈ r, order a e.2 ≠ .lt := by
  obtain ⟨x, hx, rfl⟩ := Option.map_eq_some_iff.1 ha
  obtain ⟨front, rfl⟩ := List.getLast?_eq_some_iff.1 hx
  refine ⟨⟨x.1, by simp⟩, fun e he => ?_⟩
  rcases List.mem_append.1 he with he | he
  · have hlt := (List.pairwise_append.1 h).2.2 e he x (List.mem_singleton.2 rfl)
    have hne := order_ne_gt_of_lt hlt
    rw [htrans.eq_swap]
    cases hcmp : order e.2 x.2 <;> simp_all
  · obtain rfl := List.mem_singleton.1 he
    have hself : order e.2 e.2 = .eq := Std.ReflCmp.compare_self
    simp [hself]

end Ranking

/-- A table of frequencies has as many entries as there are distinct things. -/
theorem Frequencies.size_eq {counts : Table Fact Nat} {things : List Fact}
    (h : Frequencies counts things) : counts.size = (Multiset.ofList things).dedup.card := by
  have hkeys : ∀ k, k ∈ counts.keys ↔ k ∈ things := by
    intro k
    rw [← Table.contains_iff, Table.contains, Option.isSome_iff_exists, ← List.count_pos_iff]
    constructor
    · rintro ⟨n, hn⟩
      obtain ⟨hpos, rfl⟩ := (h k n).1 hn
      exact hpos
    · exact fun hpos => ⟨_, (h k _).2 ⟨hpos, rfl⟩⟩
  have hperm : counts.keys.Perm things.dedup :=
    (List.perm_ext_iff_of_nodup counts.keys_nodup (List.nodup_dedup things)).2 fun k =>
      (hkeys k).trans List.mem_dedup.symm
  rw [Multiset.coe_dedup, Multiset.coe_card, ← hperm.length_eq]
  simp [Table.keys, Table.size]

namespace Accumulator

variable {ms : Multiset Deposit}

/-- What the row of a member comes to is ranked, but for versions. -/
theorem exists_ranked {of : Facts → Except Error Fact} {ranking : Ranking} {members : Slots}
    (hof : ReadsData Fact.data of)
    (hkeeps : members.Keeps (fun facts b => ∃ a, of facts = .ok a ∧ a.Unboxes b) ms)
    (hperm : ranking.Perm members.members.entries) {r : Facts} {b : Fact} (hr : r ∈ depositRows ms)
    (hb : of r = .ok b) : ∃ e ∈ ranking, e.2.data = b.data := by
  obtain ⟨p, hp, rfl⟩ := Multiset.mem_map.1 hr
  obtain ⟨e, he, a, ha, hunboxes⟩ := hkeeps.of_member hp
  obtain ⟨b', hb', hsame⟩ := hof.of_ok ha
  cases hb.symm.trans hb'
  exact ⟨e, hperm.mem_iff.2 he, hunboxes.data.trans hsame.symm⟩

/-- The best member of a ranking is to be reported: it is that of some row, and no row is better. -/
theorem report_best {greatest : Bool} {of : Facts → Except Error Fact} {order : Fact → Fact → Ordering}
    {ranking : Ranking} {members : Slots} {a : Fact} (hof : ReadsData Fact.data of)
    (hdata : ∀ a b, order a.data b.data = order a b)
    (hkeeps : members.Keeps (fun facts b => ∃ a, of facts = .ok a ∧ a.Unboxes b) ms)
    (hperm : ranking.Perm members.members.entries) (ha : ∃ n, (n, a) ∈ ranking)
    (hbest : ∀ e ∈ ranking, order a e.2 ≠ if greatest then .lt else .gt) :
    Report (extremum greatest of order [] ∅) (depositRows ms) (some a.data) := by
  obtain ⟨n, hmem⟩ := ha
  obtain ⟨p, hp, a', ha', hunboxes⟩ := hkeeps.of_entry (hperm.mem_iff.1 hmem)
  obtain ⟨b, hb, hsame⟩ := hof.of_ok ha'
  refine ⟨⟨_, Multiset.mem_map_of_mem _ hp, b, hb, hsame.trans hunboxes.data.symm⟩, ?_⟩
  intro r hr b' hb'
  obtain ⟨e, he, hdatae⟩ := exists_ranked hof hkeeps hperm hr hb'
  rw [← hdata, Fact.data_data, ← hdatae, hdata]
  exact hbest e he

/-- What an accumulator reports is what is to be reported of the rows of its members. -/
theorem tally_report {acc start : Accumulator} (hlaw : start.Lawful) (h : acc.Tally ms)
    (hblank : acc.blank = start) : start.Report (depositRows ms) (acc.value?.map Fact.data) := by
  subst hblank
  cases acc with
  | count members =>
    obtain rfl : members = ms.card := h
    show _ = some (Fact.size (depositRows ms).card)
    rw [depositRows, Multiset.card_map]
    rfl
  | sum of mean total members =>
    obtain ⟨rfl, htotal, hvalues⟩ := h
    refine ⟨total, ?_, ?_⟩
    · rw [htotal, depositRows, Multiset.map_map]
      refine congrArg _ (Multiset.map_congr rfl fun p hp => ?_)
      obtain ⟨n, hn, hreceipt⟩ := hvalues p hp
      rw [Function.comp_apply, ReadsData.eq hlaw, hn, Deposit.amount, hreceipt]
      rfl
    · rw [depositRows, Multiset.card_map]
      cases mean with
      | false => rfl
      | true =>
        show Option.map Fact.data (if _ then _ else _) = if _ then _ else _
        split <;> rfl
  | extremum greatest of order ranking members =>
    obtain ⟨hof, htrans, hdata, -⟩ := hlaw
    obtain ⟨hkeeps, hperm, hascends⟩ := h
    have hempty : ranking = [] → depositRows ms = 0 := by
      rintro rfl
      rw [depositRows, Multiset.map_eq_zero, Multiset.eq_zero_iff_forall_notMem]
      intro p hp
      obtain ⟨e, he, -⟩ := hkeeps.of_member hp
      cases hperm.mem_iff.2 he
    cases greatest with
    | false =>
      show Report _ _ (Option.map _ ranking.least?)
      cases hleast : ranking.least? with
      | none => exact hempty (List.head?_eq_none_iff.1 (Option.map_eq_none_iff.1 hleast))
      | some a =>
        obtain ⟨hmem, hall⟩ := (hascends htrans).least htrans hleast
        exact report_best hof hdata hkeeps hperm hmem hall
    | true =>
      show Report _ _ (Option.map _ ranking.greatest?)
      cases hgreatest : ranking.greatest? with
      | none => exact hempty (List.getLast?_eq_none_iff.1 (Option.map_eq_none_iff.1 hgreatest))
      | some a =>
        obtain ⟨hmem, hall⟩ := (hascends htrans).greatest htrans hgreatest
        exact report_best hof hdata hkeeps hperm hmem hall
  | list => exact hlaw.elim
  | distinct of counts members =>
    obtain ⟨hkeeps, hcounts⟩ := h
    refine ⟨Multiset.ofList members.members.values, ?_, ?_⟩
    · rw [depositRows, Multiset.map_map, Table.values, ← Multiset.map_coe, Multiset.map_map]
      refine (Multiset.rel_eq.1 (Multiset.rel_map.2 (hkeeps.rel.mono fun e _ p _ hholds => ?_))).symm
      obtain ⟨-, a, ha, hidentity⟩ := hholds
      obtain ⟨b, hb, hsame⟩ := ReadsData.of_ok hlaw ha
      show Except.ok e.2 = Fact.identity <$> of (Facts.data p.1)
      rw [hb, ← hidentity, ← hsame]
      rfl
    · show Option.map Fact.data (some (Fact.size counts.size)) = _
      rw [Frequencies.size_eq hcounts]
      rfl
  | custom => exact hlaw.elim

end Accumulator

/-! ## Groups -/

/-- Answers on some items, as a map over those items. -/
theorem filterMap_eq_map_filter {α β : Type} (f : α → Option β) (b : β) (s : Multiset α) :
    s.filterMap f = (s.filter fun a => (f a).isSome = true).map fun a => (f a).getD b := by
  induction s using Multiset.induction_on with
  | empty => rfl
  | cons a s ih =>
    cases ha : f a with
    | none => rw [Multiset.filterMap_cons_none a s ha, ih, Multiset.filter_cons_of_neg s (by simp [ha])]
    | some c =>
      rw [Multiset.filterMap_cons_some f a s ha, ih, Multiset.filter_cons_of_pos s (by simp [ha]),
        Multiset.map_cons, ha, Option.getD_some]

namespace GroupMemory

variable {v : View} {out : TupleId → Option (Facts × Sources)} {ins : Multiset Facts}
  {key : Option (Facts → Except Error Fact)} {collector : Option Collector} {m : GroupMemory}
  {input : TupleId} {member : Member} {facts : Facts} {id : GroupId} {group : Group}

/-- A row belongs to the group that the key function answered for. -/
theorem groupOf_data (hkey : ∀ f, key = some f → ReadsData Fact.data f) {k : Option Fact}
    (h : Answers key facts k) : groupOf key (Facts.data facts) = k.map Fact.identity := by
  cases key with
  | none =>
    obtain rfl : k = none := h
    rfl
  | some f =>
    obtain ⟨a, b, ha, hnumbers, rfl⟩ := h
    obtain ⟨a', ha', hdata⟩ := (hkey f rfl).of_ok ha
    have hsame : a'.identity = b.identity := by
      rw [hnumbers.identity, ← Fact.identity_data, hdata, Fact.identity_data]
    show (f (Facts.data facts)).toOption.map Fact.identity = some b.identity
    rw [ha', ← hsame]
    rfl

/-- A member is in the group of its row. -/
theorem Valid.group_eq {dirty : List GroupId} (h : m.Valid key collector dirty v out)
    (hkey : ∀ f, key = some f → ReadsData Fact.data f) (hm : m.members.get? input = some member)
    (ht : v.told .only input = some facts) : groupOf key (Facts.data facts) = member.group := by
  obtain ⟨k, hanswers, hk⟩ := h.keyed hm ht
  exact (groupOf_data hkey hanswers).trans hk

/-- The rows of the members of a group are the rows that belong to it. -/
theorem Valid.depositRows_eq {dirty : List GroupId} (h : m.Valid key collector dirty v out)
    (hkey : ∀ f, key = some f → ReadsData Fact.data f) (hins : Rows (v.told .only) ins)
    (id : GroupId) :
    depositRows (deposits m.members (v.told .only) id) = ins.filter (groupOf key · = id) := by
  rw [hins.unique (.of_lists h.held), depositRows, deposits, Multiset.map_coe, Multiset.filter_coe,
    List.map_filterMap, List.filter_filterMap]
  congr 1
  refine List.filterMap_congr fun e he => ?_
  have hget := Table.get?_eq_some_iff.2 he
  obtain ⟨facts, hfacts⟩ := Option.isSome_iff_exists.1 ((h.held e.1).1 (by simp [hget]))
  rw [hfacts, Option.map_some, Option.filter_some, h.group_eq hkey hget hfacts]
  by_cases hid : e.2.group = id <;> simp [hid]

/-- The key of a group has the data of its id. -/
theorem Valid.key_data (h : m.Valid key collector [] v out)
    (hvalue : ∀ f, key = some f → ∀ facts k, f facts = .ok k → k.IsValue)
    (hg : m.groups.get? id = some group) : group.key.map Fact.data = id := by
  have hnamed := h.named hg
  have hpos : 0 < (deposits m.members (v.told .only) id).card := by
    rw [← h.size_eq hg]
    exact Nat.pos_of_ne_zero (h.settled (by simp) hg).1
  obtain ⟨p, hp⟩ := Multiset.card_pos_iff_exists_mem.1 hpos
  obtain ⟨e, he, hep⟩ := List.mem_filterMap.1 (Multiset.mem_coe.1 hp)
  have hgroup : e.2.group = id := by
    by_contra hne
    rw [if_neg hne] at hep
    cases hep
  have hget := Table.get?_eq_some_iff.2 he
  obtain ⟨facts, hfacts⟩ := Option.isSome_iff_exists.1 ((h.held e.1).1 (by simp [hget]))
  obtain ⟨k, hanswers, hk⟩ := h.keyed hget hfacts
  rw [hgroup] at hk
  subst hnamed
  cases hgk : group.key with
  | none => rfl
  | some gk =>
    rw [hgk] at hk
    cases key with
    | none =>
      obtain rfl : k = none := hanswers
      cases hk
    | some f =>
      obtain ⟨a, b, ha, hnumbers, rfl⟩ := hanswers
      -- The group's key stands for what the key of a member stands for, and that is a value.
      have hsame : gk.identity = a.identity := (Option.some.inj hk).symm.trans hnumbers.identity
      have ha := hvalue f rfl facts a ha
      rw [Option.map_some, Option.map_some, ha gk hsame.symm, ha.data_eq_identity, hsame]

/-- What a group shows is what its rows come to. -/
theorem Valid.shows (h : m.Valid key collector [] v out)
    (hkey : ∀ f, key = some f → ReadsData Fact.data f ∧ ∀ facts k, f facts = .ok k → k.IsValue)
    (hcollector : ∀ c, collector = some c → c.start.Lawful) (hins : Rows (v.told .only) ins)
    (hg : m.groups.get? id = some group) : Shows collector id (ins.filter (groupOf key · = id))
      ((outputUnder m.output? out id).map fun e => Facts.data e.1) := by
  have hid := h.key_data (fun f hf => (hkey f hf).2) hg
  have hcollects := h.collects hg
  have hstands := (h.settled (by simp) hg).2
  have hkeyRow : Facts.data group.key.toList = id.toList := by
    rw [← hid]
    cases group.key <;> rfl
  rw [← h.depositRows_eq (fun f hf => (hkey f hf).1) hins id]
  unfold Stands outputFacts? at hstands
  cases collector with
  | none =>
    cases hacc : group.accumulator with
    | some acc => rw [hacc] at hcollects; exact hcollects.elim
    | none =>
      rw [hacc] at hstands
      obtain ⟨n, sources, hshown⟩ := hstands
      show _ = some id.toList
      rw [hshown, Option.map_some, Facts.data_numberItemsFrom, hkeyRow]
  | some c =>
    cases hacc : group.accumulator with
    | none => rw [hacc] at hcollects; exact hcollects.elim
    | some acc =>
      rw [hacc] at hcollects hstands
      refine ⟨acc.value?.map Fact.data,
        Accumulator.tally_report (hcollector c rfl) hcollects.1 hcollects.2, ?_⟩
      cases hvalue : acc.value? with
      | none =>
        simp only [hvalue, Option.map_none] at hstands
        rw [hstands]
        rfl
      | some value =>
        simp only [hvalue, Option.map_some] at hstands
        obtain ⟨n, sources, hshown⟩ := hstands
        rw [hshown, Option.map_some, Facts.data_numberItemsFrom, Facts.data_append, hkeyRow]
        rfl

theorem Valid.rows (h : m.Valid key collector [] v out)
    (hkey : ∀ f, key = some f → ReadsData Fact.data f ∧ ∀ facts k, f facts = .ok k → k.IsValue)
    (hcollector : ∀ c, collector = some c → c.start.Lawful) (hins : Rows (v.told .only) ins) :
    ∃ rows, Rows (shownFacts out) rows ∧ Image key collector ins rows := by
  classical
  let row (id : GroupId) : Option Facts := (outputUnder m.output? out id).map fun e => Facts.data e.1
  have hrows := h.depositRows_eq (fun f hf => (hkey f hf).1) hins
  -- The groups of the memory are those that rows belong to.
  have hids : ∀ id, id ∈ ins.map (groupOf key) ↔ ∃ group, m.groups.get? id = some group := by
    intro id
    constructor
    · intro hid
      obtain ⟨r, hr, rfl⟩ := Multiset.mem_map.1 hid
      obtain ⟨u, facts, hfacts, rfl⟩ := hins.mem_iff.1 hr
      obtain ⟨member, hmember⟩ := h.held.get?_some (show v.Held .only u by simp [View.Held, hfacts])
      rw [h.group_eq (fun f hf => (hkey f hf).1) hmember hfacts]
      exact h.grouped hmember
    · rintro ⟨group, hg⟩
      have hpos : 0 < (depositRows (deposits m.members (v.told .only) id)).card := by
        rw [depositRows, Multiset.card_map, ← h.size_eq hg]
        exact Nat.pos_of_ne_zero (h.settled (by simp) hg).1
      rw [hrows] at hpos
      obtain ⟨r, hr⟩ := Multiset.card_pos_iff_exists_mem.1 hpos
      obtain ⟨hmem, hgroup⟩ := Multiset.mem_filter.1 hr
      exact Multiset.mem_map.2 ⟨r, hmem, hgroup⟩
  have hnodup := (Multiset.nodup_dedup (ins.map (groupOf key))).filter fun id => (row id).isSome = true
  have hshown : ∀ id, id ∈ (⟨_, hnodup⟩ : Finset GroupId) ↔ (m.output? id).isSome = true := by
    intro id
    rw [Finset.mem_mk, Multiset.mem_filter, Multiset.mem_dedup, hids, Option.isSome_map,
      h.listing.isSome_outputUnder]
    refine and_iff_right_of_imp fun hid => ?_
    obtain ⟨o, ho⟩ := Option.isSome_iff_exists.1 hid
    obtain ⟨group, hg, -⟩ := Option.bind_eq_some_iff.1 ho
    exact ⟨group, hg⟩
  refine ⟨(ins.map (groupOf key)).dedup.filterMap row, ?_, row, fun id hid => ?_, rfl⟩
  · have hlisted := Listing.rows h.listing hshown
    rw [filterMap_eq_map_filter row []]
    convert hlisted using 1
    refine Multiset.map_congr rfl fun id _ => ?_
    cases houtput : outputUnder m.output? out id <;> simp [row, houtput]
  · obtain ⟨group, hg⟩ := (hids id).1 hid
    exact h.shows hkey hcollector hins hg

end GroupMemory

end ConstraintStreams
