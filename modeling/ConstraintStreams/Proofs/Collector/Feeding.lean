import Mathlib.Algebra.Order.Ring.Int
import ConstraintStreams.Proofs.Image.Groups

/-!
# Accumulators fed from scratch

Members come and go, and the accumulator of a group is never computed anew. `Accumulator.Tells` says
what it comes to all the same: the value that a blank accumulator reports once it was fed the members
that are left, in the order in which they came.
-/

namespace ConstraintStreams

namespace Ranking

variable {order : Fact → Fact → Ordering} {a b : Nat × Fact} {r r' : Ranking}
  {entries entries' : List (Nat × Fact)}

/-- Ranks some more members, one after the other. -/
def rank (order : Fact → Fact → Ordering) (r : Ranking) (entries : List (Nat × Fact)) : Ranking :=
  entries.foldl (fun r e => insert order e r) r

/-- There is one way to rank some members. -/
theorem Ascends.eq_of_perm (h : Ascends order r) (h' : Ascends order r') (htrans : Std.TransCmp order)
    (hperm : r.Perm r') : r = r' := by
  have := transCmp_compare htrans
  refine hperm.eq_of_pairwise (fun a b _ _ hab hba => ?_) h h'
  exact absurd hba (Std.OrientedCmp.not_lt_of_lt hab)

/-- A member that comes last stands behind all equal ones, whatever its number is. -/
theorem map_insert_late (ha : ∀ e ∈ r, e.1 < a.1) (hb : ∀ e ∈ r', e.1 < b.1) (hab : a.2 = b.2)
    (h : r.map Prod.snd = r'.map Prod.snd) :
    (insert order a r).map Prod.snd = (insert order b r').map Prod.snd := by
  induction r generalizing r' with
  | nil =>
    obtain rfl : r' = [] := List.map_eq_nil_iff.1 h.symm
    simp [insert, hab]
  | cons c rest ih =>
    obtain ⟨c', rest', rfl, hc, hrest⟩ := List.map_eq_cons_iff.1 h.symm
    have hlate : compare order a c = (order a.2 c.2).then .gt := by
      rw [compare, compare_gt_iff_gt.2 (ha c List.mem_cons_self)]
    have hlate' : compare order b c' = (order a.2 c.2).then .gt := by
      rw [compare, compare_gt_iff_gt.2 (hb c' List.mem_cons_self), hab, hc]
    have hstep := ih (fun e he => ha e (List.mem_cons_of_mem c he))
      (fun e he => hb e (List.mem_cons_of_mem c' he)) hrest.symm
    simp only [insert, hlate, hlate']
    cases order a.2 c.2 with
    | lt => simp [hab, hc, hrest]
    | eq => simp [hc, hstep]
    | gt => simp [hc, hstep]

theorem rank_spec (htrans : Std.TransCmp order) (hr : Ascends order r)
    (hlate : ∀ e ∈ r, ∀ d ∈ entries, e.1 < d.1) (hasc : entries.Pairwise fun e d => e.1 < d.1) :
    Ascends order (rank order r entries) ∧ (rank order r entries).Perm (r ++ entries) := by
  induction entries generalizing r with
  | nil => exact ⟨hr, by simp [rank]⟩
  | cons e rest ih =>
    obtain ⟨he, hrest⟩ := List.pairwise_cons.1 hasc
    have hnew : ∀ d ∈ r, e.1 ≠ d.1 := fun d hd => (hlate d hd e List.mem_cons_self).ne'
    have hperm : (insert order e r).Perm (e :: r) := insert_perm hnew
    obtain ⟨hasc', hperm'⟩ := ih (hr.insert htrans hnew) (fun d hd c hc => by
      rcases List.mem_cons.1 (hperm.mem_iff.1 hd) with rfl | hd
      · exact he c hc
      · exact hlate d hd c (List.mem_cons_of_mem e hc)) hrest
    exact ⟨hasc', hperm'.trans ((hperm.append_right rest).trans List.perm_middle.symm)⟩

theorem map_rank (hlate : ∀ e ∈ r, ∀ d ∈ entries, e.1 < d.1)
    (hlate' : ∀ e ∈ r', ∀ d ∈ entries', e.1 < d.1)
    (hasc : entries.Pairwise fun e d => e.1 < d.1) (hasc' : entries'.Pairwise fun e d => e.1 < d.1)
    (h : r.map Prod.snd = r'.map Prod.snd)
    (hentries : entries.map Prod.snd = entries'.map Prod.snd) :
    (rank order r entries).map Prod.snd = (rank order r' entries').map Prod.snd := by
  induction entries generalizing r r' entries' with
  | nil =>
    obtain rfl : entries' = [] := List.map_eq_nil_iff.1 hentries.symm
    exact h
  | cons e rest ih =>
    obtain ⟨e', rest', rfl, he, hrest⟩ := List.map_eq_cons_iff.1 hentries.symm
    obtain ⟨hbelow, hasc⟩ := List.pairwise_cons.1 hasc
    obtain ⟨hbelow', hasc'⟩ := List.pairwise_cons.1 hasc'
    have hr : ∀ d ∈ r, d.1 < e.1 := fun d hd => hlate d hd e List.mem_cons_self
    have hr' : ∀ d ∈ r', d.1 < e'.1 := fun d hd => hlate' d hd e' List.mem_cons_self
    have later {x : Nat × Fact} {q : Ranking} {ds : List (Nat × Fact)} (hq : ∀ d ∈ q, d.1 < x.1)
        (hds : ∀ d ∈ ds, x.1 < d.1) : ∀ c ∈ insert order x q, ∀ d ∈ ds, c.1 < d.1 := by
      intro c hc d hd
      rcases List.mem_cons.1 ((insert_perm fun d hd => (hq d hd).ne').mem_iff.1 hc) with rfl | hc
      · exact hds d hd
      · exact (hq c hc).trans (hds d hd)
    show (rank order (insert order e r) rest).map _ = (rank order (insert order e' r') rest').map _
    exact ih (later hr hbelow) (later hr' hbelow') hasc hasc' (map_insert_late hr hr' he.symm h)
      hrest.symm

/-- The order of the members says all about how they rank. -/
theorem map_eq_of_entries (htrans : Std.TransCmp order) (hr : Ascends order r)
    (hr' : Ascends order r') (hperm : r.Perm entries) (hperm' : r'.Perm entries')
    (hasc : entries.Pairwise fun e d => e.1 < d.1) (hasc' : entries'.Pairwise fun e d => e.1 < d.1)
    (h : entries.map Prod.snd = entries'.map Prod.snd) : r.map Prod.snd = r'.map Prod.snd := by
  have hrank := rank_spec (r := []) htrans .nil (by simp) hasc
  have hrank' := rank_spec (r := []) htrans .nil (by simp) hasc'
  rw [hr.eq_of_perm hrank.1 htrans (hperm.trans hrank.2.symm),
    hr'.eq_of_perm hrank'.1 htrans (hperm'.trans hrank'.2.symm)]
  exact map_rank (by simp) (by simp) hasc hasc' rfl h

end Ranking

namespace Slots

/-- The receipts name the members in the order in which they came. -/
structure Queues (s : Slots) (receipts : List Receipt) : Prop where
  order : s.members.keys.map .slot = receipts
  ascends : s.members.keys.Pairwise (· < ·)
  below : ∀ n ∈ s.members.keys, n < s.next

variable {s s' : Slots} {receipt : Receipt} {receipts front rest : List Receipt} {e : Nat × Fact}
  {shape : Facts → Fact → Prop} {ds : List Deposit}

theorem Queues.empty : Queues ∅ [] := ⟨rfl, .nil, fun _ hn => by cases hn⟩

theorem Queues.nodup (h : s.Queues receipts) : receipts.Nodup := by
  rw [← h.order]
  exact s.members.keys_nodup.map fun _ _ he => Receipt.slot.inj he

theorem Queues.get?_next (h : s.Queues receipts) : s.members.get? s.next = none :=
  Table.get?_eq_none_iff.2 fun hn => (h.below _ hn).false

theorem Queues.insert (h : s.Queues receipts) (a : Fact) :
    (s.insert a).1.Queues (receipts ++ [(s.insert a).2]) := by
  have hkeys : (s.insert a).1.members.keys = s.members.keys ++ [s.next] :=
    Table.keys_insert_of_none h.get?_next
  constructor
  · rw [hkeys, List.map_append, h.order]
    rfl
  · rw [hkeys, List.pairwise_append]
    exact ⟨h.ascends, List.pairwise_singleton _ _, fun n hn m hm =>
      List.mem_singleton.1 hm ▸ h.below n hn⟩
  · intro n hn
    rw [hkeys, List.mem_append, List.mem_singleton] at hn
    exact hn.elim (fun hn => (h.below n hn).trans (Nat.lt_succ_self _))
      fun he => he ▸ Nat.lt_succ_self _

/-- Whoever leaves, the others stay in line. -/
theorem Queues.take (h : s.Queues (front ++ receipt :: rest)) (ht : s.take? receipt = some (e, s')) :
    s'.Queues (front ++ rest) := by
  cases receipt with
  | slot n =>
    obtain ⟨a, -, he⟩ := Option.map_eq_some_iff.1 ht
    obtain ⟨-, rfl⟩ := Prod.mk.inj he
    have hkeys := s.members.keys_erase n
    have hsub : (s.members.keys.erase n).Sublist s.members.keys := List.erase_sublist
    refine ⟨?_, hkeys ▸ h.ascends.sublist hsub, fun m hm => h.below m ?_⟩
    · have hfront : .slot n ∉ front := by
        intro hm
        exact (List.nodup_append.1 h.nodup).2.2 _ hm _ List.mem_cons_self rfl
      show (s.members.erase n).keys.map Receipt.slot = _
      rw [hkeys, List.map_erase fun _ _ he => Receipt.slot.inj he, h.order,
        List.erase_append_right _ hfront, List.erase_cons_head]
    · have hm' : m ∈ (s.members.erase n).keys := hm
      rw [hkeys] at hm'
      exact hsub.mem hm'
  | unit => cases ht
  | value n => cases ht

/-- Each member stands in the slot that its receipt names. -/
theorem Queues.holds (h : s.Queues (ds.map Prod.snd)) (hk : s.Keeps shape (Multiset.ofList ds)) :
    List.Forall₂ (Holds shape) s.members.entries ds := by
  have hreceipts : List.Forall₂ (fun e d => Receipt.slot e.1 = d.2) s.members.entries ds := by
    have hmap : List.Forall₂ Eq (s.members.entries.map fun e => Receipt.slot e.1)
        (ds.map Prod.snd) := by
      rw [← h.order, Table.keys, List.map_map, List.forall₂_eq_eq_eq]
      rfl
    rwa [List.forall₂_map_left_iff, List.forall₂_map_right_iff] at hmap
  obtain ⟨hlength, hzip⟩ := List.forall₂_iff_zip.1 hreceipts
  refine List.forall₂_iff_zip.2 ⟨hlength, fun {e d} hed => ?_⟩
  obtain ⟨he, hd⟩ := List.of_mem_zip hed
  obtain ⟨p, hp, hreceipt, hshape⟩ :=
    Multiset.exists_mem_of_rel_of_mem hk.rel (Multiset.mem_coe.2 he)
  obtain rfl : p = d := List.inj_on_of_nodup_map h.nodup (Multiset.mem_coe.1 hp) hd
    (hreceipt.trans (hzip hed))
  exact ⟨hreceipt, hshape⟩

end Slots

namespace Accumulator

/-- The slots in which an accumulator keeps its members, if it keeps them. -/
def slots? : Accumulator → Option Slots
  | extremum _ _ _ _ members | list _ members | distinct _ _ members => some members
  | _ => none

/-- What an accumulator keeps of its members, in the order in which they came. -/
def kept (acc : Accumulator) : List Fact := (acc.slots?.map Slots.toList).getD []

/-- The members came in the order of the receipts, as far as the accumulator tells them apart. -/
def Queues (acc : Accumulator) (receipts : List Receipt) : Prop :=
  ∀ s, acc.slots? = some s → s.Queues receipts

/-- The accumulator is one of those that come with the library, and ranks its members by a total
preorder. -/
def Builtin : Accumulator → Prop
  | extremum _ _ order _ _ => Std.TransCmp order
  | custom .. => False
  | _ => True

/-- The function that an accumulator is given fails. -/
def Fails (e : Error) : Accumulator → Prop
  | sum of .. => ∃ facts, of facts = .error e
  | extremum _ of .. | list of _ | distinct of .. => ∃ facts, of facts = .error e
  | _ => False

/-- An accumulator takes in rows one after the other, beginning as `start`. -/
inductive Fed (start : Accumulator) : List Facts → Accumulator → Prop
  | nil : Fed start [] start
  | snoc {rows facts acc acc' version receipt version'} (h : Fed start rows acc)
      (hi : acc.insert version facts = .ok (acc', receipt, version')) :
      Fed start (rows ++ [facts]) acc'

/-- The sum of some of the rows, taken in one after the other, is out of range. -/
def Overflows (start : Accumulator) (rows : List Facts) : Prop :=
  ∃ front facts rest acc version site, rows = front ++ facts :: rest ∧ Fed start front acc ∧
    acc.insert version facts = .error (.overflow site)

/-- The rows come to the given value: a new accumulator reports it when it is fed the rows in this
order, unless a sum is out of range on the way. -/
def Tells (start : Accumulator) (rows : List Facts) (value : Option Fact) : Prop :=
  (∃ acc, Fed start rows acc ∧ acc.value? = value) ∨ Overflows start rows

variable {acc acc' start : Accumulator} {receipt : Receipt} {receipts front rest : List Receipt}
  {version version' : Nat} {facts : Facts} {ds ds' : List Deposit}

theorem queues_blank (acc : Accumulator) : acc.blank.Queues [] := by
  intro s hs
  cases acc <;> cases hs <;> exact .empty

/-- The accumulator keeps `b` of a member with the given facts. -/
def Keeps (version : Nat) (facts : Facts) (b : Fact) : Accumulator → Prop
  | extremum _ of .. => ∃ a, of facts = .ok a ∧ b = (a.unboxFrom version).1
  | list of _ => ∃ a, of facts = .ok a ∧ b = (a.numberFrom version).1
  | distinct of .. => ∃ a, of facts = .ok a ∧ b = a.identity
  | _ => False

theorem keeps_blank {b : Fact} : acc.blank.Keeps version facts b ↔ acc.Keeps version facts b := by
  cases acc <;> rfl

/-- The slots after a member was taken in have one more, to which its receipt leads. -/
theorem slots_of_insert (hi : acc.insert version facts = .ok (acc', receipt, version')) {s' : Slots}
    (hs : acc'.slots? = some s') : ∃ s b, acc.slots? = some s ∧ acc.Keeps version facts b ∧
      s.insert b = (s', receipt) := by
  cases acc with
  | count members =>
    cases hi
    cases hs
  | sum of mean total members =>
    obtain ⟨n, hn, -⟩ := except_bind_eq_ok.1 hi
    rw [insert_sum hn] at hi
    split at hi
    · cases hi
      cases hs
    · cases hi
  | extremum greatest of order ranking members =>
    obtain ⟨a, ha, hi⟩ := except_bind_eq_ok.1 hi
    cases hi
    cases hs
    exact ⟨members, _, rfl, ⟨a, ha, rfl⟩, rfl⟩
  | list of members =>
    obtain ⟨a, ha, hi⟩ := except_bind_eq_ok.1 hi
    cases hi
    cases hs
    exact ⟨members, _, rfl, ⟨a, ha, rfl⟩, rfl⟩
  | distinct of counts members =>
    obtain ⟨a, ha, hi⟩ := except_bind_eq_ok.1 hi
    cases hi
    cases hs
    exact ⟨members, _, rfl, ⟨a, ha, rfl⟩, rfl⟩
  | custom rule history =>
    obtain ⟨r, -, hi⟩ := except_bind_eq_ok.1 hi
    cases hi
    cases hs

/-- The slots after a member was given back are those without the one to which its receipt leads. -/
theorem slots_of_retract (hr : acc.retract receipt = .ok acc') {s' : Slots}
    (hs : acc'.slots? = some s') : ∃ s e, acc.slots? = some s ∧ s.take? receipt = some (e, s') := by
  cases acc with
  | count members =>
    simp only [Accumulator.retract] at hr
    split at hr
    · cases hr
    · cases hr
      cases hs
  | sum of mean total members =>
    simp only [Accumulator.retract] at hr
    split at hr
    · split at hr
      · cases hr
      · split at hr
        · cases hr
        · cases hr
          cases hs
    · cases hr
  | extremum greatest of order ranking members =>
    simp only [Accumulator.retract] at hr
    split at hr
    · cases hr
    · next htake =>
      split at hr
      · cases hr
      · cases hr
        cases hs
        exact ⟨members, _, rfl, htake⟩
  | list of members =>
    simp only [Accumulator.retract] at hr
    split at hr
    · cases hr
    · next htake =>
      cases hr
      cases hs
      exact ⟨members, _, rfl, htake⟩
  | distinct of counts members =>
    simp only [Accumulator.retract] at hr
    split at hr
    · cases hr
    · next htake =>
      split at hr
      · cases hr
        cases hs
        exact ⟨members, _, rfl, htake⟩
      · obtain ⟨n, -, hr⟩ := except_bind_eq_ok.1 hr
        cases hr
        cases hs
        exact ⟨members, _, rfl, htake⟩
  | custom rule history =>
    obtain ⟨_, -, hr⟩ := except_bind_eq_ok.1 hr
    cases hr
    cases hs

theorem Queues.insert (h : acc.Queues receipts)
    (hi : acc.insert version facts = .ok (acc', receipt, version')) :
    acc'.Queues (receipts ++ [receipt]) := by
  intro s' hs'
  obtain ⟨s, b, hs, -, hinsert⟩ := slots_of_insert hi hs'
  have hqueues := (h s hs).insert b
  rwa [hinsert] at hqueues

theorem Queues.retract (h : acc.Queues (front ++ receipt :: rest))
    (hr : acc.retract receipt = .ok acc') : acc'.Queues (front ++ rest) := by
  intro s' hs'
  obtain ⟨s, e, hs, htake⟩ := slots_of_retract hr hs'
  exact (h s hs).take htake

/-! ## Feeding the members again -/

/-- The accumulator takes in a row with the given facts and keeps `bs` of it. -/
def Admits (facts : Facts) (bs : List Fact) : Accumulator → Prop
  | count _ => bs = []
  | sum of .. => (∃ n, of facts = .ok n) ∧ bs = []
  | extremum _ of .. => ∃ a b, of facts = .ok a ∧ a.Unboxes b ∧ bs = [b]
  | list of _ => ∃ a b, of facts = .ok a ∧ a.Numbers b ∧ bs = [b]
  | distinct of .. => ∃ a, of facts = .ok a ∧ bs = [a.identity]
  | custom .. => False

theorem kept_of_slots {s : Slots} (h : acc.slots? = some s) : acc.kept = s.members.values := by
  rw [kept, h]
  rfl

/-- The accumulator has taken in the given members, in this order, and none other is left. -/
structure Stocked (start acc : Accumulator) (ds : List Deposit) : Prop where
  tally : acc.Tally (Multiset.ofList ds)
  queues : acc.Queues (ds.map Prod.snd)
  blank : acc.blank = start

theorem stocked_blank (hblank : start.blank = start) : Stocked start start [] where
  tally := hblank ▸ tally_blank start
  queues := hblank ▸ queues_blank start
  blank := hblank

theorem Stocked.insert (h : Stocked start acc ds)
    (hi : acc.insert version facts = .ok (acc', receipt, version')) :
    Stocked start acc' (ds ++ [(facts, receipt)]) := by
  obtain ⟨htally, hblank⟩ := tally_insert h.tally hi
  refine ⟨?_, ?_, hblank.trans h.blank⟩
  · rwa [Multiset.coe_eq_coe.2 (List.perm_append_singleton _ _)]
  · rw [List.map_append]
    exact h.queues.insert hi

/-- Whichever member is given back, the others are left as they were. -/
theorem Stocked.retract {front rest : List Deposit} (h : Stocked start acc (front ++ (facts, receipt) :: rest))
    (hr : acc.retract receipt = .ok acc') : Stocked start acc' (front ++ rest) := by
  have htally : acc.Tally ((facts, receipt) ::ₘ Multiset.ofList (front ++ rest)) := by
    rw [Multiset.cons_coe, ← Multiset.coe_eq_coe.2 List.perm_middle]
    exact h.tally
  have hback : acc.GivesBack fun _ => True := by
    cases acc with
    | sum => exact fun _ => trivial
    | extremum => exact .inr fun _ => trivial
    | custom => exact fun _ _ _ _ _ _ => trivial
    | _ => trivial
  have hspec := tally_retract htally hback
  rw [hr] at hspec
  have hqueues := h.queues
  rw [List.map_append, List.map_cons] at hqueues
  refine ⟨hspec.1, ?_, hspec.2.trans h.blank⟩
  rw [List.map_append]
  exact hqueues.retract hr

/-- What can be taken in is taken in, but for sums out of range. -/
theorem insert_of_admits {bs : List Fact} (h : acc.blank.Admits facts bs)
    (hq : acc.Queues receipts) :
    (∃ version acc' receipt version', acc.insert version facts = .ok (acc', receipt, version') ∧
      acc'.kept = acc.kept ++ bs) ∨
    ∃ version site, acc.insert version facts = .error (.overflow site) := by
  have hkept (s : Slots) (hs : acc.slots? = some s) (b : Fact) :
      (s.insert b).1.members.values = acc.kept ++ [b] := by
    rw [kept_of_slots hs]
    exact Table.values_insert_of_none (hq s hs).get?_next
  cases acc with
  | count members =>
    obtain rfl : bs = [] := h
    exact .inl ⟨0, _, _, _, rfl, rfl⟩
  | sum of mean total members =>
    obtain ⟨⟨n, hn⟩, rfl⟩ := h
    have hinsert := insert_sum hn mean total members 0
    cases hsum : checkedAdd total n with
    | none =>
      rw [hsum] at hinsert
      exact .inr ⟨0, _, hinsert⟩
    | some total' =>
      rw [hsum] at hinsert
      exact .inl ⟨0, _, _, _, hinsert, rfl⟩
  | extremum greatest of order ranking members =>
    obtain ⟨a, b, ha, ⟨n, rfl⟩, rfl⟩ := h
    have hinsert : insert n facts (extremum greatest of order ranking members) =
        .ok (extremum greatest of order
            (Ranking.insert order (members.next, (a.unboxFrom n).1) ranking)
            (members.insert (a.unboxFrom n).1).1,
          (members.insert (a.unboxFrom n).1).2, (a.unboxFrom n).2) := by
      simp only [insert, ha]
      rfl
    exact .inl ⟨n, _, _, _, hinsert, hkept members rfl _⟩
  | list of members =>
    obtain ⟨a, b, ha, ⟨n, rfl⟩, rfl⟩ := h
    have hinsert : insert n facts (list of members) =
        .ok (list of (members.insert (a.numberFrom n).1).1, (members.insert (a.numberFrom n).1).2,
          (a.numberFrom n).2) := by
      simp only [insert, ha]
      rfl
    exact .inl ⟨n, _, _, _, hinsert, hkept members rfl _⟩
  | distinct of counts members =>
    obtain ⟨a, ha, rfl⟩ := h
    have hinsert : insert 0 facts (distinct of counts members) =
        .ok (distinct of (counts.insert a.identity ((counts.get? a.identity).getD 0 + 1))
          (members.insert a.identity).1, (members.insert a.identity).2, 0) := by
      simp only [insert, ha]
      rfl
    exact .inl ⟨0, _, _, _, hinsert, hkept members rfl _⟩
  | custom => exact h.elim

/-- What is kept of the members was kept of each of them. -/
theorem admits_of_tally (hbuiltin : start.Builtin) (h : Stocked start acc ds) :
    ∃ bss, List.Forall₂ (fun facts bs => start.Admits facts bs) (ds.map Prod.fst) bss ∧
      bss.flatten = acc.kept := by
  simp only [List.forall₂_map_left_iff]
  obtain ⟨htally, hqueues, rfl⟩ := h
  have hslots {s : Slots} {shape : Facts → Fact → Prop} (hs : acc.slots? = some s)
      (hkeeps : s.Keeps shape (Multiset.ofList ds))
      (hshape : ∀ facts b, shape facts b → acc.blank.Admits facts [b]) :
      ∃ bss, List.Forall₂ (fun d bs => acc.blank.Admits d.1 bs) ds bss ∧ bss.flatten = acc.kept := by
    refine ⟨s.members.entries.map fun e => [e.2], ?_, ?_⟩
    · rw [List.forall₂_map_right_iff]
      exact ((hqueues s hs).holds hkeeps).flip.imp fun _ _ hd => hshape _ _ hd.2
    · rw [kept_of_slots hs, Table.values, ← List.flatMap_def, ← List.map_eq_flatMap]
  have hnone (hall : ∀ d ∈ ds, acc.blank.Admits d.1 []) (hs : acc.slots? = none) :
      ∃ bss, List.Forall₂ (fun d bs => acc.blank.Admits d.1 bs) ds bss ∧ bss.flatten = acc.kept := by
    refine ⟨ds.map fun _ => [], ?_, by simp [kept, hs]⟩
    rw [List.forall₂_map_right_iff, List.forall₂_same]
    exact hall
  cases acc with
  | count members => exact hnone (fun _ _ => rfl) rfl
  | sum of mean total members =>
    exact hnone (fun d hd => ⟨(htally.2.2 d hd).imp fun _ hn => hn.1, rfl⟩) rfl
  | extremum greatest of order ranking members =>
    refine hslots rfl htally.1 ?_
    rintro facts b ⟨a, ha, hb⟩
    exact ⟨a, b, ha, hb, rfl⟩
  | list of members =>
    refine hslots rfl htally ?_
    rintro facts b ⟨a, ha, hb⟩
    exact ⟨a, b, ha, hb, rfl⟩
  | distinct of counts members =>
    refine hslots rfl htally.1 ?_
    rintro facts _ ⟨a, ha, rfl⟩
    exact ⟨a, ha, rfl⟩
  | custom => exact hbuiltin.elim

/-- More rows are taken in, in their order, unless a sum is out of range on the way. -/
theorem Stocked.feed {rows : List Facts} {bss : List (List Fact)} (h : Stocked start acc ds)
    (hfed : Fed start (ds.map Prod.fst) acc)
    (hadmits : List.Forall₂ (fun facts bs => start.Admits facts bs) rows bss) :
    (∃ acc' ds', Fed start (ds'.map Prod.fst) acc' ∧ ds'.map Prod.fst = ds.map Prod.fst ++ rows ∧
      Stocked start acc' ds' ∧ acc'.kept = acc.kept ++ bss.flatten) ∨
    Overflows start (ds.map Prod.fst ++ rows) := by
  induction hadmits generalizing acc ds with
  | nil => exact .inl ⟨acc, ds, hfed, by simp, h, by simp⟩
  | @cons facts bs rows bss hfacts _ ih =>
    rcases insert_of_admits (h.blank.symm ▸ hfacts) h.queues with
      ⟨version, acc', receipt, version', hi, hkept⟩ | ⟨version, site, hi⟩
    · have hfed' : Fed start ((ds ++ [(facts, receipt)]).map Prod.fst) acc' := by
        rw [List.map_append]
        exact hfed.snoc hi
      have hrest := ih (h.insert hi) hfed'
      rwa [hkept, List.map_append, List.append_assoc, List.append_assoc] at hrest
    · exact .inr ⟨ds.map Prod.fst, facts, rows, acc, version, site, rfl, hfed, hi⟩

/-- What the members of a sum count is what their rows come to. -/
theorem sum_amounts {of : Facts → Except Error Int64}
    (h : ∀ d ∈ ds, ∃ n, of d.1 = .ok n ∧ d.2 = .value n) :
    ((Multiset.ofList ds).map Deposit.amount).sum =
      ((ds.map Prod.fst).map fun r => amount (of r)).sum := by
  rw [Multiset.map_coe, Multiset.sum_coe, List.map_map]
  refine congrArg List.sum (List.map_congr_left fun d hd => ?_)
  obtain ⟨n, hn, hreceipt⟩ := h d hd
  rw [Function.comp_apply, hn, Deposit.amount, hreceipt]
  rfl

/-- The numbers under which members are kept ascend. -/
theorem Stocked.ascends {s : Slots} (h : Stocked start acc ds) (hs : acc.slots? = some s) :
    s.members.entries.Pairwise fun e d => e.1 < d.1 :=
  List.pairwise_map.1 (h.queues s hs).ascends

/-- What accumulators with the same rows in the same order have kept, they report. -/
theorem Stocked.value?_eq (hbuiltin : start.Builtin) (h : Stocked start acc ds)
    (h' : Stocked start acc' ds') (hrows : ds.map Prod.fst = ds'.map Prod.fst)
    (hkept : acc.kept = acc'.kept) : acc.value? = acc'.value? := by
  have hcard : ds.length = ds'.length := by simpa using congrArg List.length hrows
  have hblank := h'.blank.trans h.blank.symm
  obtain rfl := h.blank
  cases acc with
  | count members =>
    cases acc' <;> cases hblank
    rw [show members = ds.length from h.tally, hcard, ← show _ = ds'.length from h'.tally]
  | sum of mean total members =>
    cases acc' <;> cases hblank
    obtain ⟨hm, ht, hv⟩ := h.tally
    obtain ⟨hm', ht', hv'⟩ := h'.tally
    rw [sum_amounts hv, hrows, ← sum_amounts hv', ← ht'] at ht
    rw [Multiset.coe_card, hcard, ← Multiset.coe_card, ← hm'] at hm
    rw [Int64.toInt_inj.1 ht, hm]
  | extremum greatest of order ranking members =>
    cases acc' with
    | extremum _ _ _ ranking' members' =>
      cases hblank
      have htrans : Std.TransCmp order := hbuiltin
      have hranked := Ranking.map_eq_of_entries htrans (h.tally.2.2 htrans) (h'.tally.2.2 htrans)
        h.tally.2.1 h'.tally.2.1 (h.ascends rfl) (h'.ascends rfl) hkept
      cases greatest with
      | false =>
        show ranking.head?.map _ = ranking'.head?.map _
        rw [← List.head?_map, hranked, List.head?_map]
      | true =>
        show ranking.getLast?.map _ = ranking'.getLast?.map _
        rw [← List.getLast?_map, hranked, List.getLast?_map]
    | _ => cases hblank
  | list of members =>
    cases acc' <;> cases hblank
    exact congrArg (fun items => some (Fact.list items)) hkept
  | distinct of counts members =>
    cases acc' <;> cases hblank
    show some (Fact.size _) = some (Fact.size _)
    rw [Frequencies.size_eq h.tally.2, Frequencies.size_eq h'.tally.2]
    exact congrArg (fun items => some (Fact.size (Multiset.ofList items).dedup.card)) hkept
  | custom => exact hbuiltin.elim

/-- What an accumulator reports is what its members come to in the order in which they came. -/
theorem Stocked.tells (hbuiltin : start.Builtin) (h : Stocked start acc ds) :
    start.Tells (ds.map Prod.fst) acc.value? := by
  obtain ⟨bss, hadmits, hkept⟩ := admits_of_tally hbuiltin h
  have hstart : start.blank = start := by
    rw [← h.blank]
    cases acc <;> rfl
  have hempty : start.kept = [] := by
    rw [← h.blank]
    cases acc <;> rfl
  rcases (stocked_blank hstart).feed .nil hadmits with ⟨acc', ds', hfed, hrows, h', hkept'⟩ | hover
  · rw [hrows] at hfed
    refine .inl ⟨acc', hfed, h'.value?_eq hbuiltin h hrows ?_⟩
    rw [hkept', hempty, List.nil_append, hkept]
  · exact .inr hover

end Accumulator

end ConstraintStreams
