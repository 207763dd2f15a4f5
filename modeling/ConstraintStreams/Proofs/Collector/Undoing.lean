import ConstraintStreams.Proofs.Collector.Feeding
import ConstraintStreams.Proofs.Operator.Owning

/-!
# Receipts undo exactly

Members are taken in and given back by their receipts, in any order. What an accumulator reports is then
what the members that are left come to, computed from scratch: their number, their sum, the first of the
least and so on. Nothing is left of a member that was given back, and nothing of one that was refused.
-/

namespace ConstraintStreams

open ConstraintStreams.Action (Ends Keeps)

/-- A member as it was taken in: its facts, the number from which entities were numbered that had just
been built, and the receipt that gives it back. -/
structure Admission where
  facts : Facts
  version : Nat
  receipt : Receipt

namespace Admission

variable {of : Facts → Except Error Fact}

/-- The member without the number, as tallies list it. -/
def deposit (a : Admission) : Deposit := (a.facts, a.receipt)

/-- A member is mapped to a fact, in which what had just been built is numbered. -/
def Maps (of : Facts → Except Error Fact) (a : Admission) (x : Fact) : Prop :=
  ∃ y, of a.facts = .ok y ∧ x = (y.numberFrom a.version).1

/-- A member is mapped to a fact that is taken in as a plain value. -/
def MapsToValue (of : Facts → Except Error Fact) (a : Admission) (x : Fact) : Prop :=
  ∃ y, of a.facts = .ok y ∧ x = (y.unboxFrom a.version).1

end Admission

/-! ## The least and the greatest of some facts -/

/-- The first of the least of some facts, if there are any. -/
def FirstLeast (order : Fact → Fact → Ordering) (items : List Fact) : Option Fact → Prop
  | none => items = []
  | some x => ∃ front back, items = front ++ x :: back ∧ (∀ y ∈ front, order x y = .lt) ∧
      ∀ y ∈ back, order x y ≠ .gt

/-- The last of the greatest of some facts, if there are any. -/
def LastGreatest (order : Fact → Fact → Ordering) (items : List Fact) : Option Fact → Prop
  | none => items = []
  | some x => ∃ front back, items = front ++ x :: back ∧ (∀ y ∈ front, order y x ≠ .gt) ∧
      ∀ y ∈ back, order y x = .lt

namespace Ranking

variable {order : Fact → Fact → Ordering} {r : Ranking} {entries : List (Nat × Fact)} {a b : Nat × Fact}

theorem compare_eq_lt : compare order a b = .lt ↔
    order a.2 b.2 = .lt ∨ order a.2 b.2 = .eq ∧ a.1 < b.1 := by
  rw [compare, Ordering.then_eq_lt, compare_lt_iff_lt]

/-- A ranked member stands among the others where its number belongs. -/
theorem exists_place (hperm : r.Perm entries) (hasc : entries.Pairwise fun e d => e.1 < d.1)
    (ha : a ∈ r) : ∃ front back, entries = front ++ a :: back ∧
      (∀ b ∈ front, b ∈ r ∧ b.1 < a.1) ∧ ∀ b ∈ back, b ∈ r ∧ a.1 < b.1 := by
  obtain ⟨front, back, rfl⟩ := List.append_of_mem (hperm.mem_iff.1 ha)
  obtain ⟨-, hback, hfront⟩ := List.pairwise_append.1 hasc
  refine ⟨front, back, rfl, fun b hb => ⟨hperm.mem_iff.2 (by simp [hb]), ?_⟩,
    fun b hb => ⟨hperm.mem_iff.2 (by simp [hb]), ?_⟩⟩
  · exact hfront b hb a List.mem_cons_self
  · exact (List.pairwise_cons.1 hback).1 b hb

/-- The head of a ranking is the first of the least, if the numbers tell in which order they came. -/
theorem firstLeast (h : Ascends order r) (hperm : r.Perm entries)
    (hasc : entries.Pairwise fun e d => e.1 < d.1) :
    FirstLeast order (entries.map Prod.snd) r.least? := by
  cases r with
  | nil =>
    obtain rfl := hperm.nil_eq
    rfl
  | cons a rest =>
    obtain ⟨front, back, rfl, hfront, hback⟩ := exists_place hperm hasc List.mem_cons_self
    have hleast : ∀ b ∈ a :: rest, a.1 ≠ b.1 → compare order a b = .lt := fun b hb hne =>
      (List.pairwise_cons.1 h).1 b ((List.mem_cons.1 hb).resolve_left fun he => hne (he ▸ rfl))
    refine ⟨front.map Prod.snd, back.map Prod.snd, by simp, List.forall_mem_map.2 fun b hb => ?_,
      List.forall_mem_map.2 fun b hb => ?_⟩
    · obtain ⟨hmem, hbefore⟩ := hfront b hb
      rcases compare_eq_lt.1 (hleast b hmem hbefore.ne') with hlt | ⟨-, hlater⟩
      · exact hlt
      · omega
    · obtain ⟨hmem, hafter⟩ := hback b hb
      rcases compare_eq_lt.1 (hleast b hmem hafter.ne) with hlt | ⟨heq, -⟩
      · simp [hlt]
      · simp [heq]

/-- The end of the ranking is the last of the greatest. -/
theorem lastGreatest (h : Ascends order r) (hperm : r.Perm entries)
    (hasc : entries.Pairwise fun e d => e.1 < d.1) :
    LastGreatest order (entries.map Prod.snd) r.greatest? := by
  rcases List.eq_nil_or_concat' r with rfl | ⟨init, a, rfl⟩
  · obtain rfl := hperm.nil_eq
    rfl
  · have ha : a ∈ init ++ [a] := by simp
    obtain ⟨front, back, rfl, hfront, hback⟩ := exists_place hperm hasc ha
    have hgreatest : ∀ b ∈ init ++ [a], b.1 ≠ a.1 → compare order b a = .lt := fun b hb hne =>
      (List.pairwise_append.1 h).2.2 b
        ((List.mem_append.1 hb).resolve_right fun he => hne (List.mem_singleton.1 he ▸ rfl)) a (by simp)
    rw [greatest?, List.getLast?_concat]
    refine ⟨front.map Prod.snd, back.map Prod.snd, by simp, List.forall_mem_map.2 fun b hb => ?_,
      List.forall_mem_map.2 fun b hb => ?_⟩
    · obtain ⟨hmem, hbefore⟩ := hfront b hb
      rcases compare_eq_lt.1 (hgreatest b hmem hbefore.ne) with hlt | ⟨heq, -⟩
      · simp [hlt]
      · simp [heq]
    · obtain ⟨hmem, hafter⟩ := hback b hb
      rcases compare_eq_lt.1 (hgreatest b hmem hafter.ne') with hlt | ⟨-, hearlier⟩
      · exact hlt
      · omega

end Ranking

/-! ## Slots -/

namespace Slots

variable {s s' : Slots} {keep : Admission → Fact → Prop} {as front rest : List Admission}
  {a : Admission} {b : Fact} {e : Nat × Fact} {receipt : Receipt} {receipts : List Receipt}

/-- The slots keep something of each member, in the order in which the members came. -/
def Lines (s : Slots) (keep : Admission → Fact → Prop) (as : List Admission) : Prop :=
  List.Forall₂ (fun e a => a.receipt = .slot e.1 ∧ keep a e.2) s.members.entries as

theorem Lines.insert (h : s.Lines keep as) (hnext : s.members.get? s.next = none)
    (hinsert : s.insert b = (s', a.receipt)) (hkeep : keep a b) : s'.Lines keep (as ++ [a]) := by
  obtain ⟨rfl, hreceipt⟩ := Prod.mk.inj hinsert
  show List.Forall₂ _ (s.members.insert s.next b).entries _
  rw [Table.entries_insert_of_none hnext]
  exact List.rel_append h (.cons ⟨hreceipt.symm, hkeep⟩ .nil)

/-- Whoever leaves, the others stay where they are. -/
theorem Lines.take (h : s.Lines keep (front ++ a :: rest)) (ht : s.take? a.receipt = some (e, s')) :
    s'.Lines keep (front ++ rest) := by
  have hfront := List.forall₂_take_append _ _ _ h
  have hrest := List.forall₂_drop_append _ _ _ h
  obtain ⟨⟨n, x⟩, back, ⟨hreceipt, -⟩, hback, hdrop⟩ := List.forall₂_cons_right_iff.1 hrest
  have hentries : s.members.entries = s.members.entries.take front.length ++ (n, x) :: back := by
    rw [← hdrop, List.take_append_drop]
  rw [hreceipt] at ht
  obtain ⟨y, -, he⟩ := Option.map_eq_some_iff.1 ht
  obtain ⟨-, rfl⟩ := Prod.mk.inj he
  show List.Forall₂ _ (s.members.erase n).entries _
  rw [Table.entries_erase_append hentries]
  exact List.rel_append hfront hback

/-- What the slots keep is kept of the members, one by one. -/
theorem Lines.toList (h : s.Lines keep as) :
    List.Forall₂ keep as s.toList := by
  show List.Forall₂ _ as (s.members.entries.map Prod.snd)
  rw [List.forall₂_map_right_iff]
  exact h.flip.imp fun _ _ he => he.2

/-- The receipts lead to slots that were given up. A slot is never used again, for what comes next has a
number that no member had before. -/
def Spent (s : Slots) (receipts : List Receipt) : Prop :=
  ∀ receipt ∈ receipts, ∃ n < s.next, receipt = .slot n ∧ s.members.get? n = none

theorem Spent.insert (h : s.Spent receipts) (b : Fact) : (s.insert b).1.Spent receipts := by
  intro receipt hr
  obtain ⟨n, hn, rfl, hnone⟩ := h receipt hr
  refine ⟨n, Nat.lt_succ_of_lt hn, rfl, ?_⟩
  show (s.members.insert s.next b).get? n = none
  rw [Table.get?_insert, if_neg hn.ne', hnone]

theorem Spent.take (h : s.Spent receipts) (hbelow : ∀ n ∈ s.members.keys, n < s.next)
    (ht : s.take? receipt = some (e, s')) : s'.Spent (receipt :: receipts) := by
  cases receipt with
  | unit => cases ht
  | value n => cases ht
  | slot n =>
    obtain ⟨b, hb, he⟩ := Option.map_eq_some_iff.1 ht
    obtain ⟨-, rfl⟩ := Prod.mk.inj he
    refine List.forall_mem_cons.2 ⟨⟨n, hbelow n ?_, rfl, ?_⟩, fun r hr => ?_⟩
    · exact List.mem_map.2 ⟨(n, b), Table.get?_eq_some_iff.1 hb, rfl⟩
    · show (s.members.erase n).get? n = none
      rw [Table.get?_erase, if_pos rfl]
    · obtain ⟨m, hm, rfl, hnone⟩ := h r hr
      refine ⟨m, hm, rfl, ?_⟩
      show (s.members.erase n).get? m = none
      rw [Table.get?_erase, hnone, ite_self]

theorem Spent.take?_none (h : s.Spent receipts) (hr : receipt ∈ receipts) : s.take? receipt = none := by
  obtain ⟨n, -, rfl, hnone⟩ := h receipt hr
  rw [take?, hnone]
  rfl

end Slots

namespace Accumulator

/-! ## Taking in and giving back -/

/-- An accumulator has taken members in, beginning as `start`, and has given some of them back. Those that
are left are listed in the order in which they came; for the others there are the receipts that are spent. -/
inductive Admitted (start : Accumulator) : List Receipt → List Admission → Accumulator → Prop
  | nil : Admitted start [] [] start
  | insert {spent as acc version facts acc' receipt version'} (h : Admitted start spent as acc)
      (hi : acc.insert version facts = .ok (acc', receipt, version')) :
      Admitted start spent (as ++ [⟨facts, version, receipt⟩]) acc'
  | retract {spent front a rest acc acc'} (h : Admitted start spent (front ++ a :: rest) acc)
      (hr : acc.retract a.receipt = .ok acc') :
      Admitted start (a.receipt :: spent) (front ++ rest) acc'

variable {start acc acc' : Accumulator} {as front rest : List Admission} {a : Admission}
  {spent : List Receipt}

theorem Admitted.stocked (hblank : start.blank = start) (h : Admitted start spent as acc) :
    Stocked start acc (as.map Admission.deposit) := by
  induction h with
  | nil => exact stocked_blank hblank
  | insert _ hi ih =>
    rw [List.map_append]
    exact ih.insert hi
  | retract _ hr ih =>
    rw [List.map_append, List.map_cons] at ih
    rw [List.map_append]
    exact ih.retract hr

/-- The slots keep of each member what there is to keep of it. -/
theorem Admitted.lines (hblank : start.blank = start) (h : Admitted start spent as acc) {s : Slots}
    (hs : acc.slots? = some s) : s.Lines (fun a b => start.Keeps a.version a.facts b) as := by
  induction h generalizing s with
  | nil =>
    have hempty : s.members.keys.map Receipt.slot = [] := ((stocked_blank hblank).queues s hs).order
    rw [List.map_eq_nil_iff, Table.keys, List.map_eq_nil_iff] at hempty
    rw [Slots.Lines, hempty]
    exact .nil
  | insert h hi ih =>
    obtain ⟨s₀, b, hs₀, hkeep, hinsert⟩ := slots_of_insert hi hs
    have hstocked := h.stocked hblank
    refine (ih hs₀).insert (hstocked.queues s₀ hs₀).get?_next hinsert ?_
    rw [← hstocked.blank, keeps_blank]
    exact hkeep
  | retract _ hr ih =>
    obtain ⟨s₀, e, hs₀, htake⟩ := slots_of_retract hr hs
    exact (ih hs₀).take htake

/-- What was given back has left its slot for good. -/
theorem Admitted.isSpent (hblank : start.blank = start) (h : Admitted start spent as acc) {s : Slots}
    (hs : acc.slots? = some s) : s.Spent spent := by
  induction h generalizing s with
  | nil => exact fun receipt hr => by cases hr
  | insert _ hi ih =>
    obtain ⟨s₀, b, hs₀, -, hinsert⟩ := slots_of_insert hi hs
    have hspent := (ih hs₀).insert b
    rwa [hinsert] at hspent
  | retract h hr ih =>
    obtain ⟨s₀, e, hs₀, htake⟩ := slots_of_retract hr hs
    exact (ih hs₀).take ((h.stocked hblank).queues s₀ hs₀).below htake

/-! ## What the members come to -/

/-- What is to be reported of some members, computed from scratch. -/
def ComesTo (as : List Admission) (value? : Option Fact) : Accumulator → Prop
  | count _ => value? = some (.size as.length)
  | sum of mean _ _ => ∃ (ns : List Int64) (total : Int64),
      List.Forall₂ (fun a n => of a.facts = .ok n) as ns ∧ total.toInt = (ns.map Int64.toInt).sum ∧
      value? = if mean then
          if ns = [] then none
          else some (.scalar (.float (total.toFloat / (UInt64.ofNat ns.length).toFloat).toBits))
        else some (.int64 total)
  | extremum greatest of order _ _ => ∃ items, List.Forall₂ (Admission.MapsToValue of) as items ∧
      if greatest then LastGreatest order items value? else FirstLeast order items value?
  | list of _ => ∃ items, List.Forall₂ (Admission.Maps of) as items ∧ value? = some (.list items)
  | distinct of _ _ => ∃ items, List.Forall₂ (Admission.Maps of) as items ∧
      value? = some (.size (items.map Fact.identity).toFinset.card)
  | custom .. => False

/-- What is a picture of something for each member, is so for all of them. -/
theorem exists_of_forall₂ {α β γ : Type} {R : α → γ → Prop} {f : γ → β} {as : List α} {bs : List β}
    (h : List.Forall₂ (fun a b => ∃ c, R a c ∧ f c = b) as bs) :
    ∃ cs, List.Forall₂ R as cs ∧ cs.map f = bs := by
  induction h with
  | nil => exact ⟨[], .nil, rfl⟩
  | cons hab _ ih =>
    obtain ⟨c, hc, rfl⟩ := hab
    obtain ⟨cs, hcs, rfl⟩ := ih
    exact ⟨c :: cs, .cons hc hcs, rfl⟩

/-- An accumulator that adds up has the number of each member from its receipt, and the exact sum. -/
theorem Admitted.numbers {of : Facts → Except Error Int64} {mean : Bool} {total : Int64} {members : Nat}
    (hblank : start.blank = start) (h : Admitted start spent as (sum of mean total members)) :
    ∃ ns : List Int64, List.Forall₂ (fun a n => of a.facts = .ok n) as ns ∧ ns.length = members ∧
      total.toInt = (ns.map Int64.toInt).sum := by
  obtain ⟨hmembers, htotal, hvalues⟩ := (h.stocked hblank).tally
  have hreceipts : List.Forall₂ (fun a receipt => ∃ n, of a.facts = .ok n ∧ Receipt.value n = receipt)
      as (as.map Admission.receipt) := by
    rw [List.forall₂_map_right_iff, List.forall₂_same]
    intro a ha
    obtain ⟨n, hn, hreceipt⟩ := hvalues a.deposit (Multiset.mem_coe.2 (List.mem_map_of_mem ha))
    exact ⟨n, hn, hreceipt.symm⟩
  obtain ⟨ns, hns, hmap⟩ := exists_of_forall₂ hreceipts
  refine ⟨ns, hns, ?_, ?_⟩
  · rw [hmembers, ← hns.length_eq]
    simp
  · have hamounts := congrArg (List.map fun receipt => Deposit.amount ([], receipt)) hmap
    rw [List.map_map, List.map_map] at hamounts
    rw [htotal, Multiset.map_coe, Multiset.sum_coe, List.map_map]
    exact congrArg List.sum hamounts.symm

/-- What is reported of the members that are left is what they come to. -/
theorem Admitted.comesTo (hblank : start.blank = start) (hbuiltin : start.Builtin)
    (h : Admitted start spent as acc) : start.ComesTo as acc.value? := by
  have hstocked := h.stocked hblank
  have htally := hstocked.tally
  have hlines := fun s hs => (h.lines hblank (s := s) hs).toList
  have hascends := fun s hs => hstocked.ascends (s := s) hs
  obtain rfl := hstocked.blank
  cases acc with
  | count members =>
    have hmembers : members = as.length := htally.trans (by simp)
    exact congrArg (fun n => some (Fact.size n)) hmembers
  | sum of mean total members =>
    obtain ⟨ns, hns, hlength, htotal⟩ := h.numbers hblank
    refine ⟨ns, total, hns, htotal, ?_⟩
    cases mean with
    | false => rfl
    | true =>
      rw [← hlength, value?]
      simp only [List.length_eq_zero_iff]
      rfl
  | extremum greatest of order ranking members =>
    have htrans : Std.TransCmp order := hbuiltin
    refine ⟨members.toList, hlines members rfl, ?_⟩
    cases greatest with
    | false => exact Ranking.firstLeast (htally.2.2 htrans) htally.2.1 (hascends members rfl)
    | true => exact Ranking.lastGreatest (htally.2.2 htrans) htally.2.1 (hascends members rfl)
  | list of members =>
    exact ⟨members.toList, hlines members rfl, rfl⟩
  | distinct of counts members =>
    have hidentities : List.Forall₂ (fun a x => ∃ y, a.Maps of y ∧ y.identity = x) as members.toList := by
      refine (hlines members rfl).imp fun a x hx => ?_
      obtain ⟨y, hy, rfl⟩ := hx
      exact ⟨_, ⟨y, hy, rfl⟩, Fact.identity_numberFrom a.version y⟩
    obtain ⟨items, hitems, hmap⟩ := exists_of_forall₂ hidentities
    refine ⟨items, hitems, ?_⟩
    show some (Fact.size counts.size) = _
    rw [hmap, List.card_toFinset, Frequencies.size_eq htally.2, Multiset.coe_dedup, Multiset.coe_card]
    rfl
  | custom => exact hbuiltin.elim

theorem Admitted.isEmpty_eq (hblank : start.blank = start) (hbuiltin : start.Builtin)
    (h : Admitted start spent as acc) : acc.isEmpty = as.isEmpty := by
  have hstocked := h.stocked hblank
  have htally := hstocked.tally
  have hslots : ∀ s, acc.slots? = some s → (s.size == 0) = as.isEmpty := by
    intro s hs
    have hlength := (h.lines hblank hs).length_eq
    rw [Slots.size, Table.size, hlength]
    cases as <;> rfl
  obtain rfl := hstocked.blank
  cases acc with
  | count members =>
    have hmembers : members = as.length := htally.trans (by simp)
    rw [isEmpty, hmembers]
    cases as <;> rfl
  | sum of mean total members =>
    have hmembers : members = as.length := htally.1.trans (by simp)
    rw [isEmpty, hmembers]
    cases as <;> rfl
  | extremum | list | distinct => exact hslots _ rfl
  | custom => exact hbuiltin.elim

/-! ## Calls that are refused -/

/-- The facts cannot be mapped to what the accumulator takes in. -/
def Refuses (facts : Facts) (e : Error) : Accumulator → Prop
  | sum of .. => of facts = .error e
  | extremum _ of .. | list of _ | distinct of .. => of facts = .error e
  | _ => False

/-- The accumulator adds up, and the exact sum over the rows is out of range. -/
def Exceeds (rows : List Facts) : Accumulator → Prop
  | sum of .. => ¬ Fits (rows.map fun row => amount (of row)).sum
  | _ => False

/-- The total is the exact sum over the members that are left. -/
theorem Admitted.total_eq {of : Facts → Except Error Int64} {mean : Bool} {total : Int64} {members : Nat}
    (hblank : start.blank = start) (h : Admitted start spent as (sum of mean total members)) :
    total.toInt = ((as.map Admission.facts).map fun row => amount (of row)).sum := by
  obtain ⟨-, htotal, hvalues⟩ := (h.stocked hblank).tally
  rw [htotal, sum_amounts hvalues, List.map_map, List.map_map, List.map_map]
  rfl

/-- What can be mapped is taken in, but for a sum out of range. -/
theorem Admitted.insert_eq_error (hblank : start.blank = start) (hbuiltin : start.Builtin)
    (h : Admitted start spent as acc) {version : Nat} {facts : Facts} {e : Error}
    (hi : acc.insert version facts = .error e) :
    start.Refuses facts e ∨
      start.Exceeds (as.map Admission.facts ++ [facts]) ∧ ∃ site, e = .overflow site := by
  obtain rfl := (h.stocked hblank).blank
  cases acc with
  | count => cases hi
  | sum of mean total members =>
    rcases except_bind_eq_error.1 hi with ha | ⟨n, hn, -⟩
    · exact .inl ha
    · rw [insert_sum hn] at hi
      split at hi
      · cases hi
      · next hadd =>
        cases hi
        refine .inr ⟨?_, _, rfl⟩
        show ¬ Fits (List.map _ _).sum
        rw [List.map_append, List.sum_append, ← h.total_eq hblank, List.map_singleton,
          List.sum_singleton, hn]
        exact narrow?_eq_none_iff.1 hadd
  | extremum | list | distinct =>
    rcases except_bind_eq_error.1 hi with ha | ⟨a, -, hi⟩
    · exact .inl ha
    · cases hi
  | custom => exact hbuiltin.elim

/-- Every member that is left can be given back, but for a sum out of range. -/
theorem Admitted.retract_eq_error (hblank : start.blank = start) (hbuiltin : start.Builtin)
    (h : Admitted start spent (front ++ a :: rest) acc) {e : Error} (hr : acc.retract a.receipt = .error e) :
    start.Exceeds ((front ++ rest).map Admission.facts) ∧ ∃ site, e = .overflow site := by
  have hstocked := h.stocked hblank
  have htally := hstocked.tally
  rw [List.map_append, List.map_cons, Multiset.coe_eq_coe.2 List.perm_middle, ← Multiset.cons_coe] at htally
  -- Whoever does not add up gives every member back.
  have hnever : acc.GivesBack (fun _ => False) → False := by
    intro hback
    have hspec := tally_retract htally hback
    rwa [hr] at hspec
  obtain rfl := hstocked.blank
  cases acc with
  | sum of mean total members =>
    obtain ⟨hmembers, -, hvalues⟩ := htally
    obtain ⟨n, hn, hreceipt⟩ := hvalues _ (Multiset.mem_cons_self _ _)
    have hpos : members ≠ 0 := by
      rw [hmembers, Multiset.card_cons]
      exact Nat.succ_ne_zero _
    rw [show a.receipt = .value n from hreceipt, retract_sum of mean total n hpos] at hr
    split at hr
    · cases hr
    · next hsub =>
      cases hr
      have hnumber : of a.facts = .ok n := hn
      have hrest : (((front ++ rest).map Admission.facts).map fun row => amount (of row)).sum =
          total.toInt - n.toInt := by
        rw [h.total_eq hblank]
        simp only [List.map_append, List.map_cons, List.sum_append, List.sum_cons, hnumber, amount]
        omega
      refine ⟨?_, _, rfl⟩
      show ¬ Fits _
      rw [hrest]
      exact narrow?_eq_none_iff.1 hsub
  | extremum => exact (hnever (.inl hbuiltin)).elim
  | custom => exact hbuiltin.elim
  | _ => exact (hnever trivial).elim

/-- A receipt that gives nobody back, as far as the accumulator can tell: one of the wrong kind, or one
that leads to a slot but is spent. Whoever counts asks for no receipt. -/
def Foreign (spent : List Receipt) (receipt : Receipt) : Accumulator → Prop
  | sum .. => ∀ n, receipt ≠ .value n
  | extremum .. | list .. | distinct .. => (∀ n, receipt ≠ .slot n) ∨ receipt ∈ spent
  | _ => False

/-- A foreign receipt is refused. -/
theorem Admitted.retract_foreign (hblank : start.blank = start) (h : Admitted start spent as acc)
    {receipt : Receipt} (hforeign : start.Foreign spent receipt) :
    ∃ name, acc.retract receipt = .error (.inconsistent (.wrongReceipt name receipt.text)) := by
  have hstocked := h.stocked hblank
  have hnone : (∀ n, receipt ≠ .slot n) ∨ receipt ∈ spent →
      ∀ s, acc.slots? = some s → s.take? receipt = none := by
    rintro (hkind | hspent) s hs
    · cases receipt with
      | slot n => exact absurd rfl (hkind n)
      | unit => rfl
      | value n => rfl
    · exact (h.isSpent hblank hs).take?_none hspent
  obtain rfl := hstocked.blank
  cases acc with
  | count => exact hforeign.elim
  | sum of mean total members =>
    refine ⟨"sum", ?_⟩
    cases receipt with
    | value n => exact absurd rfl (hforeign n)
    | unit => rfl
    | slot n => rfl
  | extremum greatest of order ranking members =>
    exact ⟨"min/max", by rw [Accumulator.retract, hnone hforeign members rfl]; rfl⟩
  | list of members => exact ⟨"list", by rw [Accumulator.retract, hnone hforeign members rfl]; rfl⟩
  | distinct of counts members =>
    exact ⟨"count_distinct", by rw [Accumulator.retract, hnone hforeign members rfl]; rfl⟩
  | custom => exact hforeign.elim

end Accumulator

/-! ## The accumulators of groups -/

namespace GroupMemory

variable {c : Collector} {m : GroupMemory}

/-- The accumulator that the members of a group meet; a group that is not there starts with a blank one. -/
def accumulatorOf (m : GroupMemory) (c : Collector) (id : GroupId) : Option Accumulator :=
  match m.groups.get? id with
  | some group => group.accumulator
  | none => some c.start

/-- The accumulators that members meet are those of `accs`. -/
abbrev Meets (c : Collector) (accs : GroupId → Option Accumulator) : Workbench GroupMemory → Prop :=
  Work.Recalls fun m => m.accumulatorOf c = accs

/-- A group that is opened for a member starts blank, and another that is put in its place keeps what it
was. -/
theorem accumulatorOf_open (c : Collector) (m : GroupMemory) (id : GroupId) :
    (GroupMemory.mk (m.groups.insert id ((m.groups.get? id).getD { accumulator := some c.start }))
      m.members m.dirty).accumulatorOf c = m.accumulatorOf c := by
  funext other
  simp only [accumulatorOf, Table.get?_insert]
  by_cases hid : id = other
  · subst hid
    rw [if_pos rfl]
    cases m.groups.get? id <;> rfl
  · rw [if_neg hid]

theorem keepsMeets_keyOf (key : Option (Facts → Except Error Fact)) (facts : Facts)
    (accs : GroupId → Option Accumulator) : Keeps (Meets c accs) (keyOf key facts) := by
  cases key with
  | none => exact .pure _
  | some f => exact .bind (.lift _) fun _ => .bind (Work.recalls_onAgenda _) fun _ => .pure _

theorem keepsMeets_collect (facts : Facts) (accumulator : Option Accumulator)
    (accs : GroupId → Option Accumulator) : Keeps (Meets c accs) (collect facts accumulator) := by
  cases accumulator with
  | none => exact .pure _
  | some accumulator =>
    exact .get_bind fun w hw => .bind (.lift _) fun _ => .bind (.modify fun _ h => h) fun _ => .pure _

/-- An input that is not taken in leaves all accumulators as they were. -/
theorem insert_refused (key : Option (Facts → Except Error Fact)) (x : TupleId) (w : Workbench GroupMemory) :
    Ends (insert key (some c) x) w (fun _ _ => True) (Meets c (w.memory.accumulatorOf c)) := by
  have hmeets : Meets c (w.memory.accumulatorOf c) w := rfl
  unfold insert
  rw [Action.ends_bind]
  refine (Work.keeps_facts x w hmeets).mono (fun facts w₁ h₁ => ?_) fun _ => id
  rw [Action.ends_bind]
  refine (keepsMeets_keyOf key facts _ w₁ h₁).mono (fun k w₂ h₂ => ?_) fun _ => id
  rw [Action.ends_bind]
  show Ends (do
    setGroup _ ((w₂.memory.groups.get? _).getD { accumulator := some c.start })
    _) w₂ _ _
  have hopen : Meets c (w.memory.accumulatorOf c) { w₂ with memory := _ } :=
    (accumulatorOf_open c w₂.memory (k.map Fact.identity)).trans h₂
  rw [Action.ends_bind]
  show Ends (do
    let r ← collect facts _
    _) { w₂ with memory := _ } _ _
  rw [Action.ends_bind]
  exact (keepsMeets_collect facts _ _ _ hopen).mono (fun _ _ _ => trivial) fun _ => id

/-- A member that the accumulator does not give back leaves all groups as they were. -/
theorem retract_refused {x : TupleId} {w : Workbench GroupMemory} {member : Member} {group : Group}
    {acc : Accumulator} {e : Error} (hmember : w.memory.members.get? x = some member)
    (hgroup : w.memory.groups.get? member.group = some group) (hacc : group.accumulator = some acc)
    (hr : acc.retract member.receipt = .error e) :
    retract x w = .error e { w with memory := { w.memory with members := w.memory.members.erase x } } := by
  unfold retract
  refine (Action.bind_ok (rfl : Work.memory w = .ok w.memory w)).trans ?_
  rw [hmember]
  refine (Action.bind_ok (rfl : Work.setMemory _ w = .ok () { w with memory := _ })).trans ?_
  dsimp only
  rw [hgroup]
  dsimp only
  rw [hacc]
  have hlift (w' : Workbench GroupMemory) :
      (liftM (acc.retract member.receipt) : Work GroupMemory Accumulator) w' = .error e w' := by
    rw [hr]
    rfl
  exact Action.bind_error (Action.map_error (hlift _))

end GroupMemory

/-! ## Collectors -/

namespace Collector

/-- Whatever members were taken in and given back, in whatever order, what is reported is what those that
are left come to. Only a member that cannot be mapped or a sum out of range is refused, and a receipt that
gives nobody back; the accumulator of the group is then as it was. -/
theorem undoes_exactly (c : Collector) (hbuiltin : c.start.Builtin) {spent : List Receipt}
    {as : List Admission} {acc : Accumulator} (h : c.start.Admitted spent as acc) :
    c.start.ComesTo as acc.value? ∧ acc.isEmpty = as.isEmpty ∧
    (∀ version facts e, acc.insert version facts = .error e → c.start.Refuses facts e ∨
      c.start.Exceeds (as.map Admission.facts ++ [facts]) ∧ ∃ site, e = .overflow site) ∧
    (∀ front a rest e, as = front ++ a :: rest → acc.retract a.receipt = .error e →
      c.start.Exceeds ((front ++ rest).map Admission.facts) ∧ ∃ site, e = .overflow site) ∧
    (∀ receipt, c.start.Foreign spent receipt →
      ∃ name, acc.retract receipt = .error (.inconsistent (.wrongReceipt name receipt.text))) ∧
    (∀ key x w, Ends (GroupMemory.insert key (some c) x) w (fun _ _ => True)
      fun w' => w'.memory.accumulatorOf c = w.memory.accumulatorOf c) ∧
    ∀ x (w : Workbench GroupMemory) member group e, w.memory.members.get? x = some member →
      w.memory.groups.get? member.group = some group → group.accumulator = some acc →
      acc.retract member.receipt = .error e →
      ∃ w', GroupMemory.retract x w = .error e w' ∧ w'.memory.groups = w.memory.groups := by
  exact ⟨h.comesTo c.blank_start hbuiltin, h.isEmpty_eq c.blank_start hbuiltin,
    fun version facts e hi => h.insert_eq_error c.blank_start hbuiltin hi,
    fun front a rest e has hr => (has ▸ h).retract_eq_error c.blank_start hbuiltin hr,
    fun receipt hforeign => h.retract_foreign c.blank_start hforeign,
    fun key x w => GroupMemory.insert_refused key x w,
    fun x w member group e hmember hgroup hacc hr =>
      ⟨_, GroupMemory.retract_refused hmember hgroup hacc hr, rfl⟩⟩

/-- The last digit of a number. -/
def lastDigit : Fact → Int
  | .scalar (.int64 n) => n.toInt % 10
  | _ => 0

/-- Of 13, 23 and 21, by their last digits, the greatest is 23, which came after 13; with 23 given back it
is 13 again. -/
theorem undoes_exactly_ties :
    let c := greatest 1 (fun facts => .ok (facts.headD (.int64 0))) (compareOn lastDigit)
    c.start.Builtin ∧ ∃ acc,
      c.start.Admitted [.slot 1] [⟨[.int64 13], 0, .slot 0⟩, ⟨[.int64 21], 0, .slot 2⟩] acc ∧
      acc.value? = some (.int64 13) ∧
      c.start.ComesTo [⟨[.int64 13], 0, .slot 0⟩, ⟨[.int64 21], 0, .slot 2⟩] acc.value? ∧
      acc.isEmpty = false ∧
      ∃ name, acc.retract (.slot 1) = .error (.inconsistent (.wrongReceipt name "Slot(1)")) := by
  intro c
  have hbuiltin : c.start.Builtin := (inferInstance : Std.TransCmp (compareOn lastDigit))
  have hall : c.start.Admitted [] ([] ++ [⟨[.int64 13], 0, .slot 0⟩] ++ [⟨[.int64 23], 0, .slot 1⟩] ++
      [⟨[.int64 21], 0, .slot 2⟩]) _ := .insert (.insert (.insert .nil rfl) rfl) rfl
  have hplace : c.start.Admitted [] ([⟨[.int64 13], 0, .slot 0⟩] ++ ⟨[.int64 23], 0, .slot 1⟩ ::
      [⟨[.int64 21], 0, .slot 2⟩]) _ := hall
  have hleft := hplace.retract rfl
  obtain ⟨hvalue, hempty, -, -, hforeign, -⟩ := undoes_exactly c hbuiltin hleft
  exact ⟨hbuiltin, _, hleft, rfl, hvalue, hempty, hforeign _ (.inr List.mem_cons_self)⟩

end Collector

end ConstraintStreams
