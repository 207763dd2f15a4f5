import Mathlib.Algebra.BigOperators.Group.Multiset.Basic
import Mathlib.Data.Multiset.ZeroCons
import ConstraintStreams.Collector.Basic
import ConstraintStreams.Proofs.Action
import ConstraintStreams.Proofs.Table

/-!
# What accumulators hold

`Accumulator.Tally acc ms` says that an accumulator has taken in exactly the members `ms`, each with
the receipt it was given. Insertion adds a member, and any member can be given back, in any order.
-/

namespace ConstraintStreams

/-- A fact as it is once the entities in it that have just been built are numbered. -/
def Fact.Numbers (a b : Fact) : Prop := ∃ n, (a.numberFrom n).1 = b

/-- A fact as it is once it is taken in as a plain value. -/
def Fact.Unboxes (a b : Fact) : Prop := ∃ n, (a.unboxFrom n).1 = b

/-- A history of a rule and the receipts that are still to be given back. -/
inductive CustomCollector.Honest (rule : CustomCollector) :
    List CollectorEvent → Multiset Receipt → Prop
  | nil : Honest rule [] 0
  | insert {history receipts facts receipt} (h : Honest rule history receipts)
      (hi : rule.insert history facts = .ok receipt) :
      Honest rule (history ++ [.inserted facts receipt]) (receipt ::ₘ receipts)
  | retract {history receipts receipt} (h : Honest rule history (receipt ::ₘ receipts))
      (hr : rule.retract history receipt = .ok ()) :
      Honest rule (history ++ [.retracted receipt]) receipts

/-- A member of an accumulator: its facts and the receipt that gives it back. -/
abbrev Deposit := Facts × Receipt

namespace Slots

/-- A slot keeps what a member is mapped to, under the number on its receipt. -/
def Holds (shape : Facts → Fact → Prop) (e : Nat × Fact) (p : Deposit) : Prop :=
  p.2 = .slot e.1 ∧ shape p.1 e.2

/-- The slots keep what the members are mapped to, and nothing else. -/
structure Keeps (shape : Facts → Fact → Prop) (s : Slots) (ms : Multiset Deposit) : Prop where
  rel : Multiset.Rel (Holds shape) (Multiset.ofList s.members.entries) ms
  below : ∀ e ∈ s.members.entries, e.1 < s.next

variable {shape : Facts → Fact → Prop} {s : Slots} {ms : Multiset Deposit} {facts : Facts}
  {a : Fact} {receipt : Receipt}

theorem Keeps.empty : Keeps shape ∅ 0 where
  rel := .zero
  below e he := by cases he

theorem Keeps.get?_next (h : Keeps shape s ms) : s.members.get? s.next = none := by
  rw [Table.get?_eq_none_iff]
  intro hm
  obtain ⟨e, he, hnext⟩ := List.mem_map.1 hm
  exact absurd (h.below e he) (by omega)

theorem Keeps.insert (h : Keeps shape s ms) (ha : shape facts a) :
    Keeps shape (s.insert a).1 ((facts, (s.insert a).2) ::ₘ ms) where
  rel := by
    have hentries := Table.entries_insert_of_none (a := a) h.get?_next
    show Multiset.Rel _ (Multiset.ofList (s.members.insert s.next a).entries) _
    rw [hentries, ← Multiset.coe_add, Multiset.add_comm]
    exact .cons ⟨rfl, ha⟩ h.rel
  below := by
    intro e he
    have he' : e ∈ (s.members.insert s.next a).entries := he
    rw [Table.entries_insert_of_none h.get?_next, List.mem_append, List.mem_singleton] at he'
    show e.1 < s.next + 1
    rcases he' with he' | rfl
    · have := h.below e he'
      omega
    · dsimp only
      omega

/-- A receipt that was issued finds its member. -/
theorem Keeps.take (h : Keeps shape s ((facts, receipt) ::ₘ ms)) :
    ∃ n a s', receipt = .slot n ∧ shape facts a ∧ s.take? receipt = some ((n, a), s') ∧
      s.members.get? n = some a ∧ s'.members = s.members.erase n ∧ Keeps shape s' ms := by
  obtain ⟨⟨n, a⟩, rest, ⟨hreceipt, hshape⟩, hrest, hentries⟩ := Multiset.rel_cons_right.1 h.rel
  dsimp only at hreceipt
  subst hreceipt
  have hmem : (n, a) ∈ s.members.entries := by
    rw [← Multiset.mem_coe, hentries]
    exact Multiset.mem_cons_self _ _
  have hget := Table.get?_eq_some_iff.2 hmem
  have hperm := Table.entries_perm_erase hget
  refine ⟨n, a, { s with members := s.members.erase n }, rfl, hshape, ?_, hget, rfl, ?_, ?_⟩
  · show (s.members.get? n).map _ = _
    rw [hget]
    rfl
  · have hcoe : Multiset.ofList s.members.entries
        = (n, a) ::ₘ Multiset.ofList (s.members.erase n).entries := Multiset.coe_eq_coe.2 hperm
    rw [hentries, Multiset.cons_inj_right] at hcoe
    exact hcoe ▸ hrest
  · intro e he
    exact h.below e (hperm.mem_iff.2 (List.mem_cons_of_mem _ he))

end Slots

namespace Ranking

variable {order : Fact → Fact → Ordering} {a b : Nat × Fact} {r : Ranking}

theorem insert_perm (hnew : ∀ b ∈ r, a.1 ≠ b.1) : (insert order a r).Perm (a :: r) := by
  induction r with
  | nil => exact .refl _
  | cons b rest ih =>
    unfold insert
    have hrest := ih fun c hc => hnew c (List.mem_cons_of_mem b hc)
    split
    · exact .refl _
    · next heq =>
      -- Equal places have equal numbers.
      rw [compare, Ordering.then_eq_eq, compare_eq_iff_eq] at heq
      exact absurd heq.2 (hnew b List.mem_cons_self)
    · exact (hrest.cons b).trans (.swap _ _ _)

theorem compare_self (hself : ∀ x, order x x = .eq) : compare order a a = .eq := by
  rw [compare, Ordering.then_eq_eq]
  exact ⟨hself a.2, compare_eq_iff_eq.2 rfl⟩

/-- What is struck out of a ranking is the member of the given number. -/
theorem erase?_perm {r' : Ranking} (h : erase? order a r = some r') :
    ∃ b, b.1 = a.1 ∧ r.Perm (b :: r') ∧ r'.Sublist r := by
  induction r generalizing r' with
  | nil => cases h
  | cons b rest ih =>
    unfold erase? at h
    split at h
    · next he =>
      cases h
      rw [Ordering.isEq_iff_eq_eq, compare, Ordering.then_eq_eq, compare_eq_iff_eq] at he
      exact ⟨b, he.2.symm, .refl _, List.sublist_cons_self b _⟩
    · obtain ⟨rest', hrest, rfl⟩ := Option.map_eq_some_iff.1 h
      obtain ⟨c, hc, hperm, hsub⟩ := ih hrest
      exact ⟨c, hc, (hperm.cons b).trans (.swap _ _ _), hsub.cons_cons b⟩

/-- A ranked member is found. -/
theorem isSome_erase? (hself : ∀ x, order x x = .eq) (ha : a ∈ r) :
    (erase? order a r).isSome = true := by
  induction r with
  | nil => cases ha
  | cons b rest ih =>
    unfold erase?
    split
    · rfl
    · next hne =>
      have hrest : a ∈ rest := by
        rcases List.mem_cons.1 ha with rfl | hrest
        · exact absurd (Ordering.isEq_iff_eq_eq.2 (compare_self hself)) hne
        · exact hrest
      rw [Option.isSome_map]
      exact ih hrest

/-- A total preorder of the facts makes one of the places. -/
theorem transCmp_compare (h : Std.TransCmp order) : Std.TransCmp (compare order) := by
  have hsnd : Std.TransCmp (fun a b : Nat × Fact => order a.2 b.2) :=
    { eq_swap := h.eq_swap, isLE_trans := h.isLE_trans }
  have hfst : Std.TransCmp (fun a b : Nat × Fact => Ord.compare a.1 b.1) :=
    { eq_swap := Std.OrientedCmp.eq_swap
      isLE_trans := Std.TransCmp.isLE_trans }
  exact inferInstanceAs (Std.TransCmp (compareLex (fun a b : Nat × Fact => order a.2 b.2)
    fun a b => Ord.compare a.1 b.1))

/-- The places of a ranking ascend. -/
def Ascends (order : Fact → Fact → Ordering) (r : Ranking) : Prop :=
  r.Pairwise fun a b => compare order a b = .lt

theorem Ascends.insert (h : Ascends order r) (htrans : Std.TransCmp order)
    (hnew : ∀ b ∈ r, a.1 ≠ b.1) : Ascends order (Ranking.insert order a r) := by
  have := transCmp_compare htrans
  induction r with
  | nil => exact List.pairwise_singleton _ _
  | cons b rest ih =>
    obtain ⟨hb, hrest⟩ := List.pairwise_cons.1 h
    have hnew' : ∀ c ∈ rest, a.1 ≠ c.1 := fun c hc => hnew c (List.mem_cons_of_mem b hc)
    unfold Ranking.insert
    split
    · next hlt =>
      refine List.pairwise_cons.2 ⟨fun c hc => ?_, h⟩
      rcases List.mem_cons.1 hc with rfl | hc
      · exact hlt
      · exact Std.TransCmp.lt_trans hlt (hb c hc)
    · exact h
    · next hgt =>
      refine List.pairwise_cons.2 ⟨fun c hc => ?_, ih hrest hnew'⟩
      rcases List.mem_cons.1 ((insert_perm hnew').mem_iff.1 hc) with rfl | hc
      · exact Std.OrientedCmp.gt_iff_lt.1 hgt
      · exact hb c hc

/-- Where numbers are unique, the member that is struck out is the one that was asked for. -/
theorem perm_of_erase? {r' : Ranking} (hnodup : (r.map Prod.fst).Nodup) (ha : a ∈ r)
    (h : erase? order a r = some r') : r.Perm (a :: r') ∧ r'.Sublist r := by
  obtain ⟨b, hb, hperm, hsub⟩ := erase?_perm h
  obtain rfl : b = a :=
    List.inj_on_of_nodup_map hnodup (hperm.mem_iff.2 List.mem_cons_self) ha hb
  exact ⟨hperm, hsub⟩

end Ranking

/-- A table says of each thing in a list how often it is there, and has no entry for any other. -/
def Frequencies (counts : Table Fact Nat) (things : List Fact) : Prop :=
  ∀ k n, counts.get? k = some n ↔ 0 < n ∧ n = things.count k

namespace Frequencies

variable {counts : Table Fact Nat} {things things' : List Fact} {k : Fact}

theorem get?_of_mem (h : Frequencies counts things) (hk : k ∈ things) :
    counts.get? k = some (things.count k) :=
  (h k _).2 ⟨List.count_pos_iff.2 hk, rfl⟩

theorem getD_eq (h : Frequencies counts things) (k : Fact) : (counts.get? k).getD 0 = things.count k := by
  cases hc : counts.get? k with
  | some n => exact ((h k n).1 hc).2
  | none =>
    by_cases hk : k ∈ things
    · rw [h.get?_of_mem hk] at hc
      cases hc
    · exact (List.count_eq_zero.2 hk).symm

/-- One thing more is counted. -/
theorem more (h : Frequencies counts things) (hperm : things'.Perm (k :: things)) :
    Frequencies (counts.insert k ((counts.get? k).getD 0 + 1)) things' := by
  intro k' n
  rw [Table.get?_insert, h.getD_eq, hperm.count_eq, List.count_cons]
  by_cases hk : k = k'
  · subst hk
    simp only [if_pos, beq_self_eq_true, Option.some.injEq]
    omega
  · rw [if_neg hk, beq_eq_false_iff_ne.2 hk]
    exact h k' n

/-- One thing less is counted, and none at all where that was the last of its kind. -/
theorem fewer (h : Frequencies counts things) (hperm : things.Perm (k :: things')) :
    Frequencies (if things.count k - 1 = 0 then counts.erase k
      else counts.insert k (things.count k - 1)) things' := by
  intro k' n
  have hcount := hperm.count_eq k'
  rw [List.count_cons] at hcount
  by_cases hk : k = k'
  · subst hk
    rw [beq_self_eq_true, if_pos rfl] at hcount
    split
    · simp
      omega
    · simp
      omega
  · rw [beq_eq_false_iff_ne.2 hk, if_neg Bool.false_ne_true, Nat.add_zero] at hcount
    rw [← hcount, ← h k' n]
    split <;> simp [hk]

end Frequencies

namespace Accumulator

/-- What a member counts, by its receipt. -/
def Deposit.amount (p : Deposit) : Int :=
  match p.2 with
  | .value n => n.toInt
  | _ => 0

/-- The accumulator holds exactly the given members. -/
def Tally : Accumulator → Multiset Deposit → Prop
  | count members, ms => members = ms.card
  | sum of _ total members, ms => members = ms.card ∧ total.toInt = (ms.map Deposit.amount).sum ∧
      ∀ p ∈ ms, ∃ n, of p.1 = .ok n ∧ p.2 = .value n
  | extremum _ of order ranking members, ms =>
    members.Keeps (fun facts b => ∃ a, of facts = .ok a ∧ a.Unboxes b) ms ∧
      ranking.Perm members.members.entries ∧ (Std.TransCmp order → ranking.Ascends order)
  | list of members, ms => members.Keeps (fun facts b => ∃ a, of facts = .ok a ∧ a.Numbers b) ms
  | distinct of counts members, ms =>
    members.Keeps (fun facts b => ∃ a, of facts = .ok a ∧ a.identity = b) ms ∧
      ∀ k n, counts.get? k = some n ↔ 0 < n ∧ n = members.members.values.count k
  | custom rule history, ms => rule.Honest history (ms.map Prod.snd)

/-- The functions that an accumulator is given fail with errors of `E` only, its order is a total
preorder or may fail to find a member, and its rule takes back what it gave receipts for. -/
def Safe (E : Error → Prop) : Accumulator → Prop
  | count _ => True
  | sum of .. => ∀ facts e, of facts = .error e → E e
  | extremum _ of order .. => (∀ facts e, of facts = .error e → E e) ∧
      (Std.TransCmp order ∨ ∀ n, E (.inconsistent (.unranked n)))
  | list of _ | distinct of .. => ∀ facts e, of facts = .error e → E e
  | custom rule _ =>
    (∀ history receipts facts e, rule.Honest history receipts →
      rule.insert history facts = .error e → E e) ∧
    ∀ history receipt receipts e, rule.Honest history (receipt ::ₘ receipts) →
      rule.retract history receipt = .error e → E e

/-- A sum may be out of range, the order is a total preorder or may fail to find a member, and the rule
takes back what it gave receipts for. -/
def GivesBack (E : Error → Prop) : Accumulator → Prop
  | sum .. => ∀ site, E (.overflow site)
  | extremum _ _ order .. => Std.TransCmp order ∨ ∀ n, E (.inconsistent (.unranked n))
  | custom rule _ => ∀ history receipt receipts e, rule.Honest history (receipt ::ₘ receipts) →
      rule.retract history receipt = .error e → E e
  | _ => True

variable {E : Error → Prop} {acc acc' : Accumulator} {ms : Multiset Deposit} {facts : Facts}
  {receipt : Receipt} {version version' : Nat}

theorem Safe.givesBack (h : acc.Safe E) (hoverflow : ∀ site, E (.overflow site)) : acc.GivesBack E := by
  cases acc with
  | sum => exact hoverflow
  | extremum => exact h.2
  | custom => exact h.2
  | _ => trivial

theorem tally_blank (acc : Accumulator) : acc.blank.Tally 0 := by
  cases acc with
  | count => rfl
  | sum => exact ⟨rfl, by simp, by simp⟩
  | extremum => exact ⟨.empty, .refl _, fun _ => .nil⟩
  | list => exact Slots.Keeps.empty
  | distinct =>
    refine ⟨.empty, fun k n => ⟨fun h => (nomatch h), ?_⟩⟩
    rintro ⟨hpos, rfl⟩
    cases hpos
  | custom => exact .nil

theorem safe_blank : acc.blank.Safe E ↔ acc.Safe E := by
  cases acc <;> rfl

/-- How taking a member into a sum ends, once its number is known. -/
theorem insert_sum {of : Facts → Except Error Int64} {n : Int64} (hn : of facts = .ok n) (mean : Bool)
    (total : Int64) (members version : Nat) :
    insert version facts (sum of mean total members) = match checkedAdd total n with
      | some total => .ok (sum of mean total (members + 1), .value n, version)
      | none => .error (.overflow (.sum total n)) := by
  simp only [insert, hn, bind, Except.bind]
  cases checkedAdd total n <;> rfl

/-- How giving back a number ends. -/
theorem retract_sum (of : Facts → Except Error Int64) (mean : Bool) (total n : Int64) {members : Nat}
    (hpos : members ≠ 0) :
    retract (.value n) (sum of mean total members) = match checkedSub total n with
      | some total => .ok (sum of mean total (members - 1))
      | none => .error (.overflow (.difference total n)) := by
  simp only [retract, if_neg hpos]
  cases checkedSub total n <;> rfl

/-- Taking a member in. -/
theorem tally_insert (h : acc.Tally ms)
    (hi : acc.insert version facts = .ok (acc', receipt, version')) :
    acc'.Tally ((facts, receipt) ::ₘ ms) ∧ acc'.blank = acc.blank := by
  cases acc with
  | count members =>
    cases hi
    exact ⟨by simp [Tally, show members = ms.card from h], rfl⟩
  | sum of mean total members =>
    obtain ⟨hcard, htotal, hvalues⟩ := h
    obtain ⟨n, hn, -⟩ := except_bind_eq_ok.1 hi
    rw [insert_sum hn] at hi
    cases hsum : checkedAdd total n with
    | none => rw [hsum] at hi; cases hi
    | some total' =>
      rw [hsum] at hi
      cases hi
      have hadd := narrow?_eq_some_iff.1 hsum
      refine ⟨⟨by simp [hcard], ?_, ?_⟩, rfl⟩
      · rw [Multiset.map_cons, Multiset.sum_cons, hadd, htotal, Int.add_comm]
        rfl
      · intro p hp
        rcases Multiset.mem_cons.1 hp with rfl | hp
        · exact ⟨n, hn, rfl⟩
        · exact hvalues p hp
  | extremum greatest of order ranking members =>
    obtain ⟨hkeeps, hperm, hascends⟩ := h
    simp only [insert] at hi
    obtain ⟨a, ha, hi⟩ := except_bind_eq_ok.1 hi
    cases hi
    have hnew : ∀ b ∈ ranking, members.next ≠ b.1 := fun b hb => by
      have := hkeeps.below b (hperm.mem_iff.1 hb)
      omega
    refine ⟨⟨hkeeps.insert ⟨a, ha, version, rfl⟩, ?_, fun ht => (hascends ht).insert ht hnew⟩, rfl⟩
    refine (Ranking.insert_perm hnew).trans ((hperm.cons _).trans ?_)
    show List.Perm _ (members.members.insert members.next _).entries
    rw [Table.entries_insert_of_none hkeeps.get?_next]
    exact (List.perm_append_singleton _ _).symm
  | list of members =>
    simp only [insert] at hi
    obtain ⟨a, ha, hi⟩ := except_bind_eq_ok.1 hi
    cases hi
    exact ⟨Slots.Keeps.insert h ⟨a, ha, version, rfl⟩, rfl⟩
  | distinct of counts members =>
    obtain ⟨hkeeps, hcounts⟩ := h
    simp only [insert] at hi
    obtain ⟨a, ha, hi⟩ := except_bind_eq_ok.1 hi
    cases hi
    refine ⟨⟨hkeeps.insert ⟨a, ha, rfl⟩, Frequencies.more hcounts ?_⟩, rfl⟩
    show List.Perm (members.members.insert members.next a.identity).values _
    rw [Table.values_insert_of_none hkeeps.get?_next]
    exact List.perm_append_singleton _ _
  | custom rule history =>
    simp only [insert] at hi
    obtain ⟨r, hr, hi⟩ := except_bind_eq_ok.1 hi
    cases hi
    refine ⟨?_, rfl⟩
    show rule.Honest _ (Multiset.map Prod.snd _)
    rw [Multiset.map_cons]
    exact .insert h hr

/-- What goes wrong while a member is taken in is a fault of a function that was given, or a sum out
of range. -/
theorem insert_error {e : Error} (h : acc.Tally ms) (hsafe : acc.Safe E)
    (hoverflow : ∀ site, E (.overflow site)) (hi : acc.insert version facts = .error e) : E e := by
  cases acc with
  | count => cases hi
  | sum of mean total members =>
    rcases except_bind_eq_error.1 hi with ha | ⟨n, -, hi⟩
    · exact hsafe facts e ha
    · cases hsum : checkedAdd total n with
      | none =>
        rw [hsum] at hi
        cases hi
        exact hoverflow _
      | some total' =>
        rw [hsum] at hi
        cases hi
  | extremum greatest of order ranking members =>
    rcases except_bind_eq_error.1 hi with ha | ⟨a, -, hi⟩
    · exact hsafe.1 facts e ha
    · cases hi
  | list of members =>
    rcases except_bind_eq_error.1 hi with ha | ⟨a, -, hi⟩
    · exact hsafe facts e ha
    · cases hi
  | distinct of counts members =>
    rcases except_bind_eq_error.1 hi with ha | ⟨a, -, hi⟩
    · exact hsafe facts e ha
    · cases hi
  | custom rule history =>
    rcases except_bind_eq_error.1 hi with ha | ⟨a, -, hi⟩
    · exact hsafe.1 history _ facts e h ha
    · cases hi

/-- A member can be given back, but for what a rule refuses and for sums out of range. -/
theorem tally_retract (h : acc.Tally ((facts, receipt) ::ₘ ms)) (hback : acc.GivesBack E) :
    match acc.retract receipt with
    | .ok acc' => acc'.Tally ms ∧ acc'.blank = acc.blank
    | .error e => E e := by
  cases acc with
  | count members =>
    have hcard : members = ms.card + 1 := h.trans (Multiset.card_cons _ _)
    have hpos : members ≠ 0 := by omega
    simp only [retract, if_neg hpos]
    exact ⟨show members - 1 = ms.card by omega, rfl⟩
  | sum of mean total members =>
    obtain ⟨hcard, htotal, hvalues⟩ := h
    obtain ⟨n, hn, hreceipt⟩ := hvalues _ (Multiset.mem_cons_self _ _)
    dsimp only at hreceipt
    subst hreceipt
    rw [Multiset.card_cons] at hcard
    have hpos : members ≠ 0 := by omega
    simp only [retract, if_neg hpos]
    cases hsub : checkedSub total n with
    | none => exact hback _
    | some total' =>
      have hdiff := narrow?_eq_some_iff.1 hsub
      rw [Multiset.map_cons, Multiset.sum_cons] at htotal
      refine ⟨⟨by omega, ?_, fun p hp => hvalues p (Multiset.mem_cons_of_mem hp)⟩, rfl⟩
      rw [hdiff, htotal]
      simp only [Deposit.amount]
      omega
  | extremum greatest of order ranking members =>
    obtain ⟨hkeeps, hperm, hascends⟩ := h
    obtain ⟨n, a, s', rfl, -, htake, hget, hmembers, hkeeps'⟩ := hkeeps.take
    have hnodup : (ranking.map Prod.fst).Nodup :=
      (hperm.map Prod.fst).nodup_iff.2 members.members.keys_nodup
    have hmem : (n, a) ∈ ranking := hperm.mem_iff.2 (Table.get?_eq_some_iff.1 hget)
    simp only [retract, htake]
    cases hr' : Ranking.erase? order (n, a) ranking with
    | none =>
      rcases hback with ht | hunranked
      · have hself : ∀ x, order x x = .eq := fun x => Std.ReflCmp.compare_self
        have hfound := Ranking.isSome_erase? hself hmem
        rw [hr'] at hfound
        cases hfound
      · exact hunranked n
    | some r' =>
      obtain ⟨hperm', hsub⟩ := Ranking.perm_of_erase? hnodup hmem hr'
      refine ⟨⟨hkeeps', ?_, fun ht => (hascends ht).sublist hsub⟩, rfl⟩
      rw [hmembers]
      exact (hperm'.symm.trans hperm).trans (Table.entries_perm_erase hget) |>.cons_inv
  | list of members =>
    obtain ⟨n, a, s', rfl, -, htake, -, -, hkeeps'⟩ := Slots.Keeps.take h
    simp only [retract, htake]
    exact ⟨hkeeps', rfl⟩
  | distinct of counts members =>
    obtain ⟨hkeeps, hcounts⟩ := h
    obtain ⟨n, k, s', rfl, -, htake, hget, hmembers, hkeeps'⟩ := hkeeps.take
    have hvalues := Table.values_perm_erase hget
    have hmem : k ∈ members.members.values := hvalues.mem_iff.2 List.mem_cons_self
    have hpos : ¬ members.members.values.count k < 1 := Nat.not_lt.2 (List.count_pos_iff.2 hmem)
    simp only [retract, htake, Frequencies.get?_of_mem hcounts hmem, countDown, if_neg hpos]
    exact ⟨⟨hkeeps', hmembers ▸ Frequencies.fewer hcounts hvalues⟩, rfl⟩
  | custom rule history =>
    have hhonest : rule.Honest history (receipt ::ₘ ms.map Prod.snd) := by
      have hall : rule.Honest history (((facts, receipt) ::ₘ ms).map Prod.snd) := h
      rwa [Multiset.map_cons] at hall
    simp only [retract]
    cases hr : rule.retract history receipt with
    | error e => exact hback history receipt _ e hhonest hr
    | ok _ => exact ⟨.retract hhonest hr, rfl⟩

end Accumulator

end ConstraintStreams
