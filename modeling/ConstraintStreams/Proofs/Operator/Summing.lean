import ConstraintStreams.Proofs.Constraint.Posting
import ConstraintStreams.Proofs.Operator.Grouping

/-!
# Sums overflow where they are out of range

A grouping with a collector that adds up holds the exact sum of each group. Entering or withdrawing a
member overflows exactly where the sum of its group is out of range afterwards. A member that has
changed is withdrawn and entered anew, so the sum of the others has to be a word as well. It is the same
with the totals of constraints.
-/

namespace ConstraintStreams

open ConstraintStreams.Action (OverflowsIff)

namespace Accumulator

variable {σ : Type} {s : σ} {facts : Facts} {n : Int64}

/-- Taking a number in overflows where the sum does. -/
theorem lift_insert_sum {of : Facts → Except Error Int64} (hn : of facts = .ok n) (mean : Bool)
    (total : Int64) (members version : Nat) : OverflowsIff (¬ Fits (total.toInt + n.toInt))
      (liftM (insert version facts (sum of mean total members)) : Action σ _) s := by
  have heq := insert_sum hn mean total members version
  cases hadd : checkedAdd total n with
  | some total' =>
    rw [hadd] at heq
    exact .lift_ok heq (not_not.2 (narrow?_eq_some_iff.1 hadd ▸ fits_toInt total'))
  | none =>
    rw [hadd] at heq
    exact .lift_error heq (narrow?_eq_none_iff.1 hadd)

/-- Giving a number back overflows where the difference does. -/
theorem lift_retract_sum (of : Facts → Except Error Int64) (mean : Bool) (total n : Int64) {members : Nat}
    (hpos : members ≠ 0) : OverflowsIff (¬ Fits (total.toInt - n.toInt))
      (liftM (retract (.value n) (sum of mean total members)) : Action σ _) s := by
  have heq := retract_sum of mean total n hpos
  cases hsub : checkedSub total n with
  | some total' =>
    rw [hsub] at heq
    exact .lift_ok heq (not_not.2 (narrow?_eq_some_iff.1 hsub ▸ fits_toInt total'))
  | none =>
    rw [hsub] at heq
    exact .lift_error heq (narrow?_eq_none_iff.1 hsub)

end Accumulator

namespace GroupMemory

variable {key : Option (Facts → Except Error Fact)} {of : Facts → Except Error Int64} {mean : Bool}
  {collector : Option Collector} {v : View} {r : List TupleId} {x : TupleId} {facts old : Facts}
  {id : GroupId} {dirty : List GroupId} {out : TupleId → Option (Facts × Sources)} {m : GroupMemory}
  {g : Agenda} {group : Group} {t : Tuple} {n : Int64}

/-- The exact sum over the rows of a group. -/
def exactSum (key : Option (Facts → Except Error Fact)) (of : Facts → Except Error Int64) (v : View)
    (roster : List TupleId) (id : GroupId) : Int :=
  ((classRows key (v.told .only) roster id).map fun row => amount (of row)).sum

/-- The exact sum over the rows of a group is out of range. -/
def Exceeds (key : Option (Facts → Except Error Fact)) (of : Facts → Except Error Int64) (v : View)
    (roster : List TupleId) (id : GroupId) : Prop :=
  ¬ Fits (exactSum key of v roster id)

/-- Tells that a collector adds up a number of each member, or takes the mean of it. -/
def AddsUp (collector : Option Collector) (of : Facts → Except Error Int64) : Prop :=
  ∃ c mean, collector = some c ∧ c.start = .sum of mean 0 0

/-! ## The rows of a group -/

/-- What is told of one input changes the rows of the others in nothing. -/
theorem classRows_congr {told told' : TupleId → Option Facts} (h : ∀ y ∈ r, told' y = told y) :
    classRows key told' r id = classRows key told r id := by
  refine List.filterMap_congr fun y hy => ?_
  rw [h y hy]

/-- An input that is new adds its number to the sum of its group. -/
theorem exactSum_tell (hnew : x ∉ r) : exactSum key of (v.tell .only x facts) (r ++ [x])
    (groupOf key facts) = exactSum key of v r (groupOf key facts) + amount (of facts) := by
  have hothers : classRows key ((v.tell .only x facts).told .only) r (groupOf key facts) =
      classRows key (v.told .only) r (groupOf key facts) := by
    refine classRows_congr fun y hy => if_neg ?_
    rintro ⟨-, rfl⟩
    exact hnew hy
  have hself : classRows key ((v.tell .only x facts).told .only) [x] (groupOf key facts) = [facts] := by
    have htold : (v.tell .only x facts).told .only x = some facts := if_pos ⟨rfl, rfl⟩
    rw [classRows, List.filterMap_cons, htold, Option.filter_some, if_pos (by simp)]
    rfl
  have happend : classRows key ((v.tell .only x facts).told .only) (r ++ [x]) (groupOf key facts) =
      classRows key (v.told .only) r (groupOf key facts) ++ [facts] := by
    rw [← hothers, ← hself]
    exact List.filterMap_append
  rw [exactSum, happend, List.map_append, List.sum_append, exactSum]
  simp

/-- An input that is withdrawn takes its number from the sum of its group. -/
theorem exactSum_drop (hnodup : r.Nodup) (hmem : x ∈ r) (htold : v.told .only x = some old) :
    exactSum key of (v.drop .only x) (r.erase x) (groupOf key old) =
      exactSum key of v r (groupOf key old) - amount (of old) := by
  have hothers : classRows key ((v.drop .only x).told .only) (r.erase x) (groupOf key old) =
      classRows key (v.told .only) (r.erase x) (groupOf key old) := by
    refine classRows_congr fun y hy => if_neg ?_
    rintro ⟨-, rfl⟩
    exact hnodup.not_mem_erase hy
  have hperm : (classRows key (v.told .only) r (groupOf key old)).Perm
      (old :: classRows key (v.told .only) (r.erase x) (groupOf key old)) := by
    refine ((List.perm_cons_erase hmem).filterMap _).trans ?_
    rw [List.filterMap_cons, htold, Option.filter_some, if_pos (by simp)]
    rfl
  have hsum := (hperm.map fun row => amount (of row)).sum_eq
  rw [List.map_cons, List.sum_cons] at hsum
  rw [exactSum, hothers, exactSum]
  omega

/-! ## What the collectors hold -/

/-- The collector of a group adds up, and holds the members of the group. -/
theorem Valid.adds (hv : Valid key collector dirty v out m) (hsum : AddsUp collector of)
    (hg : m.groups.get? id = some group) : ∃ mean total,
      group.accumulator = some (.sum of mean total group.size) ∧
        (Accumulator.sum of mean total group.size).Tally (deposits m.members (v.told .only) id) := by
  obtain ⟨c, mean, rfl, hstart⟩ := hsum
  have hcollects := hv.collects hg
  cases hacc : group.accumulator with
  | none => rw [hacc] at hcollects; exact hcollects.elim
  | some acc =>
    rw [hacc] at hcollects
    obtain ⟨htally, hblank⟩ := hcollects
    rw [hstart] at hblank
    cases acc with
    | sum of' mean' total members =>
      cases hblank
      have hsize : members = group.size := htally.1.trans (hv.size_eq hg).symm
      exact ⟨mean, total, by rw [hsize], hsize ▸ htally⟩
    | _ => cases hblank

/-- What the collector holds is the exact sum of the rows. -/
theorem Valid.total_eq (hv : Valid key collector dirty v out m) (h : Enrolled r m) {total : Int64}
    {members : Nat} (htally : (Accumulator.sum of mean total members).Tally
      (deposits m.members (v.told .only) id)) : total.toInt = exactSum key of v r id := by
  obtain ⟨ds, hds, hrows, -⟩ := hv.deposits_eq h id
  rw [hds] at htally
  rw [htally.2.1, Accumulator.sum_amounts htally.2.2, hrows]
  rfl

/-- A group that is not there has nothing to add up. -/
theorem Valid.exactSum_absent (hv : Valid key collector dirty v out m) (h : Enrolled r m)
    (hg : m.groups.get? id = none) : exactSum key of v r id = 0 := by
  obtain ⟨ds, -, hrows, hreceipts⟩ := hv.deposits_eq h id
  rw [hv.receipts_nil hg, List.map_eq_nil_iff] at hreceipts
  rw [exactSum, ← hrows, hreceipts]
  rfl

/-! ## When entering and withdrawing overflow -/

/-- Withdrawing a member overflows where the sum of the others does. -/
theorem retract_overflowsIff (hv : Valid key collector dirty v out m) (h : Enrolled r m)
    (hsum : AddsUp collector of) (htold : v.told .only x = some old) :
    OverflowsIff (Exceeds key of (v.drop .only x) (r.erase x) (groupOf key old)) (retract x) ⟨m, g⟩ := by
  obtain ⟨member, hm⟩ := hv.held.get?_some (show v.Held .only x by rw [View.Held, htold]; rfl)
  obtain ⟨group, hg⟩ := hv.grouped hm
  obtain ⟨mean, total, hacc, htally⟩ := hv.adds hsum hg
  have hdeposit := mem_deposits (v.told .only) hm
  rw [htold] at hdeposit
  obtain ⟨n, hn, hreceipt⟩ := htally.2.2 _ hdeposit
  have hpos : group.size ≠ 0 := by
    have hcard := htally.1
    have := Multiset.card_pos_iff_exists_mem.2 ⟨_, hdeposit⟩
    omega
  have hmem : x ∈ r := h.keys ▸ Table.contains_iff.1 (by rw [Table.contains, hm]; rfl)
  have hrest : exactSum key of (v.drop .only x) (r.erase x) (groupOf key old) =
      total.toInt - n.toInt := by
    rw [exactSum_drop (h.keys ▸ m.members.keys_nodup) hmem htold, hv.groupOf_eq hm htold,
      ← hv.total_eq h htally, show of old = .ok n from hn]
    rfl
  unfold retract setGroup
  refine .bind_of_ok (rfl : Work.memory ⟨m, g⟩ = .ok m ⟨m, g⟩) ?_
  rw [hm]
  refine .bind_of_ok (rfl : Work.setMemory _ ⟨m, g⟩ = .ok () ⟨_, g⟩) ?_
  dsimp only
  rw [hg]
  dsimp only
  rw [hacc, show member.receipt = .value n from hreceipt, Exceeds, hrest]
  refine .bind_done (.map (Accumulator.lift_retract_sum of mean total n hpos) some) fun a w' _ => ?_
  rw [countDown, if_neg (by omega)]
  exact ⟨_, _, rfl⟩

/-- A key that is answered is numbered, and says to which group a row belongs. -/
theorem keyOf_eq (hkey : ∃ k, Answers key facts k) : ∃ k g',
    keyOf key facts ⟨m, g⟩ = .ok k ⟨m, g'⟩ ∧ k.map Fact.identity = groupOf key facts := by
  cases key with
  | none => exact ⟨none, g, rfl, rfl⟩
  | some f =>
    obtain ⟨_, a, _, ha, -⟩ := hkey
    refine ⟨some (a.numberFrom g.nextVersion).1, { g with nextVersion := (a.numberFrom g.nextVersion).2 },
      ?_, ?_⟩
    · exact (Action.bind_ok (Action.lift_eq_ok.2 ⟨ha, rfl⟩)).trans rfl
    · rw [Option.map_some, Fact.identity_numberFrom, groupOf, ha]
      rfl

/-- The collector that a new member of a group meets holds the exact sum of its rows. -/
theorem Valid.collector_sum (hv : Valid key collector dirty v out m) (h : Enrolled r m)
    (hsum : AddsUp collector of) (id : GroupId) : ∃ mean total members,
      ((m.groups.get? id).getD { accumulator := collector.map (·.start) }).accumulator =
        some (.sum of mean total members) ∧ total.toInt = exactSum key of v r id := by
  cases hg : m.groups.get? id with
  | some group =>
    obtain ⟨mean, total, hacc, htally⟩ := hv.adds hsum hg
    exact ⟨mean, total, group.size, hacc, hv.total_eq h htally⟩
  | none =>
    obtain ⟨c, mean, rfl, hstart⟩ := hsum
    exact ⟨mean, 0, 0, congrArg some hstart, (hv.exactSum_absent h hg).symm⟩

/-- Entering a member overflows where the sum does afterwards. -/
theorem insert_overflowsIff (hv : Valid key collector dirty v out m) (h : Enrolled r m)
    (hsum : AddsUp collector of) (hnew : ¬ v.Held .only x) (ht : g.find? x = some t)
    (hkey : ∃ k, Answers key t.facts k) (hn : of t.facts = .ok n) :
    OverflowsIff (Exceeds key of (v.tell .only x t.facts) (r ++ [x]) (groupOf key t.facts))
      (insert key collector x) ⟨m, g⟩ := by
  have hfacts : Work.facts x ⟨m, g⟩ = .ok t.facts ⟨m, g⟩ := by
    unfold Work.facts
    rw [Action.bind_ok (Action.get_eq _), Action.lift_eq_ok]
    exact ⟨Agenda.facts_eq ht, rfl⟩
  obtain ⟨k, g₁, hk, hid⟩ := keyOf_eq (m := m) (g := g) hkey
  obtain ⟨mean, total, members, hacc, htotal⟩ := hv.collector_sum h hsum (groupOf key t.facts)
  have hafter : exactSum key of (v.tell .only x t.facts) (r ++ [x]) (groupOf key t.facts) =
      total.toInt + n.toInt := by
    have habsent : x ∉ r := h.keys ▸ Table.get?_eq_none_iff.1 (hv.held.get?_none hnew)
    rw [exactSum_tell habsent, ← htotal, hn]
    rfl
  unfold insert setGroup
  refine .bind_of_ok hfacts (.bind_of_ok hk ?_)
  rw [hid]
  refine .bind_of_ok (rfl : Work.memory ⟨m, g₁⟩ = .ok m ⟨m, g₁⟩) ?_
  refine .bind_of_ok (rfl : Work.modifyMemory _ ⟨m, g₁⟩ = .ok () ⟨_, g₁⟩) ?_
  rw [hacc, Exceeds, hafter]
  refine .bind_done ?_ fun a w' _ => ⟨_, _, rfl⟩
  unfold collect
  refine .bind_of_ok (Action.get_eq _) ?_
  exact .bind_done (Accumulator.lift_insert_sum hn mean total members _) fun _ _ _ => ⟨_, _, rfl⟩

/-- Members enter and leave with an overflow exactly where a sum of numbers is out of range. A member
that has changed leaves and enters, and the sum of the group that it leaves has to be a word, too. -/
structure OverflowsExactly (node : NodeId) (key : Option (Facts → Except Error Fact))
    (collector : Option Collector) (of : Facts → Except Error Int64) (v : View) (r : List TupleId)
    (w : Workbench GroupMemory) : Prop where
  insert : ∀ {x t n}, ¬ v.Held .only x → w.agenda.find? x = some t → (∃ k, Answers key t.facts k) →
    of t.facts = .ok n →
    OverflowsIff (Exceeds key of (v.tell .only x t.facts) (r ++ [x]) (groupOf key t.facts))
      (GroupMemory.insert key collector x) w
  retract : ∀ {x old}, v.told .only x = some old →
    OverflowsIff (Exceeds key of (v.drop .only x) (r.erase x) (groupOf key old)) (GroupMemory.retract x) w
  update : ∀ {x old t n}, v.told .only x = some old → w.agenda.find? x = some t → t.node ≠ node →
    (∃ k, Answers key t.facts k) → of t.facts = .ok n →
    OverflowsIff (Exceeds key of (v.drop .only x) (r.erase x) (groupOf key old) ∨
      Exceeds key of (v.tell .only x t.facts) (r.erase x ++ [x]) (groupOf key t.facts))
      (GroupMemory.update key collector x) w

variable {node : NodeId} {es : List Event} {w : Workbench GroupMemory}

theorem AddsUp.builtin (hsum : AddsUp collector of) : ∀ c, collector = some c → c.start.Builtin := by
  obtain ⟨c, mean, rfl, hstart⟩ := hsum
  rintro _ ⟨⟩
  rw [hstart]
  trivial

/-- A member that has changed overflows where it does so on leaving, or on entering. -/
theorem update_overflowsIff (ha : Attends node (fun v out m => Valid key collector m.dirty v out m) v w)
    (h : Enrolled r w.memory) (hsum : AddsUp collector of) (htold : v.told .only x = some old)
    (ht : w.agenda.find? x = some t) (hne : t.node ≠ node) (hkey : ∃ k, Answers key t.facts k)
    (hn : of t.facts = .ok n) :
    OverflowsIff (Exceeds key of (v.drop .only x) (r.erase x) (groupOf key old) ∨
      Exceeds key of (v.tell .only x t.facts) (r.erase x ++ [x]) (groupOf key t.facts))
      (update key collector x) w := by
  have hexpects : v.Expects .retract .only x := by simp [View.Expects, View.Held, htold]
  refine (retract_overflowsIff ha.holds h hsum htold).bind fun _ w' hretract => ?_
  obtain ⟨hevolves, ha'⟩ := (ha.signal (upholds node hsum.builtin) (List.mem_singleton.2 rfl) hexpects ht
    hne).of_ok hretract
  have hentered := insert_overflowsIff (g := w'.agenda) ha'.holds ((retract_enrolls h).of_ok hretract) hsum
    (by simp [View.after]) (hevolves.other ht hne) hkey hn
  rwa [View.after, View.tell_drop] at hentered

theorem overflowsExactly_of_life (hsum : AddsUp collector of)
    (hlife : Life (handler node key collector) node es v w) :
    OverflowsExactly node key collector of v (roster es) w := by
  have ha := hlife.attends (upholds node hsum.builtin)
  have h := enrolled hsum.builtin hlife
  exact ⟨insert_overflowsIff ha.holds h hsum, retract_overflowsIff ha.holds h hsum,
    update_overflowsIff ha h hsum⟩

end GroupMemory

/-- Where match weights, charges, keys and numbers are computed, an overflow is reported exactly where a
sum is out of range: by a ledger, the sum of its entries afterwards; by a grouping that adds up, the sum
of the group that a member has entered or left. Whatever has changed is struck out and entered anew, and
an overflow is reported as well where what is left in between is out of range. -/
theorem overflows_exactly {kind : ScoreKind} {c : Constraint kind} {l : Ledger kind} (hl : l.Kept c)
    {node : NodeId} {key : Option (Facts → Except Error Fact)} {collector : Option Collector}
    {of : Facts → Except Error Int64} (hsum : GroupMemory.AddsUp collector of) {es : List Event} {v : View}
    {w : Workbench GroupMemory} (hlife : Life (GroupMemory.handler node key collector) node es v w) :
    l.OverflowsExactly c ∧ GroupMemory.OverflowsExactly node key collector of v (roster es) w :=
  ⟨hl.balanced.overflowsExactly, GroupMemory.overflowsExactly_of_life hsum hlife⟩

/-- The amount that a row is. -/
def amountOf (row : Facts) : Except Error Int64 :=
  match row with
  | [.scalar (.int64 n)] => .ok n
  | _ => .ok 0

/-- A reward of one for each unit of an amount. -/
def rewardOfAmount : Constraint .simple where
  id := ⟨defaultPackage, "amount"⟩
  weight := .simple 1
  impact := .reward
  weigher := some amountOf

/-- The greatest amount, and then its opposite twice. -/
def opposing : List (Posting .simple) :=
  [.insert ⟨0, 0⟩ [.int64 Int64.maxValue], .insert ⟨1, 0⟩ [.int64 (-Int64.maxValue)],
    .insert ⟨2, 0⟩ [.int64 (-Int64.maxValue)]]

/-- The ledger with these amounts. -/
def opposed : Ledger .simple :=
  (Action.outcome? (Posting.postAll rewardOfAmount opposing) (.new (.simple 1))).get rfl

theorem opposed_kept : opposed.Kept rewardOfAmount := by
  have hrun : Posting.postAll rewardOfAmount opposing (.new (.simple 1)) = .ok () opposed :=
    Action.eq_ok_outcome _
  exact (Ledger.Kept.opened _).postAll hrun

/-- The same amounts come into a grouping one by one. -/
def opposingCues : List Cue :=
  [.told .insert .only ⟨0, 0⟩, .told .insert .only ⟨1, 0⟩, .told .insert .only ⟨2, 0⟩, .refreshed]

/-- A grouping that has added these amounts up. -/
@[irreducible] def addedUp : View × Workbench GroupMemory :=
  ((GroupMemory.handler ⟨1⟩ none (some (.sum 0 amountOf))).rehearse?
    [[.int64 Int64.maxValue], [.int64 (-Int64.maxValue)], [.int64 (-Int64.maxValue)]]
    opposingCues).get (by decide +kernel)

theorem addedUp_rehearsed : Rehearsed (GroupMemory.handler ⟨1⟩ none (some (.sum 0 amountOf))) ⟨1⟩
    (opposingCues.flatMap Cue.events) addedUp.1 addedUp.2 := by
  have hbuiltin : ∀ c, some (Collector.sum 0 amountOf) = some c → c.start.Builtin := by
    rintro _ ⟨⟩
    trivial
  unfold addedUp
  exact Handler.rehearsed (GroupMemory.upholds ⟨1⟩ hbuiltin) (Option.some_get _).symm

theorem overflows_exactly_opposed :
    opposed.Kept rewardOfAmount ∧ GroupMemory.AddsUp (some (.sum 0 amountOf)) amountOf ∧
      Life (GroupMemory.handler ⟨1⟩ none (some (.sum 0 amountOf))) ⟨1⟩
        (opposingCues.flatMap Cue.events) addedUp.1 addedUp.2 ∧
      Ledger.Exceeds (opposed.entries.erase ⟨0, 0⟩) ∧
      opposed.OverflowsExactly rewardOfAmount ∧
      GroupMemory.OverflowsExactly ⟨1⟩ none (some (.sum 0 amountOf)) amountOf addedUp.1
        [⟨0, 0⟩, ⟨1, 0⟩, ⟨2, 0⟩] addedUp.2 := by
  have hsum : GroupMemory.AddsUp (some (.sum 0 amountOf)) amountOf := ⟨_, false, rfl, rfl⟩
  have hlife := addedUp_rehearsed.life
  obtain ⟨hledger, hgroups⟩ := overflows_exactly opposed_kept hsum hlife
  exact ⟨opposed_kept, hsum, hlife, by decide, hledger, hgroups⟩

/-- An update overflows that leads from a total that is a score to the same total. -/
theorem update_overflows_between :
    let entry : Entry .simple := ⟨Int64.maxValue, .simple Int64.maxValue⟩
    opposed.Kept rewardOfAmount ∧ opposed.entries.get? ⟨0, 0⟩ = some entry ∧
      rewardOfAmount.matchWeight [.int64 Int64.maxValue] = .ok entry.matchWeight ∧
      rewardOfAmount.charge opposed.weight entry.matchWeight = .ok entry.score ∧
      ¬ Ledger.Exceeds opposed.entries ∧
      ¬ Ledger.Exceeds ((opposed.entries.erase ⟨0, 0⟩).insert ⟨0, 0⟩ entry) ∧
      ∃ l, Ledger.update rewardOfAmount ⟨0, 0⟩ [.int64 Int64.maxValue] opposed =
        .error (.overflow (.total rewardOfAmount.id)) l :=
  ⟨opposed_kept, by decide, rfl, by decide, by decide, by decide, _, rfl⟩

end ConstraintStreams
