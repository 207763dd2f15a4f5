import ConstraintStreams.Network.Basic
import ConstraintStreams.Proofs.Collector.Tally
import ConstraintStreams.Proofs.Operator.Bench

/-!
# Groups hold their members

The accumulator of each group has taken in exactly the members of the group, with the facts that the
node was last told they have. `GroupMemory.Since` says where the key of a group comes from, compared
with the memory at the start of a flush.
-/

namespace ConstraintStreams

mutual
/-- Numbering leaves a fact standing for what it stood for. -/
theorem Fact.identity_numberFrom : ∀ (n : Nat) (a : Fact), (a.numberFrom n).1.identity = a.identity
  | n, .entity e => by
    unfold Fact.numberFrom
    split <;> rfl
  | n, .scalar s => rfl
  | n, .list items => by
    simp only [Fact.numberFrom, Fact.identity]
    rw [Fact.identities_numberItemsFrom n items]
theorem Fact.identities_numberItemsFrom :
    ∀ (n : Nat) (items : List Fact),
      Fact.identities (Fact.numberItemsFrom n items).1 = Fact.identities items
  | n, [] => rfl
  | n, a :: rest => by
    simp only [Fact.numberItemsFrom, Fact.identities]
    rw [Fact.identity_numberFrom n a, Fact.identities_numberItemsFrom _ rest]
end

mutual
/-- A fact is numbered once and for all. -/
theorem Fact.numberFrom_numberFrom : ∀ (n n' : Nat) (a : Fact),
    ((a.numberFrom n).1.numberFrom n') = ((a.numberFrom n).1, n')
  | n, n', .entity e => by
    obtain ⟨type, id, version, attributes⟩ := e
    cases version <;> rfl
  | n, n', .scalar s => rfl
  | n, n', .list items => by
    simp only [Fact.numberFrom]
    rw [Fact.numberItemsFrom_numberItemsFrom n n' items]
theorem Fact.numberItemsFrom_numberItemsFrom : ∀ (n n' : Nat) (items : List Fact),
    Fact.numberItemsFrom n' (Fact.numberItemsFrom n items).1 = ((Fact.numberItemsFrom n items).1, n')
  | n, n', [] => rfl
  | n, n', a :: rest => by
    simp only [Fact.numberItemsFrom]
    rw [Fact.numberFrom_numberFrom n n' a, Fact.numberItemsFrom_numberItemsFrom _ n' rest]
end

/-- None of the entities in a fact is still to be numbered. -/
def Fact.IsNumbered (a : Fact) : Prop := ∀ n, (a.numberFrom n).1 = a

theorem Fact.Numbers.isNumbered {a b : Fact} (h : a.Numbers b) : b.IsNumbered := by
  obtain ⟨n, rfl⟩ := h
  intro n'
  rw [Fact.numberFrom_numberFrom n n' a]

/-- Where all items but the last are numbered already, only the last one is. -/
theorem Fact.numberItemsFrom_concat {items : List Fact} (h : ∀ a ∈ items, a.IsNumbered) (a : Fact)
    (n : Nat) : ∃ b, a.Numbers b ∧ (Fact.numberItemsFrom n (items ++ [a])).1 = items ++ [b] := by
  induction items generalizing n with
  | nil => exact ⟨_, ⟨n, rfl⟩, rfl⟩
  | cons c rest ih =>
    obtain ⟨b, hb, hitems⟩ := ih (fun d hd => h d (List.mem_cons_of_mem c hd)) (c.numberFrom n).2
    refine ⟨b, hb, ?_⟩
    show (c.numberFrom n).1 :: (Fact.numberItemsFrom (c.numberFrom n).2 (rest ++ [a])).1 = _
    rw [h c List.mem_cons_self, hitems]
    rfl

theorem Fact.Numbers.identity {a b : Fact} (h : a.Numbers b) : b.identity = a.identity := by
  obtain ⟨n, rfl⟩ := h
  exact Fact.identity_numberFrom n a

namespace GroupMemory

/-- What a key function answers for an input, numbered; nothing for the one group of a keyless
stream. -/
def Answers (key : Option (Facts → Except Error Fact)) (facts : Facts) (k : Option Fact) : Prop :=
  match key with
  | none => k = none
  | some f => ∃ a b, f facts = .ok a ∧ a.Numbers b ∧ k = some b

/-- The members of a group, with the facts that the node was told they have. -/
def deposits (members : Table TupleId Member) (told : TupleId → Option Facts) (id : GroupId) :
    Multiset Deposit :=
  Multiset.ofList (members.entries.filterMap fun e =>
    if e.2.group = id then some ((told e.1).getD [], e.2.receipt) else none)

/-- The accumulator of a group holds the given members, if the groups have a collector. -/
def Collects (collector : Option Collector) (accumulator : Option Accumulator)
    (ms : Multiset Deposit) : Prop :=
  match collector, accumulator with
  | none, none => True
  | some c, some acc => acc.Tally ms ∧ acc.blank = c.start
  | _, _ => False

/-- What a group has to show, and what it shows. -/
def Stands (group : Group) (shown : Option (Facts × Sources)) : Prop :=
  match outputFacts? group with
  | none => shown = none
  | some facts => ∃ n sources, shown = some ((Fact.numberItemsFrom n facts).1, sources)

/-- The output of each group. -/
def output? (m : GroupMemory) (id : GroupId) : Option TupleId :=
  (m.groups.get? id).bind (·.output)

/-- What holds of the memory of a grouping between signals, the groups of `dirty` being left to
settle. -/
structure Valid (key : Option (Facts → Except Error Fact)) (collector : Option Collector)
    (dirty : List GroupId) (v : View) (out : TupleId → Option (Facts × Sources))
    (m : GroupMemory) : Prop where
  held : v.Lists .only m.members
  keyed : ∀ {input member facts}, m.members.get? input = some member →
    v.told .only input = some facts →
    ∃ k, Answers key facts k ∧ k.map Fact.identity = member.group
  grouped : ∀ {input member}, m.members.get? input = some member →
    ∃ group, m.groups.get? member.group = some group
  size_eq : ∀ {id group}, m.groups.get? id = some group →
    group.size = (deposits m.members (v.told .only) id).card
  collects : ∀ {id group}, m.groups.get? id = some group →
    Collects collector group.accumulator (deposits m.members (v.told .only) id)
  named : ∀ {id group}, m.groups.get? id = some group → group.key.map Fact.identity = id
  numbered : ∀ {id group k}, m.groups.get? id = some group → group.key = some k → k.IsNumbered
  listing : Listing m.output? out
  settled : ∀ {id group}, id ∉ dirty → m.groups.get? id = some group →
    group.size ≠ 0 ∧ Stands group (outputUnder m.output? out id)

/-- Where the key of a group comes from, seen from the memory `past` at the start of the flush: it was
computed for a member that the node was told about since, or else the group had it before and the
node was told nothing about its members. -/
def Sourced (key : Option (Facts → Except Error Fact)) (past : GroupMemory) (v : View)
    (m : GroupMemory) (id : GroupId) (k : Option Fact) : Prop :=
  (∃ input member facts, m.members.get? input = some member ∧ member.group = id ∧
    v.recent .only input ∧ v.told .only input = some facts ∧ Answers key facts k) ∨
  ((∃ old, past.groups.get? id = some old ∧ old.key = k) ∧
    ∀ input member, m.members.get? input = some member → member.group = id →
      ¬ v.recent .only input)

/-- Every group that has members has its key from one of the two sources. -/
structure Since (key : Option (Facts → Except Error Fact)) (past : GroupMemory) (v : View)
    (m : GroupMemory) : Prop where
  untouched : ∀ {input}, ¬ v.recent .only input → m.members.get? input = past.members.get? input
  sourced : ∀ {id group}, m.groups.get? id = some group → group.size ≠ 0 →
    Sourced key past v m id group.key

variable {E : Error → Prop} {node : NodeId} {away : List TupleId} {g₀ g : Agenda}
  {past m m' : GroupMemory} {out out' : TupleId → Option (Facts × Sources)} {v v' : View}
  {key : Option (Facts → Except Error Fact)} {collector : Option Collector}
  {dirty dirty' : List GroupId} {input o : TupleId} {facts : Facts} {sources : Sources}
  {group group' : Group} {member : Member} {receipt : Receipt} {t : Tuple} {id : GroupId}

theorem Valid.fades (h : Valid key collector dirty v out m) (hv : View.Fades v v') :
    Valid key collector dirty v' out m where
  held := h.held.fades hv
  keyed hm ht := h.keyed hm (by rwa [← hv.told])
  grouped := h.grouped
  size_eq := by rw [hv.told]; exact h.size_eq
  collects := by rw [hv.told]; exact h.collects
  named := h.named
  numbered := h.numbered
  listing := h.listing
  settled := h.settled

theorem Since.fades (h : Since key past v m) (hv : View.Fades v v')
    (hrecent : v'.recent = v.recent) : Since key past v' m where
  untouched hr := h.untouched (by rwa [← hrecent])
  sourced hg := by
    unfold Sourced
    rw [hrecent, hv.told]
    exact h.sourced hg

theorem Valid.empty (hout : ∀ o, out o = none) (hv : ∀ side input, v.told side input = none) :
    Valid key collector dirty v out {} where
  held := .empty hv
  keyed h := by simp [EmptyCollection.emptyCollection] at h
  grouped h := by simp [EmptyCollection.emptyCollection] at h
  size_eq h := by simp [EmptyCollection.emptyCollection] at h
  collects h := by simp [EmptyCollection.emptyCollection] at h
  named h := by simp [EmptyCollection.emptyCollection] at h
  numbered h := by simp [EmptyCollection.emptyCollection] at h
  listing := .of_none (fun _ => rfl) hout
  settled _ h := by simp [EmptyCollection.emptyCollection] at h

/-- A grouping that was told nothing, and has nothing to settle, has no groups, no members and no
outputs. -/
theorem Valid.blank (h : Valid key collector m.dirty v out m)
    (hv : ∀ side input, v.told side input = none) (hdirty : m.dirty = []) :
    m = {} ∧ ∀ o, out o = none := by
  have hmembers : m.members = ∅ := h.held.eq_empty hv
  have hgroups : m.groups = ∅ := by
    refine Table.eq_empty fun id => ?_
    cases hg : m.groups.get? id with
    | none => rfl
    | some group =>
      have hsettled := (h.settled (by simp [hdirty]) hg).1
      rw [h.size_eq hg, hmembers] at hsettled
      exact absurd rfl hsettled
  have hlabel : ∀ id, m.output? id = none := fun id => by rw [output?, hgroups]; rfl
  refine ⟨?_, h.listing.out_eq_none hlabel⟩
  obtain ⟨groups, members, dirty⟩ := m
  cases hmembers
  cases hgroups
  cases hdirty
  rfl

/-- At the start of a flush nothing has changed since. -/
theorem Since.start (hv : ∀ side input, ¬ v.recent side input) : Since key m v m where
  untouched _ := rfl
  sourced hg _ := .inr ⟨⟨_, hg, rfl⟩, fun _ _ _ _ => hv _ _⟩

/-! ## Members of groups -/

variable {members : Table TupleId Member} {told told' : TupleId → Option Facts}

/-- Only what the node was told of the members counts. -/
theorem deposits_congr (h : ∀ e ∈ members.entries, told' e.1 = told e.1) (id : GroupId) :
    deposits members told' id = deposits members told id := by
  unfold deposits
  congr 1
  refine List.filterMap_congr fun e he => ?_
  rw [h e he]

theorem deposits_insert (hnew : members.get? input = none) (htold : told' input = some facts)
    (hother : ∀ x, input ≠ x → told' x = told x) (id : GroupId) :
    deposits (members.insert input member) told' id =
      if member.group = id then (facts, member.receipt) ::ₘ deposits members told id
      else deposits members told id := by
  have hold : deposits members told' id = deposits members told id := by
    refine deposits_congr (fun e he => hother e.1 ?_) id
    rintro rfl
    have := Table.get?_eq_some_iff.2 he
    rw [hnew] at this
    cases this
  rw [← hold]
  unfold deposits
  rw [Table.entries_insert_of_none hnew, List.filterMap_append, ← Multiset.coe_add,
    Multiset.add_comm]
  split
  · next he => simp [he, htold]
  · next hne => simp [hne]

theorem deposits_erase (hold : members.get? input = some member) (htold : told input = some facts)
    (hother : ∀ x, input ≠ x → told' x = told x) (id : GroupId) :
    deposits members told id =
      if member.group = id then (facts, member.receipt) ::ₘ deposits (members.erase input) told' id
      else deposits (members.erase input) told' id := by
  have hrest : deposits (members.erase input) told' id = deposits (members.erase input) told id := by
    refine deposits_congr (fun e he => hother e.1 ?_) id
    rintro rfl
    have := Table.get?_eq_some_iff.2 he
    rw [Table.get?_erase, if_pos rfl] at this
    cases this
  rw [hrest]
  unfold deposits
  rw [Multiset.coe_eq_coe.2 ((Table.entries_perm_erase hold).filterMap _)]
  split
  · next he => simp [he, htold]
  · next hne => simp [hne]

theorem deposits_erase_drop (hold : members.get? input = some member)
    (htold : v.told .only input = some facts) (id : GroupId) :
    deposits members (v.told .only) id =
      if member.group = id then (facts, member.receipt) ::ₘ
        deposits (members.erase input) ((v.drop .only input).told .only) id
      else deposits (members.erase input) ((v.drop .only input).told .only) id :=
  deposits_erase hold htold (fun _ hx => if_neg fun he => hx he.2) id

theorem mem_deposits (told : TupleId → Option Facts) (hm : members.get? input = some member) :
    ((told input).getD [], member.receipt) ∈ deposits members told member.group := by
  unfold deposits
  rw [Multiset.mem_coe, List.mem_filterMap]
  exact ⟨(input, member), Table.get?_eq_some_iff.1 hm, by simp⟩

/-! ## One group with its members -/

theorem Answers.isNumbered {b : Fact} (h : Answers key facts (some b)) : b.IsNumbered := by
  cases key with
  | none => cases h
  | some f =>
    obtain ⟨a, b', -, hnumbers, heq⟩ := h
    cases heq
    exact hnumbers.isNumbered

/-- An accumulator that has just been started holds no members. -/
theorem Collects.start (collector : Option Collector) :
    Collects collector (collector.map (·.start)) 0 := by
  cases collector with
  | none => trivial
  | some c =>
    have hblank := Accumulator.tally_blank c.start
    rw [c.blank_start] at hblank
    exact ⟨hblank, c.blank_start⟩

/-- A group counts the given members and has collected them, and its key, once a member has brought
one, is the numbered fact that the group stands for. -/
structure Gathers (collector : Option Collector) (ms : Multiset Deposit) (id : GroupId)
    (group : Group) : Prop where
  size_eq : group.size = ms.card
  collects : Collects collector group.accumulator ms
  named : ∀ {b}, group.key = some b → some b.identity = id
  numbered : ∀ {b}, group.key = some b → b.IsNumbered

variable {ms : Multiset Deposit}

theorem Gathers.start (id : GroupId) :
    Gathers collector 0 id { accumulator := collector.map (·.start) } where
  size_eq := rfl
  collects := .start collector
  named h := by cases h
  numbered h := by cases h

/-- The group of the inputs without a key has no key. -/
theorem Gathers.key_eq_none (h : Gathers collector ms none group) : group.key = none := by
  cases hkey : group.key with
  | none => rfl
  | some b => cases h.named hkey

theorem Gathers.key_or {k : Option Fact} (h : Gathers collector ms (k.map Fact.identity) group) :
    (k.or group.key).map Fact.identity = k.map Fact.identity := by
  cases k with
  | some b => rfl
  | none => rw [h.key_eq_none]; rfl

theorem Gathers.enter {k : Option Fact} (h : Gathers collector ms (k.map Fact.identity) group)
    (hk : Answers key facts k) {accumulator : Option Accumulator}
    (hcollects : Collects collector group.accumulator ms →
      Collects collector accumulator ((facts, receipt) ::ₘ ms)) :
    Gathers collector ((facts, receipt) ::ₘ ms) (k.map Fact.identity)
      { group with accumulator, size := group.size + 1, key := k.or group.key } where
  size_eq := by rw [Multiset.card_cons, ← h.size_eq]
  collects := hcollects h.collects
  named {b} hb := by
    have hor : k.or group.key = some b := hb
    rw [← h.key_or, hor]
    rfl
  numbered := by
    intro b hb
    cases k with
    | some a => cases hb; exact hk.isNumbered
    | none => exact h.numbered hb

theorem Gathers.leave (h : Gathers collector ((facts, receipt) ::ₘ ms) id group)
    {accumulator : Option Accumulator}
    (hcollects : Collects collector group.accumulator ((facts, receipt) ::ₘ ms) →
      Collects collector accumulator ms) :
    Gathers collector ms id { group with accumulator, size := group.size - 1 } where
  size_eq := by simp [h.size_eq]
  collects := hcollects h.collects
  named := h.named
  numbered := h.numbered

theorem Valid.gathers (h : Valid key collector dirty v out m) (hg : m.groups.get? id = some group) :
    Gathers collector (deposits m.members (v.told .only) id) id group where
  size_eq := h.size_eq hg
  collects := h.collects hg
  named hb := by rw [← h.named hg, hb]; rfl
  numbered := h.numbered hg

/-- A group that is not there has no members. -/
theorem Valid.deposits_eq_zero (h : Valid key collector dirty v out m)
    (hg : m.groups.get? id = none) : deposits m.members (v.told .only) id = 0 := by
  rw [Multiset.eq_zero_iff_forall_notMem]
  intro p hp
  unfold deposits at hp
  rw [Multiset.mem_coe, List.mem_filterMap] at hp
  obtain ⟨e, he, hp⟩ := hp
  split at hp
  · next hid =>
    obtain ⟨d, hd⟩ := h.grouped (Table.get?_eq_some_iff.2 he)
    rw [hid, hg] at hd
    cases hd
  · cases hp

/-- The group that an input enters, a new one if there is none yet. -/
theorem Valid.gathers_getD (h : Valid key collector dirty v out m) (id : GroupId) :
    Gathers collector (deposits m.members (v.told .only) id) id
      ((m.groups.get? id).getD { accumulator := collector.map (·.start) }) := by
  cases hg : m.groups.get? id with
  | some group => exact h.gathers hg
  | none =>
    rw [h.deposits_eq_zero hg]
    exact .start id

theorem output?_eq_getD (m : GroupMemory) (id : GroupId) (accumulator : Option Accumulator) :
    m.output? id = ((m.groups.get? id).getD { accumulator }).output := by
  unfold output?
  cases m.groups.get? id <;> rfl

/-- One group is replaced and left to settle; the others keep what they have. -/
theorem Valid.replace (h : Valid key collector dirty v out m) {id : GroupId} {group : Group}
    (hgroups : ∀ i, m'.groups.get? i = if id = i then some group else m.groups.get? i)
    (houtput : m.output? id = group.output) (hheld : v'.Lists .only m'.members)
    (hkeyed : ∀ {input member facts}, m'.members.get? input = some member →
      v'.told .only input = some facts →
      ∃ k, Answers key facts k ∧ k.map Fact.identity = member.group)
    (hgrouped : ∀ {input member}, m'.members.get? input = some member → id ≠ member.group →
      ∃ group, m.groups.get? member.group = some group)
    (hgathers : Gathers collector (deposits m'.members (v'.told .only) id) id group)
    (hnamed : group.key.map Fact.identity = id)
    (hother : ∀ i, id ≠ i →
      deposits m'.members (v'.told .only) i = deposits m.members (v.told .only) i)
    (hdirty : ∀ i, i ∉ dirty' → id ≠ i ∧ i ∉ dirty) :
    Valid key collector dirty' v' out m' := by
  have hlabel : m'.output? = m.output? := by
    funext i
    show (m'.groups.get? i).bind _ = _
    rw [hgroups]
    split
    · next he => rw [← he, houtput]; rfl
    · rfl
  -- A group is the one that is replaced or one of the old ones.
  have hback : ∀ {i d}, m'.groups.get? i = some d →
      (id = i ∧ d = group) ∨ (id ≠ i ∧ m.groups.get? i = some d) := by
    intro i d hd
    rw [hgroups] at hd
    split at hd
    · next he => exact .inl ⟨he, (Option.some.inj hd).symm⟩
    · next hne => exact .inr ⟨hne, hd⟩
  refine {
    held := hheld
    keyed := hkeyed
    grouped := fun {x d} hx => ?grouped
    size_eq := fun {i d} hd => ?size_eq
    collects := fun {i d} hd => ?collects
    named := fun {i d} hd => ?named
    numbered := fun {i d b} hd hb => ?numbered
    listing := by rw [hlabel]; exact h.listing
    settled := fun {i d} hi hd => ?settled }
  case grouped =>
    rw [hgroups]
    split
    · exact ⟨group, rfl⟩
    · next hne => exact hgrouped hx hne
  case size_eq =>
    obtain ⟨rfl, rfl⟩ | ⟨hne, hd⟩ := hback hd
    · exact hgathers.size_eq
    · rw [hother i hne]; exact h.size_eq hd
  case collects =>
    obtain ⟨rfl, rfl⟩ | ⟨hne, hd⟩ := hback hd
    · exact hgathers.collects
    · rw [hother i hne]; exact h.collects hd
  case named =>
    obtain ⟨rfl, rfl⟩ | ⟨-, hd⟩ := hback hd
    · exact hnamed
    · exact h.named hd
  case numbered =>
    obtain ⟨rfl, rfl⟩ | ⟨-, hd⟩ := hback hd
    · exact hgathers.numbered hb
    · exact h.numbered hd hb
  case settled =>
    obtain ⟨hne, hi'⟩ := hdirty i hi
    rw [hgroups, if_neg hne] at hd
    rw [hlabel]
    exact h.settled hi' hd

/-- A member enters a group. -/
theorem Valid.enter (h : Valid key collector dirty v out m) (hnew : ¬ v.Held .only input)
    {k : Option Fact} (hk : Answers key facts k)
    (hgroup : group = (m.groups.get? (k.map Fact.identity)).getD
      { accumulator := collector.map (·.start) })
    {accumulator : Option Accumulator}
    (hcollects : ∀ ms, Collects collector group.accumulator ms →
      Collects collector accumulator ((facts, receipt) ::ₘ ms))
    (hgroups : ∀ i, m'.groups.get? i = if k.map Fact.identity = i then
      some { group with accumulator, size := group.size + 1, key := k.or group.key }
      else m.groups.get? i)
    (hmembers : m'.members = m.members.insert input ⟨k.map Fact.identity, receipt⟩)
    (hdirty : ∀ i, i ∉ dirty' → k.map Fact.identity ≠ i ∧ i ∉ dirty) :
    Valid key collector dirty' (v.tell .only input facts) out m' := by
  have hdeposits (i : GroupId) :
      deposits m'.members ((v.tell .only input facts).told .only) i =
        if k.map Fact.identity = i then (facts, receipt) ::ₘ deposits m.members (v.told .only) i
        else deposits m.members (v.told .only) i := by
    rw [hmembers]
    exact deposits_insert (h.held.get?_none hnew) (if_pos ⟨rfl, rfl⟩)
      (fun x hx => if_neg fun he => hx he.2) i
  have hgathers := h.gathers_getD (k.map Fact.identity)
  rw [← hgroup] at hgathers
  refine h.replace hgroups ?output ?held ?keyed ?grouped ?gathers hgathers.key_or
    (fun i hne => (hdeposits i).trans (if_neg hne)) hdirty
  case output => rw [m.output?_eq_getD _ (collector.map (·.start)), ← hgroup]
  case held =>
    rw [hmembers]
    exact h.held.insert facts _
  case keyed =>
    intro x d f hx hf
    rw [hmembers, Table.get?_insert] at hx
    split at hx
    · next he =>
      subst he
      cases hx
      rw [show (v.tell .only input facts).told .only input = some facts from if_pos ⟨rfl, rfl⟩] at hf
      cases hf
      exact ⟨k, hk, rfl⟩
    · next hne =>
      rw [show (v.tell .only input facts).told .only x = v.told .only x from
        if_neg fun he => hne he.2] at hf
      exact h.keyed hx hf
  case grouped =>
    intro x d hx hne
    rw [hmembers, Table.get?_insert] at hx
    split at hx
    · cases hx; exact absurd rfl hne
    · exact h.grouped hx
  case gathers =>
    rw [hdeposits, if_pos rfl]
    exact hgathers.enter hk (hcollects _)

/-- A member leaves its group. -/
theorem Valid.leave (h : Valid key collector dirty v out m)
    (hm : m.members.get? input = some member) (htold : v.told .only input = some facts)
    (hg : m.groups.get? member.group = some group) {accumulator : Option Accumulator}
    (hcollects : ∀ ms, Collects collector group.accumulator ((facts, member.receipt) ::ₘ ms) →
      Collects collector accumulator ms)
    (hgroups : ∀ i, m'.groups.get? i = if member.group = i then
      some { group with accumulator, size := group.size - 1 } else m.groups.get? i)
    (hmembers : m'.members = m.members.erase input)
    (hdirty : ∀ i, i ∉ dirty' → member.group ≠ i ∧ i ∉ dirty) :
    Valid key collector dirty' (v.drop .only input) out m' := by
  have hdeposits := deposits_erase_drop hm htold
  have hgathers := h.gathers hg
  rw [hdeposits, if_pos rfl, ← hmembers] at hgathers
  have hnamed : group.key.map Fact.identity = member.group := h.named hg
  refine h.replace hgroups ?output ?held ?keyed ?grouped (hgathers.leave (hcollects _)) hnamed
    ?other hdirty
  case output => simp [output?, hg]
  case held =>
    rw [hmembers]
    exact h.held.erase
  case keyed =>
    intro x d f hx hf
    rw [hmembers, Table.get?_erase] at hx
    split at hx
    · cases hx
    · next hne =>
      rw [show (v.drop .only input).told .only x = v.told .only x from
        if_neg fun he => hne he.2] at hf
      exact h.keyed hx hf
  case grouped =>
    intro x d hx _
    rw [hmembers, Table.get?_erase] at hx
    split at hx
    · cases hx
    · exact h.grouped hx
  case other =>
    intro i hne
    rw [hmembers, hdeposits, if_neg hne]

theorem Since.enter (h : Since key past v m) {k : Option Fact} (hk : Answers key facts k)
    {accumulator : Option Accumulator} {size : Nat}
    (hgroups : ∀ i, m'.groups.get? i = if k.map Fact.identity = i then
      some { group with accumulator, size, key := k.or group.key } else m.groups.get? i)
    (hkey : k = none → group.key = none)
    (hmembers : m'.members = m.members.insert input ⟨k.map Fact.identity, receipt⟩)
    (hnew : m.members.get? input = none) :
    Since key past (v.tell .only input facts) m' := by
  have hrecent : ∀ {x}, (v.tell .only input facts).recent .only x ↔
      input = x ∨ v.recent .only x := by simp [View.tell]
  constructor
  · intro x hx
    rw [hrecent, not_or] at hx
    rw [hmembers, Table.get?_insert, if_neg hx.1]
    exact h.untouched hx.2
  · intro i d hd hsize
    rw [hgroups] at hd
    split at hd
    · next he =>
      cases hd
      refine .inl ⟨input, ⟨k.map Fact.identity, receipt⟩, facts, ?_, he, hrecent.2 (.inl rfl),
        if_pos ⟨rfl, rfl⟩, ?_⟩
      · rw [hmembers, Table.get?_insert, if_pos rfl]
      · cases k with
        | some b => exact hk
        | none => rw [hkey rfl]; exact hk
    · next hne =>
      have hother : ∀ {x}, input = x → m.members.get? x = none := by
        rintro x rfl
        exact hnew
      rcases h.sourced hd hsize with ⟨x, member, f, hx, hid, hr, ht, ha⟩ | ⟨hold, hquiet⟩
      · have hix : input ≠ x := fun he => by rw [hother he] at hx; cases hx
        refine .inl ⟨x, member, f, ?_, hid, hrecent.2 (.inr hr), ?_, ha⟩
        · rw [hmembers, Table.get?_insert, if_neg hix, hx]
        · exact (if_neg fun he => hix he.2).trans ht
      · refine .inr ⟨hold, fun x member hx hid => ?_⟩
        rw [hmembers, Table.get?_insert] at hx
        split at hx
        · cases hx; exact absurd hid hne
        · next hix =>
          rw [hrecent, not_or]
          exact ⟨hix, hquiet x member hx hid⟩

theorem Since.leave (h : Since key past v m)
    (hg : m.groups.get? member.group = some group) {accumulator : Option Accumulator} {size : Nat}
    (hgroups : ∀ i, m'.groups.get? i = if member.group = i then
      some { group with accumulator, size } else m.groups.get? i)
    (hsize : size ≠ 0 → group.size ≠ 0)
    (hmembers : m'.members = m.members.erase input) (hrecent : ¬ v.recent .only input) :
    Since key past (v.drop .only input) m' := by
  have hrecent' : ∀ {x}, (v.drop .only input).recent .only x ↔
      input = x ∨ v.recent .only x := by simp [View.drop]
  -- The member that is gone has not brought the key of any group.
  have hkept : ∀ {i k}, Sourced key past v m i k → Sourced key past (v.drop .only input) m' i k := by
    rintro i k (⟨x, d, f, hx, hid, hr, ht, ha⟩ | ⟨hold, hquiet⟩)
    · have hix : input ≠ x := fun he => hrecent (he ▸ hr)
      refine .inl ⟨x, d, f, ?_, hid, hrecent'.2 (.inr hr), ?_, ha⟩
      · rw [hmembers, Table.get?_erase, if_neg hix, hx]
      · exact (if_neg fun he => hix he.2).trans ht
    · refine .inr ⟨hold, fun x d hx hid => ?_⟩
      rw [hmembers, Table.get?_erase] at hx
      split at hx
      · cases hx
      · next hix =>
        rw [hrecent', not_or]
        exact ⟨hix, hquiet x d hx hid⟩
  constructor
  · intro x hx
    rw [hrecent', not_or] at hx
    rw [hmembers, Table.get?_erase, if_neg hx.1]
    exact h.untouched hx.2
  · intro i d hd hpos
    rw [hgroups] at hd
    split at hd
    · next he =>
      cases hd
      have hold := h.sourced hg (hsize hpos)
      rw [he] at hold
      exact hkept hold
    · exact hkept (h.sourced hd hpos)

/-! ## Operations -/

/-- Other numbers for new versions touch no tuple. -/
theorem bench_renumber (hb : Bench node away g₀ g) (n : Nat) :
    Bench node away g₀ { g with nextVersion := n } where
  sound := { hb.sound with store := hb.sound.store }
  evolves := { hb.evolves with limits := hb.evolves.limits }
  registered := hb.registered

theorem keyOf_spec (hb : Bench node away g₀ g)
    (hkey : ∀ f e, key = some f → f facts = .error e → E e)
    {Q : Option Fact → Workbench GroupMemory → Prop}
    (hQ : ∀ k g', Bench node away g₀ g' → (∀ x, g'.openAt node x = g.openAt node x) →
      Answers key facts k → Q k ⟨m, g'⟩) :
    Action.Ensures E (keyOf key facts) ⟨m, g⟩ Q := by
  unfold keyOf
  cases key with
  | none => exact hQ none g hb (fun _ => rfl) rfl
  | some f =>
    dsimp only
    rw [Action.ensures_bind, Action.ensures_lift]
    refine ⟨fun a ha => ?_, fun e he => hkey f e rfl he⟩
    rw [Action.ensures_bind]
    refine hb.number fun n g' hb' hsame => ?_
    exact hQ _ g' hb' hsame ⟨a, (a.numberFrom n).1, ha, ⟨n, rfl⟩, rfl⟩

theorem collect_spec {accumulator : Option Accumulator} {ms : Multiset Deposit}
    (hb : Bench node away g₀ g) (hcollects : Collects collector accumulator ms)
    (hsafe : ∀ c, collector = some c → c.start.Safe E) (hoverflow : ∀ site, E (.overflow site))
    {Q : Option Accumulator × Receipt → Workbench GroupMemory → Prop}
    (hQ : ∀ accumulator' receipt g', Bench node away g₀ g' →
      (∀ x, g'.openAt node x = g.openAt node x) →
      (∀ ms, Collects collector accumulator ms →
        Collects collector accumulator' ((facts, receipt) ::ₘ ms)) →
      Q (accumulator', receipt) ⟨m, g'⟩) :
    Action.Ensures E (collect facts accumulator) ⟨m, g⟩ Q := by
  unfold collect
  cases accumulator with
  | none =>
    refine hQ none .unit g hb (fun _ => rfl) fun ms h => ?_
    cases collector with
    | none => trivial
    | some c => exact h.elim
  | some acc =>
    cases collector with
    | none => exact hcollects.elim
    | some c =>
      obtain ⟨htally, hblank⟩ := hcollects
      have hacc : acc.Safe E := by
        rw [← Accumulator.safe_blank, hblank]
        exact hsafe c rfl
      dsimp only
      rw [Action.ensures_bind, Action.ensures_get, Action.ensures_bind, Action.ensures_lift]
      refine ⟨fun ⟨acc', receipt, n⟩ hi => ?_, fun e hi =>
        Accumulator.insert_error htally hacc hoverflow hi⟩
      refine hQ (some acc') receipt _ (bench_renumber hb n) (fun _ => rfl) fun ms h => ?_
      obtain ⟨ht, hs⟩ := Accumulator.tally_insert h.1 hi
      exact ⟨ht, hs.trans h.2⟩

theorem giveBack_spec {accumulator : Option Accumulator} {ms : Multiset Deposit}
    {w : Workbench GroupMemory} (hcollects : Collects collector accumulator ((facts, receipt) ::ₘ ms))
    (hsafe : ∀ c, collector = some c → c.start.Safe E) (hoverflow : ∀ site, E (.overflow site))
    {Q : Option Accumulator → Workbench GroupMemory → Prop}
    (hQ : ∀ accumulator', (∀ ms, Collects collector accumulator ((facts, receipt) ::ₘ ms) →
      Collects collector accumulator' ms) → Q accumulator' w) :
    Action.Ensures E
      (accumulator.mapM fun a => (liftM (a.retract receipt) : Work GroupMemory Accumulator)) w Q := by
  cases accumulator with
  | none =>
    refine hQ none fun ms h => ?_
    cases collector with
    | none => trivial
    | some c => exact h.elim
  | some acc =>
    cases collector with
    | none => exact hcollects.elim
    | some c =>
      have hacc : acc.Safe E := by
        rw [← Accumulator.safe_blank, hcollects.2]
        exact hsafe c rfl
      have hspec {ms} (h : acc.Tally ((facts, receipt) ::ₘ ms)) :=
        Accumulator.tally_retract h (hacc.givesBack hoverflow)
      show Action.Ensures E (some <$> liftM (acc.retract receipt)) w Q
      rw [Action.ensures_map, Action.ensures_lift]
      refine ⟨fun acc' hr => hQ (some acc') fun ms h => ?_, fun e hr => ?_⟩
      · have := hspec h.1
        rw [hr] at this
        exact ⟨this.1, this.2.trans h.2⟩
      · have := hspec hcollects.1
        rwa [hr] at this

theorem insert_spec (hb : Bench node away g₀ g)
    (hv : Valid key collector m.dirty v (g.openAt node) m) (hsince : Since key past v m)
    (hnew : ¬ v.Held .only input) (ht : g₀.find? input = some t) (hne : t.node ≠ node)
    (hkey : ∀ f facts e, key = some f → f facts = .error e → E e)
    (hsafe : ∀ c, collector = some c → c.start.Safe E) (hoverflow : ∀ site, E (.overflow site)) :
    Action.Ensures E (insert key collector input) ⟨m, g⟩ fun _ w' =>
      Bench node away g₀ w'.agenda ∧
        Valid key collector w'.memory.dirty (v.tell .only input t.facts) (w'.agenda.openAt node)
          w'.memory ∧ Since key past (v.tell .only input t.facts) w'.memory := by
  unfold insert setGroup
  rw [Action.ensures_bind, hb.ensures_inputFacts ht hne, Action.ensures_bind]
  refine keyOf_spec hb (fun f e hf => hkey f t.facts e hf) fun k g₁ hb₁ hsame₁ hk => ?_
  simp only [Action.ensures_bind, Bench.ensures_memory, Bench.ensures_modifyMemory]
  generalize hgroup : (m.groups.get? (k.map Fact.identity)).getD
    { accumulator := collector.map (·.start) } = group
  have hgathers := hv.gathers_getD (k.map Fact.identity)
  rw [hgroup] at hgathers
  refine collect_spec hb₁ hgathers.collects hsafe hoverflow fun acc' receipt g₂ hb₂ hsame₂ hgrow => ?_
  have hout : g₂.openAt node = g.openAt node := funext fun x => (hsame₂ x).trans (hsame₁ x)
  simp only [Bench.ensures_modifyMemory, hout]
  have hgroups := m.groups.get?_insert_insert (k.map Fact.identity) group
    { group with accumulator := acc', size := group.size + 1, key := k.or group.key }
  refine ⟨hb₂, hv.enter hnew hk hgroup.symm hgrow hgroups rfl fun i hi => ?_, ?_⟩
  · rw [List.mem_insert_iff, not_or] at hi
    exact ⟨Ne.symm hi.1, hi.2⟩
  · refine hsince.enter hk hgroups (fun hnone => ?_) rfl (hv.held.get?_none hnew)
    subst hnone
    exact hgathers.key_eq_none

theorem retract_spec (hb : Bench node away g₀ g)
    (hv : Valid key collector m.dirty v (g.openAt node) m) (hsince : Since key past v m)
    (hheld : v.Held .only input) (hrecent : ¬ v.recent .only input)
    (hsafe : ∀ c, collector = some c → c.start.Safe E) (hoverflow : ∀ site, E (.overflow site)) :
    Action.Ensures E (retract input) ⟨m, g⟩ fun _ w' =>
      Bench node away g₀ w'.agenda ∧
        Valid key collector w'.memory.dirty (v.drop .only input) (w'.agenda.openAt node)
          w'.memory ∧ Since key past (v.drop .only input) w'.memory := by
  obtain ⟨member, hm⟩ := hv.held.get?_some hheld
  obtain ⟨facts, htold⟩ := Option.isSome_iff_exists.1 hheld
  obtain ⟨group, hg⟩ := hv.grouped hm
  have hmem := mem_deposits (v.told .only) hm
  rw [htold] at hmem
  have hpos : ¬ group.size < 1 := by
    have hsize := hv.size_eq hg
    have := Multiset.card_pos_iff_exists_mem.2 ⟨_, hmem⟩
    omega
  unfold retract setGroup
  simp only [Action.ensures_bind, Bench.ensures_memory, hm, Bench.ensures_setMemory, hg]
  have hcollects := hv.collects hg
  rw [deposits_erase_drop hm htold member.group, if_pos rfl] at hcollects
  refine giveBack_spec hcollects hsafe hoverflow fun accumulator hgrow => ?_
  rw [Action.ensures_lift]
  simp only [countDown, if_neg hpos, reduceCtorEq, false_implies, implies_true, and_true,
    Except.ok.injEq, forall_eq', Bench.ensures_modifyMemory]
  have hgroups := (m.groups.get?_insert member.group ·
    { group with accumulator, size := group.size - 1 })
  refine ⟨hb, hv.leave hm htold hg hgrow hgroups rfl fun i hi => ?_, ?_⟩
  · rw [List.mem_insert_iff, not_or] at hi
    exact ⟨Ne.symm hi.1, hi.2⟩
  · exact hsince.leave hg hgroups (by omega) rfl hrecent

/-- On each signal, a grouping brings the group of the input up to date. -/
theorem signal_spec (hb : Bench node away g₀ g)
    (hv : Valid key collector m.dirty v (g.openAt node) m) (hsince : Since key past v m)
    {signal : Signal} (hexpects : v.Expects signal .only input) (hrecent : ¬ v.recent .only input)
    (ht : g₀.find? input = some t) (hne : t.node ≠ node)
    (hkey : ∀ f facts e, key = some f → f facts = .error e → E e)
    (hsafe : ∀ c, collector = some c → c.start.Safe E) (hoverflow : ∀ site, E (.overflow site)) :
    Action.Ensures E (Network.signalGroup key collector input signal) ⟨m, g⟩ fun _ w' =>
      Bench node away g₀ w'.agenda ∧
        Valid key collector w'.memory.dirty (v.after signal .only input t.facts)
          (w'.agenda.openAt node) w'.memory ∧
        Since key past (v.after signal .only input t.facts) w'.memory := by
  cases signal with
  | insert =>
    exact insert_spec hb hv hsince (fun h => hexpects.1 h rfl) ht hne hkey hsafe hoverflow
  | update =>
    show Action.Ensures E (update key collector input) ⟨m, g⟩ _
    unfold update
    rw [Action.ensures_bind]
    refine (retract_spec hb hv hsince (hexpects.2 (by simp)) hrecent hsafe hoverflow).mono
      fun _ w' ⟨hb', hv', hsince'⟩ => ?_
    refine (insert_spec hb' hv' hsince' (by simp) ht hne hkey hsafe hoverflow).mono
      fun _ w'' h => ?_
    rwa [View.tell_drop] at h
  | retract => exact retract_spec hb hv hsince (hexpects.2 (by simp)) hrecent hsafe hoverflow

/-! ## Settling outputs -/

/-- At most the output of one group is another. -/
structure SetOutput (id : GroupId) (group : Group) (output : Option TupleId) (m m' : GroupMemory) :
    Prop where
  members : m'.members = m.members
  old : m.groups.get? id = some group
  groups : ∀ i, m'.groups.get? i =
    if id = i then some { group with output } else m.groups.get? i

theorem SetOutput.refl (hg : m.groups.get? id = some group) :
    SetOutput id group group.output m m where
  members := rfl
  old := hg
  groups i := by
    split
    · next he => rw [← he, hg]
    · rfl

theorem SetOutput.insert (hg : m.groups.get? id = some group) (output : Option TupleId) :
    SetOutput id group output m { m with groups := m.groups.insert id { group with output } } where
  members := rfl
  old := hg
  groups i := m.groups.get?_insert id i _

variable {output : Option TupleId}

theorem SetOutput.label (hset : SetOutput id group output m m') (i : GroupId) :
    m'.output? i = if id = i then output else m.output? i := by
  unfold output?
  rw [hset.groups]
  split <;> rfl

/-- Every group is as it was but for its output. -/
theorem SetOutput.back (hset : SetOutput id group output m m') {i : GroupId} {d : Group}
    (hd : m'.groups.get? i = some d) : ∃ d', m.groups.get? i = some d' ∧ d.size = d'.size ∧
      d.accumulator = d'.accumulator ∧ d.key = d'.key := by
  rw [hset.groups] at hd
  split at hd
  · next he =>
    subst he
    cases hd
    exact ⟨group, hset.old, rfl, rfl, rfl⟩
  · exact ⟨d, hd, rfl, rfl, rfl⟩

theorem Stands.of_facts (h : outputFacts? group = some facts) (n : Nat) (sources : Sources) :
    Stands group (some ((Fact.numberItemsFrom n facts).1, sources)) := by
  simp only [Stands, h]
  exact ⟨n, sources, rfl⟩

theorem Stands.of_nothing (h : outputFacts? group = none) : Stands group none := by
  simp only [Stands, h]

/-- A group that has members is settled when it shows what it has to show. -/
theorem Valid.setOutput {rest : List GroupId} (h : Valid key collector (id :: rest) v out m)
    (hset : SetOutput id group output m m') (hsize : group.size ≠ 0)
    (hlisting : Listing m'.output? out') {shown : Option (Facts × Sources)}
    (hshown : ∀ i, outputUnder m'.output? out' i =
      if id = i then shown else outputUnder m.output? out i)
    (hstands : Stands group shown) : Valid key collector rest v out' m' where
  held := by
    rw [hset.members]
    exact h.held
  keyed := by
    rw [hset.members]
    exact h.keyed
  grouped := by
    intro x d hx
    rw [hset.members] at hx
    rw [hset.groups]
    split
    · exact ⟨_, rfl⟩
    · exact h.grouped hx
  size_eq := by
    intro i d hd
    obtain ⟨d', hd', hs, -, -⟩ := hset.back hd
    rw [hset.members, hs]
    exact h.size_eq hd'
  collects := by
    intro i d hd
    obtain ⟨d', hd', -, ha, -⟩ := hset.back hd
    rw [hset.members, ha]
    exact h.collects hd'
  named := by
    intro i d hd
    obtain ⟨d', hd', -, -, hk⟩ := hset.back hd
    rw [hk]
    exact h.named hd'
  numbered := by
    intro i d b hd hb
    obtain ⟨d', hd', -, -, hk⟩ := hset.back hd
    exact h.numbered hd' (hk ▸ hb)
  listing := hlisting
  settled := by
    intro i d hi hd
    rw [hset.groups] at hd
    rw [hshown]
    split at hd
    · next he =>
      cases hd
      rw [if_pos he]
      exact ⟨hsize, hstands⟩
    · next hne =>
      rw [if_neg hne]
      exact h.settled (List.not_mem_cons_of_ne_of_not_mem (Ne.symm hne) hi) hd

theorem Since.setOutput (h : Since key past v m) (hset : SetOutput id group output m m') :
    Since key past v m' where
  untouched := by
    rw [hset.members]
    exact h.untouched
  sourced := by
    intro i d hd hsize
    obtain ⟨d', hd', hs, -, hk⟩ := hset.back hd
    unfold Sourced
    rw [hset.members, hk]
    exact h.sourced hd' (hs ▸ hsize)

/-- A group without members is forgotten. -/
theorem Valid.forget {rest : List GroupId} (h : Valid key collector (id :: rest) v out m)
    (hg : m.groups.get? id = some group) (hsize : group.size = 0)
    (hmembers : m'.members = m.members)
    (hget : ∀ i, m'.groups.get? i = if id = i then none else m.groups.get? i)
    (hout : ∀ o, out' o = if m.output? id = some o then none else out o) :
    Valid key collector rest v out' m' := by
  have hlabel (i : GroupId) : m'.output? i = if id = i then none else m.output? i := by
    unfold output?
    rw [hget]
    split <;> rfl
  -- The groups that are left are old ones.
  have hback : ∀ {i d}, m'.groups.get? i = some d → id ≠ i ∧ m.groups.get? i = some d := by
    intro i d hd
    rw [hget] at hd
    split at hd
    · cases hd
    · next hne => exact ⟨hne, hd⟩
  refine {
    held := hmembers ▸ h.held
    keyed := hmembers ▸ h.keyed
    grouped := fun {x d} hx => ?grouped
    size_eq := fun hd => hmembers ▸ h.size_eq (hback hd).2
    collects := fun hd => hmembers ▸ h.collects (hback hd).2
    named := fun hd => h.named (hback hd).2
    numbered := fun hd => h.numbered (hback hd).2
    listing := h.listing.clear hlabel hout
    settled := fun {i d} hi hd => ?settled }
  case grouped =>
    rw [hmembers] at hx
    rw [hget, if_neg]
    · exact h.grouped hx
    · rintro rfl
      have hpos := Multiset.card_pos_iff_exists_mem.2 ⟨_, mem_deposits (v.told .only) hx⟩
      have hcard := h.size_eq hg
      omega
  case settled =>
    obtain ⟨hne, hd⟩ := hback hd
    rw [h.listing.outputUnder_clear hlabel hout, if_neg hne]
    exact h.settled (List.not_mem_cons_of_ne_of_not_mem (Ne.symm hne) hi) hd

theorem Since.forget (h : Since key past v m) (hmembers : m'.members = m.members)
    (hget : ∀ i, m'.groups.get? i = if id = i then none else m.groups.get? i) :
    Since key past v m' where
  untouched := by
    rw [hmembers]
    exact h.untouched
  sourced := by
    intro i d hd hsize
    rw [hget] at hd
    unfold Sourced
    rw [hmembers]
    split at hd
    · cases hd
    · exact h.sourced hd hsize

theorem settle_spec {rest : List GroupId} (hb : Bench node away g₀ g)
    (hv : Valid key collector (id :: rest) v (g.openAt node) m) (hsince : Since key past v m)
    (hlimit : ∀ limit details, E (.resourceLimit limit details)) :
    Action.Ensures E (settle node id) ⟨m, g⟩ fun _ w' =>
      Bench node away g₀ w'.agenda ∧ w'.memory.dirty = m.dirty ∧
        Valid key collector rest v (w'.agenda.openAt node) w'.memory ∧
        Since key past v w'.memory := by
  unfold settle setGroup
  rw [Action.ensures_bind, Bench.ensures_memory]
  split
  · next hnone =>
    refine ⟨hb, rfl, { hv with settled := fun {i d} hi hd => ?_ }, hsince⟩
    have hne : id ≠ i := fun he => by rw [← he, hnone] at hd; cases hd
    exact hv.settled (List.not_mem_cons_of_ne_of_not_mem (Ne.symm hne) hi) hd
  · next group hg =>
    have hlabel : m.output? id = group.output := by simp [output?, hg]
    split
    · next hsize =>
      split
      · next o houtput =>
        have hlisted : m.output? id = some o := hlabel.trans houtput
        obtain ⟨e, hopen⟩ := hv.listing.opened hlisted
        simp only [Action.ensures_bind, Bench.ensures_modifyMemory]
        refine hb.retract hopen fun g' hb' hout => ?_
        have hgroups : ∀ i, ((m.groups.insert id { group with output := none }).erase id).get? i =
            if id = i then none else m.groups.get? i := by
          intro i
          rw [Table.get?_erase, Table.get?_insert]
          split <;> rfl
        refine ⟨hb', rfl, hv.forget hg hsize rfl hgroups fun x => ?_, hsince.forget rfl hgroups⟩
        rw [hout, hlisted]
        simp only [Option.some.injEq]
      · next houtput =>
        have hgroups := m.groups.get?_erase id
        refine ⟨hb, rfl, hv.forget hg hsize rfl hgroups fun x => ?_, hsince.forget rfl hgroups⟩
        rw [hlabel, houtput]
        simp
    · next hsize =>
      split
      · next facts hfacts houtput =>
        simp only [Action.ensures_bind]
        refine hb.number fun n g₁ hb₁ hsame => hb₁.create hlimit fun o g' hb' hfree hout => ?_
        have ho : g.openAt node o = none := by
          rw [← hsame]
          exact Agenda.openAt_of_none node hfree
        simp only [hsame] at hout
        have hset := SetOutput.insert hg (some o)
        have hlisting := hv.listing.create ho (hlabel.trans houtput) hset.label hout
        have hshown := hv.listing.outputUnder_create ho hset.label hout
        rw [Bench.ensures_modifyMemory]
        exact ⟨hb', rfl, hv.setOutput hset hsize hlisting hshown (.of_facts hfacts n .none),
          hsince.setOutput hset⟩
      · next facts o hfacts houtput =>
        have hlisted : m.output? id = some o := hlabel.trans houtput
        obtain ⟨⟨old, sources⟩, hopen⟩ := hv.listing.opened hlisted
        rw [Action.ensures_bind]
        refine hb.number fun n g₁ hb₁ hsame => ?_
        refine hb₁.refreshIfChanged ((hsame o).trans hopen) fun g' hb' hout => ?_
        simp only [hsame] at hout
        have hlisting := hv.listing.change hlisted hout
        have hshown := hv.listing.outputUnder_change hlisted hout
        exact ⟨hb', rfl, hv.setOutput (.refl hg) hsize hlisting hshown (.of_facts hfacts n sources),
          hsince⟩
      · next o hfacts houtput =>
        have hlisted : m.output? id = some o := hlabel.trans houtput
        obtain ⟨e, hopen⟩ := hv.listing.opened hlisted
        have hset := SetOutput.insert hg none
        rw [Action.ensures_bind, Bench.ensures_modifyMemory]
        refine hb.retract hopen fun g' hb' hout => ?_
        have hlisting := hv.listing.erase hlisted hset.label hout
        have hshown := hv.listing.outputUnder_erase hlisted hset.label hout
        exact ⟨hb', rfl, hv.setOutput hset hsize hlisting hshown (.of_nothing hfacts),
          hsince.setOutput hset⟩
      · next hfacts houtput =>
        have hshown (i : GroupId) : outputUnder m.output? (g.openAt node) i =
            if id = i then none else outputUnder m.output? (g.openAt node) i := by
          split
          · next he => rw [← he, outputUnder, hlabel, houtput]; rfl
          · rfl
        exact ⟨hb, rfl, hv.setOutput (.refl hg) hsize hv.listing hshown (.of_nothing hfacts), hsince⟩

/-- After a refresh, every group shows what it has to show. -/
theorem refresh_spec (hb : Bench node away g₀ g)
    (hv : Valid key collector m.dirty v (g.openAt node) m) (hsince : Since key past v m)
    (hlimit : ∀ limit details, E (.resourceLimit limit details)) :
    Action.Ensures E (refresh node) ⟨m, g⟩ fun _ w' =>
      Bench node away g₀ w'.agenda ∧ w'.memory.dirty = [] ∧
        Valid key collector [] v (w'.agenda.openAt node) w'.memory ∧
        Since key past v w'.memory := by
  unfold refresh
  simp only [Action.ensures_bind, Bench.ensures_memory]
  refine Bench.ensures_inHashOrder fun dirty hperm => ?_
  rw [Bench.ensures_modifyMemory]
  refine Action.Ensures.forM (fun rest (w' : Workbench GroupMemory) =>
    Bench node away g₀ w'.agenda ∧ w'.memory.dirty = [] ∧
    Valid key collector rest v (w'.agenda.openAt node) w'.memory ∧ Since key past v w'.memory) ?_
    ⟨hb, rfl, { hv with settled := fun hi => hv.settled fun h => hi (hperm.mem_iff.2 h) },
      { hsince with }⟩
  rintro id rest ⟨m', g'⟩ ⟨hb', hd, hv', hsince'⟩
  refine (settle_spec hb' hv' hsince' hlimit).mono ?_
  rintro _ w' ⟨hb'', hd', h⟩
  exact ⟨hb'', hd'.trans hd, h⟩

end GroupMemory

end ConstraintStreams
