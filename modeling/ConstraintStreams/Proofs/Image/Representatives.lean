import ConstraintStreams.Proofs.Image.Network
import ConstraintStreams.Proofs.Network.Weight

/-!
# Which member an output speaks for

The output of a class carries the facts of one of its members, and that of a group a key computed for
one of its members. Which one is not remembered, so when that member leaves and the class or the group
goes on as it is, the output speaks for it still, unless the member has left an heir: one with the same
facts, or the same key.
-/

namespace ConstraintStreams

namespace DistinctMemory

variable {past m : DistinctMemory} {pastFacts facts : TupleId → Option Facts}

/-- The facts that the output of a class carries are those of a member. -/
def Represented (m : DistinctMemory) (facts : TupleId → Option Facts) : Prop :=
  ∀ {identity o shown}, m.output? identity = some o → facts o = some shown →
    ∃ input, m.members.get? input = some identity ∧ facts input = some shown

/-- A class goes on with the output that it had, and the members that have stayed have not changed. -/
structure GoesOn (past : DistinctMemory) (pastFacts : TupleId → Option Facts) (m : DistinctMemory)
    (facts : TupleId → Option Facts) (identity : Facts) (o : TupleId) : Prop where
  output : past.output? identity = some o ∧ m.output? identity = some o
  unchanged : ∀ {x}, past.members.get? x = some identity → m.members.get? x = some identity →
    facts x = pastFacts x

/-- Where a class goes on, a member that its output spoke for has not left, or has left an heir there: a
member with its facts. -/
def Bequeaths (past : DistinctMemory) (pastFacts : TupleId → Option Facts) (m : DistinctMemory)
    (facts : TupleId → Option Facts) : Prop :=
  ∀ {identity o input left}, GoesOn past pastFacts m facts identity o →
    past.members.get? input = some identity → pastFacts input = some left → pastFacts o = some left →
    m.members.get? input ≠ some identity →
    ∃ heir, m.members.get? heir = some identity ∧ facts heir = some left

end DistinctMemory

namespace GroupMemory

variable {past m : GroupMemory} {pastFacts facts : TupleId → Option Facts}
  {key : Facts → Except Error Fact}

/-- The group of a member. -/
def groupOf? (m : GroupMemory) (input : TupleId) : Option GroupId :=
  (m.members.get? input).map Member.group

/-- A group with deposits has members. -/
theorem exists_member {told : TupleId → Option Facts} {id : GroupId}
    (h : (deposits m.members told id).card ≠ 0) : ∃ input, m.groupOf? input = some id := by
  obtain ⟨e, he⟩ := Multiset.card_pos_iff_exists_mem.1 (Nat.pos_of_ne_zero h)
  obtain ⟨⟨input, member⟩, hmember, hdeposit⟩ := List.mem_filterMap.1 (Multiset.mem_coe.1 he)
  split at hdeposit
  · next hid => exact ⟨input, by rw [groupOf?, Table.get?_eq_some_iff.2 hmember, ← hid]; rfl⟩
  · cases hdeposit

/-- The first fact of the output of a group is its key. -/
theorem Stands.head? {group : Group} {k : Fact} {shown : Facts} {sources : Sources}
    (h : Stands group (some (shown, sources))) (hk : group.key = some k) (hnumbered : k.IsNumbered) :
    shown.head? = some k := by
  have hfirst : ∀ rest n, (Fact.numberItemsFrom n (k :: rest)).1.head? = some k := fun rest n => by
    simp [Fact.numberItemsFrom, hnumbered n]
  unfold Stands outputFacts? at h
  rw [hk] at h
  cases hacc : group.accumulator with
  | none =>
    rw [hacc] at h
    obtain ⟨n, _, heq⟩ := h
    cases heq
    exact hfirst [] n
  | some acc =>
    rw [hacc] at h
    cases hvalue : acc.value? with
    | none =>
      simp only [hvalue, Option.map_none] at h
      cases h
    | some value =>
      simp only [hvalue, Option.map_some] at h
      obtain ⟨n, _, heq⟩ := h
      cases heq
      exact hfirst [value] n

/-- The key of a group was computed for a member. -/
def Represented (key : Facts → Except Error Fact) (m : GroupMemory)
    (facts : TupleId → Option Facts) : Prop :=
  ∀ {id group}, m.groups.get? id = some group → ∃ input now, m.groupOf? input = some id ∧
    facts input = some now ∧ Answers (some key) now group.key

/-- A group goes on with the key that it had: it has members, all of them were there before, and none has
changed. -/
structure GoesOn (past : GroupMemory) (pastFacts : TupleId → Option Facts) (m : GroupMemory)
    (facts : TupleId → Option Facts) (id : GroupId) : Prop where
  inhabited : ∃ x, m.groupOf? x = some id
  unchanged : ∀ {x}, m.groupOf? x = some id → past.groupOf? x = some id ∧ facts x = pastFacts x

/-- Where a group goes on, a member that its key spoke for has not left, or has left an heir there: a
member with its key. The key is one that the key function handed out: had it been built, no other member
would have it. -/
def Bequeaths (key : Facts → Except Error Fact) (past : GroupMemory)
    (pastFacts : TupleId → Option Facts) (m : GroupMemory) (facts : TupleId → Option Facts) : Prop :=
  ∀ {id group input left k}, GoesOn past pastFacts m facts id → past.groups.get? id = some group →
    past.groupOf? input = some id → pastFacts input = some left →
    Answers (some key) left group.key → key left = .ok k → m.groupOf? input ≠ some id →
    k.IsNumbered ∧ ∃ heir now, m.groupOf? heir = some id ∧ facts heir = some now ∧ key now = .ok k

end GroupMemory

namespace Network

variable {kind : ScoreKind} {g : Graph kind} {past net net' : Network kind} {K : Knowledge}
  {s : Traced kind} {p : NodeId} {n : Node kind} {u : TupleId} {facts : Facts} {shown : Shown}

/-- The facts of a tuple. -/
def factsOf (net : Network kind) (u : TupleId) : Option Facts :=
  (net.agenda.find? u).map Tuple.facts

theorem factsOf_eq {t : Tuple} (ht : net.agenda.find? u = some t) : net.factsOf u = some t.facts := by
  rw [factsOf, ht, Option.map_some]

/-- At rest, no group is left to settle. -/
theorem AtRest.dirty_eq_nil (h : AtRest g net) (hn : g.nodes.get? p = some n)
    {key : Option (Handle (Facts → Except Error Fact))} {collector : Option Collector}
    (hop : n.operator = .group key collector) {m : GroupMemory}
    (hm : net.memories.get? p = some (.group m)) : m.dirty = [] := by
  have hdirty := (h.calm hn (by rw [hop]; rfl)).refreshed _ hm
  simpa [NodeMemory.hasDirty, GroupMemory.hasDirty] using hdirty

/-- The classes and groups of a network are represented. -/
structure Represented (g : Graph kind) (net : Network kind) : Prop where
  distinct : ∀ {p n m}, g.nodes.get? p = some n → n.operator = .distinct →
    net.memories.get? p = some (.distinct m) → m.Represented net.factsOf
  group : ∀ {p n m key collector}, g.nodes.get? p = some n →
    n.operator = .group (some key) collector → net.memories.get? p = some (.group m) →
    m.Represented key.run net.factsOf

/-- What the outputs of a network have spoken for has left heirs where it has left a class or a group that
goes on as it is. -/
structure Bequeaths (g : Graph kind) (past net : Network kind) : Prop where
  distinct : ∀ {p n m₀ m}, g.nodes.get? p = some n → n.operator = .distinct →
    past.memories.get? p = some (.distinct m₀) → net.memories.get? p = some (.distinct m) →
    m₀.Bequeaths past.factsOf m net.factsOf
  group : ∀ {p n m₀ m key collector}, g.nodes.get? p = some n →
    n.operator = .group (some key) collector → past.memories.get? p = some (.group m₀) →
    net.memories.get? p = some (.group m) → m₀.Bequeaths key.run past.factsOf m net.factsOf

/-- Since the network was `past`, nothing was propagated, and every change is still to be. -/
structure Waits (g : Graph kind) (past net : Network kind) : Prop where
  memories : ∀ {p n}, g.nodes.get? p = some n → n.operator.constraint? = none →
    net.memories.get? p = past.memories.get? p
  settled : ∀ {u t}, net.agenda.find? u = some t → t.stage = .settled →
    past.agenda.find? u = some t

theorem Waits.refl (g : Graph kind) (net : Network kind) : Waits g net net :=
  ⟨fun _ _ => rfl, fun ht _ => ht⟩

theorem Waits.trans (h : Waits g past net) (h' : Waits g net net') : Waits g past net' :=
  ⟨fun hn hc => (h'.memories hn hc).trans (h.memories hn hc),
    fun ht hs => h.settled (h'.settled ht hs) hs⟩

theorem Amends.waits (h : Amends net net') : Waits g net net' :=
  ⟨fun _ _ => by rw [h.memories], h.settled⟩

/-! ## A flush -/

/-- What a flush has told of a tuple are its facts. -/
theorem Flushed.told_spec (hg : g.WellFormed) (h : Flushed g past K s) {l : Link}
    (htold : K.told l u = some facts) : s.net.factsOf u = some facts := by
  obtain ⟨-, t, ht, rfl, -⟩ := h.consistent.told_spec hg h.atRest htold
  exact factsOf_eq ht

/-- What a flush has told nothing new of has the facts that it had when nothing was waiting yet. -/
theorem Flushed.factsOf_past (h : Flushed g net K s) (hwaits : Waits g past net) {l : Link}
    (htold : K.told l u = some facts) (hquiet : ⟨l, u⟩ ∉ s.trace) :
    past.factsOf u = some facts := by
  obtain ⟨t, ht, hstage, rfl⟩ := h.untouched htold hquiet
  exact factsOf_eq (hwaits.settled ht hstage)

/-- The outputs of a node that is no source waited for nothing. -/
theorem Sourced.factsOf_past (h : Sourced g shown net) (hwaits : Waits g past net)
    (hn : g.nodes.get? p = some n) (hop : ¬ n.operator.IsSource) {sources : Sources}
    (hopen : net.agenda.openAt p u = some (facts, sources)) : past.factsOf u = some facts := by
  obtain ⟨t, ht, rfl, -, rfl, -⟩ := Agenda.openAt_eq_some_iff.1 hopen
  have hstage : t.stage = .settled := by
    by_contra hs
    obtain ⟨n', hn', hop'⟩ := h.waiting ht hs
    cases hn.symm.trans hn'
    exact hop hop'
  exact factsOf_eq (hwaits.settled ht hstage)

/-- A flush keeps the classes of a distinct node represented if those that leave them have heirs. -/
theorem Represented.flushed_distinct (hg : g.WellFormed) (hsourced : Sourced g shown net)
    (hwaits : Waits g past net) (hpast : Represented g past) (h : Flushed g net K s)
    (hheirs : Bequeaths g past s.net) (hn : g.nodes.get? p = some n) (hop : n.operator = .distinct)
    {m : DistinctMemory} (hm : s.net.memories.get? p = some (.distinct m)) :
    m.Represented s.net.factsOf := by
  intro identity o facts ho hfacts
  obtain ⟨m', m₀, hm', hm₀, hvalid, hsince⟩ := h.coherent.memory hn
  cases hm.symm.trans hm'
  rw [hop] at hvalid hsince
  cases m₀ <;> try exact hsince.elim
  next m₀ =>
  have hm₀' : past.memories.get? p = some (.distinct m₀) := by
    rw [← hwaits.memories hn (by rw [hop]; rfl), hm₀]
  obtain ⟨⟨shown, sources⟩, hopen⟩ := hvalid.listing.opened ho
  obtain rfl : shown = facts := by
    obtain ⟨t, ht, -, -, rfl, -⟩ := Agenda.openAt_eq_some_iff.1 hopen
    simpa [factsOf, ht] using hfacts
  rcases hsince.shown ho hopen with ⟨input, hmember, -, htold, -⟩ | ⟨ho₀, ⟨sources₀, hopen₀⟩, hquiet⟩
  · exact ⟨input, hmember, h.told_spec hg htold⟩
  · -- The output is as it was, and so is the member that it spoke for, if it has stayed.
    have hshown := hsourced.factsOf_past hwaits hn (by rw [hop]; rintro ⟨_, _, _, ⟨⟩⟩) hopen₀
    have hunchanged : ∀ {x}, m₀.members.get? x = some identity → m.members.get? x = some identity →
        s.net.factsOf x = past.factsOf x := by
      intro x hx₀ hx
      obtain ⟨told, htold⟩ := Option.isSome_iff_exists.1 ((hvalid.held x).1 (by rw [hx]; rfl))
      rw [h.told_spec hg htold, h.factsOf_past hwaits htold (hquiet hx hx₀)]
    obtain ⟨input, hmember₀, hpastFacts⟩ := hpast.distinct hn hop hm₀' ho₀ hshown
    by_cases hmember : m.members.get? input = some identity
    · exact ⟨input, hmember, (hunchanged hmember₀ hmember).trans hpastFacts⟩
    · exact hheirs.distinct hn hop hm₀' hm ⟨⟨ho₀, ho⟩, hunchanged⟩ hmember₀ hpastFacts hshown hmember

/-- A flush keeps the groups of a grouping represented if those that leave them have heirs. -/
theorem Represented.flushed_group (hg : g.WellFormed) (hwaits : Waits g past net)
    (hpast : Represented g past) (h : Flushed g net K s) (hheirs : Bequeaths g past s.net)
    (hn : g.nodes.get? p = some n) {key : Handle (Facts → Except Error Fact)}
    {collector : Option Collector} (hop : n.operator = .group (some key) collector) {m : GroupMemory}
    (hm : s.net.memories.get? p = some (.group m)) : m.Represented key.run s.net.factsOf := by
  intro id group hgroup
  obtain ⟨m', m₀, hm', hm₀, hvalid, hsince⟩ := h.coherent.memory hn
  cases hm.symm.trans hm'
  rw [hop] at hvalid hsince
  cases m₀ <;> try exact hsince.elim
  next m₀ =>
  have hm₀' : past.memories.get? p = some (.group m₀) := by
    rw [← hwaits.memories hn (by rw [hop]; rfl), hm₀]
  have hsize : group.size ≠ 0 :=
    (hvalid.settled (by rw [h.atRest.dirty_eq_nil hn hop hm]; simp) hgroup).1
  rcases hsince.sourced hgroup hsize with
    ⟨input, member, told, hmember, rfl, -, htold, hkey⟩ | ⟨⟨old, hold, hkey⟩, hquiet⟩
  · exact ⟨input, told, by rw [GroupMemory.groupOf?, hmember]; rfl, h.told_spec hg htold, hkey⟩
  · have hunchanged : ∀ {x}, m.groupOf? x = some id →
        m₀.groupOf? x = some id ∧ s.net.factsOf x = past.factsOf x := by
      intro x hx
      obtain ⟨member, hmember, hid⟩ := Option.map_eq_some_iff.1 hx
      obtain ⟨told, htold⟩ := Option.isSome_iff_exists.1 ((hvalid.held x).1 (by rw [hmember]; rfl))
      have hstill := hquiet x member hmember hid
      refine ⟨?_, by rw [h.told_spec hg htold, h.factsOf_past hwaits htold hstill]⟩
      rw [GroupMemory.groupOf?, ← hsince.untouched hstill]
      exact hx
    obtain ⟨input, left, hmember₀, hleft, hanswers⟩ := hpast.group hn hop hm₀' hold
    by_cases hmember : m.groupOf? input = some id
    · exact ⟨input, left, hmember, (hunchanged hmember).2.trans hleft, hkey ▸ hanswers⟩
    · obtain ⟨a, b, ha, hnumbers, hb⟩ := hanswers
      have hgoes : m₀.GoesOn past.factsOf m s.net.factsOf id :=
        ⟨GroupMemory.exists_member (hvalid.size_eq hgroup ▸ hsize), hunchanged⟩
      obtain ⟨hnumbered, heir, now, hheir, hnow, hsame⟩ :=
        hheirs.group hn hop hm₀' hm hgoes hold hmember₀ hleft ⟨a, b, ha, hnumbers, hb⟩ ha
          hmember
      obtain ⟨v, rfl⟩ := hnumbers
      rw [hkey, hnumbered v] at hb
      exact ⟨heir, now, hheir, hnow, a, a, hsame, ⟨v, hnumbered v⟩, hb⟩

theorem Represented.flushed (hg : g.WellFormed) (hsourced : Sourced g shown net)
    (hwaits : Waits g past net) (hpast : Represented g past) (h : Flushed g net K s)
    (hheirs : Bequeaths g past s.net) : Represented g s.net where
  distinct hn hop hm := hpast.flushed_distinct hg hsourced hwaits h hheirs hn hop hm
  group hn hop hm := hpast.flushed_group hg hwaits h hheirs hn hop hm

/-! ## Outputs -/

/-- Every output of a distinct node carries the facts of one of its inputs, and every output of a
grouping the key of one of its inputs, as they are now. -/
structure Current (g : Graph kind) (net : Network kind) : Prop where
  distinct : ∀ {n o t}, net.agenda.find? o = some t → g.nodes.get? t.node = some n →
    n.operator = .distinct → ∃ q ∈ n.parents, ∃ input, net.shownAt q input = some t.facts
  group : ∀ {n o t key collector}, net.agenda.find? o = some t → g.nodes.get? t.node = some n →
    n.operator = .group (some key) collector → ∃ q ∈ n.parents, ∃ input facts k,
      net.shownAt q input = some facts ∧ GroupMemory.Answers (some key.run) facts (some k) ∧
      t.facts.head? = some k

/-- What a node at rest was told of is what a parent shows. -/
theorem Consistent.shownAt_of_held (hg : g.WellFormed) (h : Consistent g K net) (hrest : AtRest g net)
    (hn : g.nodes.get? p = some n) {side : Side} (hheld : (K.view { net } p).Held side u)
    (hfacts : net.factsOf u = some facts) : ∃ q ∈ n.parents, net.shownAt q u = some facts := by
  obtain ⟨told, htold⟩ := Option.isSome_iff_exists.1 hheld
  obtain ⟨t, ht, hcarries, -⟩ := h.coherent.feeds htold
  obtain ⟨q, hleads⟩ := hg.carries_leads hcarries
  obtain ⟨n', hn', hmem, -⟩ := hg.target hleads
  cases hn.symm.trans hn'
  obtain ⟨-, t', ht', rfl, -⟩ := h.told_spec hg hrest htold
  obtain rfl : t'.facts = facts := by simpa [factsOf, ht'] using hfacts
  exact ⟨q, Blueprint.mem_parents_of_sides hmem, by rw [← h.told_eq hg hrest hleads]; exact htold⟩

theorem Represented.current (hg : g.WellFormed) (hK : Consistent g K net) (hrest : AtRest g net)
    (h : Represented g net) : Current g net where
  distinct := by
    intro n o t ht hn hop
    obtain ⟨m, -, hm, -, hvalid, -⟩ := hK.coherent.memory hn
    rw [hop] at hvalid
    cases m <;> try exact hvalid.elim
    next m =>
    have hopen : net.agenda.openAt t.node o = some (t.facts, t.sources) :=
      Agenda.openAt_eq_some_iff.2 ⟨t, ht, rfl, by rw [hrest.settled ht]; rfl, rfl, rfl⟩
    obtain ⟨identity, ho⟩ := hvalid.listing.owned hopen
    obtain ⟨input, hmember, hfacts⟩ := h.distinct hn hop hm ho (factsOf_eq ht)
    obtain ⟨q, hq, hshown⟩ := hK.shownAt_of_held hg hrest hn
      ((hvalid.held input).1 (by rw [hmember]; rfl)) hfacts
    exact ⟨q, hq, input, hshown⟩
  group := by
    intro n o t key collector ht hn hop
    obtain ⟨m, -, hm, -, hvalid, -⟩ := hK.coherent.memory hn
    rw [hop] at hvalid
    cases m <;> try exact hvalid.elim
    next m =>
    have hopen : net.agenda.openAt t.node o = some (t.facts, t.sources) :=
      Agenda.openAt_eq_some_iff.2 ⟨t, ht, rfl, by rw [hrest.settled ht]; rfl, rfl, rfl⟩
    obtain ⟨id, ho⟩ := hvalid.listing.owned hopen
    obtain ⟨group, hgroup, -⟩ := Option.bind_eq_some_iff.1 ho
    obtain ⟨input, facts, hmember, hfacts, a, k, ha, hnumbers, hk⟩ := h.group hn hop hm hgroup
    obtain ⟨member, hmember', -⟩ := Option.map_eq_some_iff.1 hmember
    obtain ⟨q, hq, hshown⟩ := hK.shownAt_of_held hg hrest hn
      ((hvalid.held input).1 (by rw [hmember']; rfl)) hfacts
    refine ⟨q, hq, input, facts, k, hshown, ⟨a, k, ha, hnumbers, rfl⟩, ?_⟩
    have hstands := (hvalid.settled (by rw [hrest.dirty_eq_nil hn hop hm]; simp) hgroup).2
    rw [show outputUnder m.output? _ id = some (t.facts, t.sources) by
      rw [outputUnder, ho]; exact hopen] at hstands
    exact hstands.head? hk (hvalid.numbered hgroup hk)

end Network

end ConstraintStreams
