import ConstraintStreams.Proofs.Collector.Feeding
import ConstraintStreams.Proofs.Operator.Rehearsal

/-!
# Groupings are exact

Whatever the signals, the refreshes and the work of others in between: a grouping has one group for
each class of its inputs, and counts each of them once. After a refresh each group shows its key and
what its rows come to, in the order in which the grouping was last told about them.
-/

namespace ConstraintStreams

open ConstraintStreams.Action (Keeps)
open Work

/-- The inputs in the order in which an operator was last told about them, after one more event. -/
def enroll (roster : List TupleId) : Event → List TupleId
  | .told .retract _ input => roster.erase input
  | .told .insert _ input | .told .update _ input => roster.erase input ++ [input]
  | _ => roster

/-- The inputs that an operator holds, in the order in which it was last told about them. -/
def roster (events : List Event) : List TupleId := events.foldl enroll []

theorem roster_snoc (es : List Event) (e : Event) : roster (es ++ [e]) = enroll (roster es) e := by
  simp [roster]

namespace GroupMemory

/-- A grouping, as it is asked to do things. -/
def handler (node : NodeId) (key : Option (Facts → Except Error Fact))
    (collector : Option Collector) : Handler GroupMemory where
  sides := [.only]
  blank := {}
  signal _ input signal := Network.signalGroup key collector input signal
  refresh := refresh node

/-- What a grouping can fail with: what the functions it was given fail with, sums out of range, and
the limit on tuples. -/
inductive Fault (key : Option (Facts → Except Error Fact)) (collector : Option Collector) :
    Error → Prop
  | key {f facts e} (hf : key = some f) (h : f facts = .error e) : Fault key collector e
  | collector {c e} (hc : collector = some c) (h : c.start.Fails e) : Fault key collector e
  | overflow (site) : Fault key collector (.overflow site)
  | limit (limit details) : Fault key collector (.resourceLimit limit details)

/-- The rows of a group, in the order of the roster. -/
def classRows (key : Option (Facts → Except Error Fact)) (told : TupleId → Option Facts)
    (roster : List TupleId) (id : GroupId) : List Facts :=
  roster.filterMap fun x => (told x).filter fun facts => groupOf key facts = id

/-- What a group of rows shows that has the given key: nothing while its collector has nothing to
report of them. What is handed out in a new box has the number of that box. -/
def Due (collector : Option Collector) (k : Option Fact) (rows : List Facts)
    (shown : Option Facts) : Prop :=
  match collector with
  | none => shown = some k.toList
  | some c => ∃ value, c.start.Tells rows value ∧
      Option.Rel (fun a facts => ∃ b, Fact.Numbers a b ∧ facts = k.toList ++ [b]) value shown

/-- A grouping counts each of its inputs once, in the group of its key. -/
structure Counts (key : Option (Facts → Except Error Fact)) (v : View) (roster : List TupleId)
    (m : GroupMemory) : Prop where
  listed : roster.Nodup ∧ ∀ {x}, x ∈ roster ↔ v.Held .only x
  /-- The key function has answered for every input. -/
  answered : ∀ {x facts}, v.told .only x = some facts → ∃ k, Answers key facts k
  present : ∀ {x facts}, v.told .only x = some facts →
    ∃ group, m.groups.get? (groupOf key facts) = some group
  size_eq : ∀ {id group}, m.groups.get? id = some group →
    group.size = (classRows key (v.told .only) roster id).length
  once : (m.groups.values.map Group.size).sum = roster.length

/-- A grouping at rest: its groups are the classes of its inputs, and each has the output it is to
have. -/
structure Exact (key : Option (Facts → Except Error Fact)) (collector : Option Collector)
    (node : NodeId) (v : View) (roster : List TupleId) (w : Workbench GroupMemory) : Prop
    extends Counts key v roster w.memory where
  inhabited : ∀ {id group}, w.memory.groups.get? id = some group →
    ∃ x facts, v.told .only x = some facts ∧ groupOf key facts = id
  /-- The key of a group stands for what the keys of its members stand for. -/
  shows : ∀ {id group}, w.memory.groups.get? id = some group → ∃ k : Option Fact,
    k.map Fact.identity = id ∧ Due collector k (classRows key (v.told .only) roster id)
      ((outputUnder w.memory.output? (w.agenda.openAt node) id).map Prod.fst)
  opened : ∀ {id o}, w.memory.output? id = some o → ∃ e, w.agenda.openAt node o = some e
  /-- Every open output is that of one group. -/
  owned : ∀ {o e}, w.agenda.openAt node o = some e → ∃! id, w.memory.output? id = some o

/-- What may become of an output: it is made, it is withdrawn, or its facts change in content, which for
an entity is its version. -/
inductive Turns : Option (Facts × Sources) → Option (Facts × Sources) → Prop
  | made (e) : Turns none (some e)
  | withdrawn (e) : Turns (some e) none
  | changed {facts facts' sources} (h : facts ≠ facts') :
    Turns (some (facts, sources)) (some (facts', sources))

variable {node : NodeId} {away : List TupleId} {g g' g₀ : Agenda} {m m' : GroupMemory}
  {v v' : View} {w w' : Workbench GroupMemory} {es : List Event}
  {key : Option (Facts → Except Error Fact)} {collector : Option Collector}
  {input o : TupleId} {facts : Facts} {t : Tuple} {id : GroupId} {group : Group}

/-! ## What a grouping upholds -/

theorem safe_of_builtin {acc : Accumulator} {E : Error → Prop} (h : acc.Builtin)
    (hfails : ∀ e, acc.Fails e → E e) : acc.Safe E := by
  cases acc with
  | count => trivial
  | extremum => exact ⟨fun facts e he => hfails e ⟨facts, he⟩, .inl h⟩
  | custom => exact h.elim
  | _ => exact fun facts e he => hfails e ⟨facts, he⟩

/-- The same view where no input has come lately: where the keys of the groups come from does not matter
then. -/
def stale (v : View) : View := { v with recent := fun _ _ => False }

theorem Valid.stale {dirty : List GroupId} {out : TupleId → Option (Facts × Sources)}
    (hv : Valid key collector dirty v out m) : Valid key collector dirty (stale v) out m :=
  hv.fades ⟨rfl, id⟩

theorem since_stale (v : View) (m : GroupMemory) : Since key m (stale v) m := .start fun _ _ => id

/-- A grouping upholds `Valid`. -/
theorem upholds (node : NodeId) (hbuiltin : ∀ c, collector = some c → c.start.Builtin) :
    (handler node key collector).Upholds node (Fault key collector) fun v out m =>
      Valid key collector m.dirty v out m where
  blank hout := .empty hout fun _ _ => rfl
  fades hv h := h.fades hv
  signal := by
    intro away v m g signal side input t hb _ hv hside hexpects ht hne
    obtain rfl := List.mem_singleton.1 hside
    refine (signal_spec hb hv.stale (since_stale v m) hexpects not_false ht hne
      (fun _ _ _ => .key) (fun c hc => safe_of_builtin (hbuiltin c hc) fun _ => .collector hc)
      .overflow).mono fun _ w' ⟨hb', hv', _⟩ => ⟨hb', hv'.fades ?_⟩
    cases signal with
    | insert => exact ⟨rfl, id⟩
    | update => exact ⟨rfl, id⟩
    | retract => exact ⟨rfl, id⟩
  refresh := by
    intro away v m g hb _ hv
    refine (refresh_spec hb hv.stale (since_stale v m) .limit).mono ?_
    rintro _ w' ⟨hb', hdirty, hv', -⟩
    exact ⟨hb', hdirty ▸ hv'.fades ⟨rfl, id⟩⟩

/-! ## The order of the members -/

/-- The receipts of the members of a group, in the order in which they came. -/
def receipts (members : List (TupleId × Member)) (id : GroupId) : List Receipt :=
  members.filterMap fun e => if e.2.group = id then some e.2.receipt else none

/-- The collectors of all groups have their members in this order. -/
def InOrder (members : Table TupleId Member) (groups : Table GroupId Group) : Prop :=
  ∀ ⦃id group acc⦄, groups.get? id = some group → group.accumulator = some acc →
    acc.Queues (receipts members.entries id)

/-- The members are those of the roster, the collectors have them in this order, and no group is noted
twice. -/
structure Enrolled (roster : List TupleId) (m : GroupMemory) : Prop where
  keys : m.members.keys = roster
  inOrder : InOrder m.members m.groups
  noted : m.dirty.Nodup

variable {E : Error → Prop} {r : List TupleId} {member : Member} {acc : Accumulator}

theorem receipts_append (front rest : List (TupleId × Member)) (id : GroupId) :
    receipts (front ++ rest) id = receipts front id ++ receipts rest id :=
  List.filterMap_append

theorem receipts_cons_self (input : TupleId) (member : Member)
    (rest : List (TupleId × Member)) :
    receipts ((input, member) :: rest) member.group = member.receipt :: receipts rest member.group := by
  rw [receipts, List.filterMap_cons, if_pos rfl]
  rfl

theorem receipts_cons_of_ne (input : TupleId) (rest : List (TupleId × Member))
    (h : member.group ≠ id) : receipts ((input, member) :: rest) id = receipts rest id := by
  rw [receipts, List.filterMap_cons, if_neg h]
  rfl

/-- A member enters at the end. -/
theorem Enrolled.enter (h : Enrolled r m) (hnew : m.members.get? input = none)
    (hmembers : m'.members = m.members.insert input member)
    (hgroups : ∀ i, m'.groups.get? i = if member.group = i then some group else m.groups.get? i)
    (hqueues : ∀ acc, group.accumulator = some acc →
      acc.Queues (receipts m.members.entries member.group ++ [member.receipt]))
    (hdirty : m'.dirty = m.dirty.insert id) : Enrolled (r ++ [input]) m' where
  keys := by rw [hmembers, Table.keys_insert_of_none hnew, h.keys]
  inOrder := by
    intro i d acc hd hacc
    rw [hgroups] at hd
    rw [hmembers, Table.entries_insert_of_none hnew, receipts_append]
    split at hd
    · next he =>
      cases hd
      subst he
      rw [receipts_cons_self]
      exact hqueues acc hacc
    · next hne =>
      rw [receipts_cons_of_ne _ _ hne]
      exact (List.append_nil _).symm ▸ h.inOrder hd hacc
  noted := hdirty ▸ h.noted.insert

/-- Where a member was, the others close ranks. -/
theorem Enrolled.leave (h : Enrolled r m) (hm : m.members.get? input = some member)
    (hmembers : m'.members = m.members.erase input)
    (hgroups : ∀ i, m'.groups.get? i = if member.group = i then some group else m.groups.get? i)
    (hqueues : ∀ acc front rest,
      receipts m.members.entries member.group = front ++ member.receipt :: rest →
      group.accumulator = some acc → acc.Queues (front ++ rest))
    (hdirty : m'.dirty = m.dirty.insert id) : Enrolled (r.erase input) m' where
  keys := by rw [hmembers, Table.keys_erase, h.keys]
  inOrder := by
    intro i d acc hd hacc
    obtain ⟨front, rest, hentries⟩ := List.append_of_mem (Table.get?_eq_some_iff.1 hm)
    have hold : ∀ j, receipts m.members.entries j =
        receipts front j ++ receipts ((input, member) :: rest) j := fun j => by
      rw [hentries, receipts_append]
    rw [hgroups] at hd
    rw [hmembers, Table.entries_erase_append hentries, receipts_append]
    split at hd
    · next he =>
      cases hd
      subst he
      exact hqueues acc _ _ ((hold _).trans (by rw [receipts_cons_self])) hacc
    · next hne =>
      rw [← receipts_cons_of_ne input rest hne, ← hold]
      exact h.inOrder hd hacc
  noted := hdirty ▸ h.noted.insert

/-- A group that is not there has no members. -/
theorem Valid.receipts_nil {dirty : List GroupId} {out : TupleId → Option (Facts × Sources)}
    (hv : Valid key collector dirty v out m) (hg : m.groups.get? id = none) :
    receipts m.members.entries id = [] := by
  refine List.filterMap_eq_nil_iff.2 fun e he => if_neg fun hid => ?_
  obtain ⟨d, hd⟩ := hv.grouped (Table.get?_eq_some_iff.2 he)
  rw [hid, hg] at hd
  cases hd

theorem insert_enrolls (hb : Bench node away g₀ g) (h : Enrolled r m)
    (hv : Valid key collector m.dirty v (g.openAt node) m) (hnew : ¬ v.Held .only input)
    (ht : g₀.find? input = some t) (hne : t.node ≠ node) :
    Action.Ensures (fun _ => True) (insert key collector input) ⟨m, g⟩ fun _ w' =>
      Enrolled (r ++ [input]) w'.memory := by
  have hnone := hv.held.get?_none hnew
  unfold insert setGroup
  rw [Action.ensures_bind, hb.ensures_inputFacts ht hne, Action.ensures_bind]
  refine keyOf_spec hb (fun _ _ _ _ => trivial) fun k g₁ hb₁ _ _ => ?_
  simp only [Action.ensures_bind, Bench.ensures_memory, Bench.ensures_modifyMemory]
  generalize hgroup : (m.groups.get? (k.map Fact.identity)).getD
    { accumulator := collector.map (·.start) } = group
  have hqueues : ∀ acc, group.accumulator = some acc →
      acc.Queues (receipts m.members.entries (k.map Fact.identity)) := by
    intro acc hacc
    cases hg : m.groups.get? (k.map Fact.identity) with
    | some d =>
      rw [hg] at hgroup
      subst hgroup
      exact h.inOrder hg hacc
    | none =>
      rw [hg] at hgroup
      subst hgroup
      obtain ⟨c, -, rfl⟩ := Option.map_eq_some_iff.1 hacc
      rw [hv.receipts_nil hg, ← c.blank_start]
      exact Accumulator.queues_blank c.start
  have hgroups (acc' : Option Accumulator) := m.groups.get?_insert_insert (k.map Fact.identity) group
    { group with accumulator := acc', size := group.size + 1, key := k.or group.key }
  unfold collect
  cases hacc : group.accumulator with
  | none =>
    refine h.enter hnone rfl (hgroups none) ?_ rfl
    intro acc he
    cases he
  | some acc =>
    dsimp only
    rw [Action.ensures_bind, Action.ensures_get, Action.ensures_bind, Action.ensures_lift]
    refine ⟨fun taken hi => ?_, fun _ _ => trivial⟩
    refine h.enter hnone rfl (hgroups (some taken.1)) ?_ rfl
    rintro _ ⟨⟩
    exact (hqueues acc hacc).insert hi

theorem retract_enrolls (h : Enrolled r m) :
    Action.Ensures (fun _ => True) (retract input) ⟨m, g⟩ fun _ w' =>
      Enrolled (r.erase input) w'.memory := by
  unfold retract setGroup
  rw [Action.ensures_bind, Bench.ensures_memory]
  split
  · trivial
  · next member hm =>
    rw [Action.ensures_bind, Bench.ensures_setMemory]
    split
    · trivial
    · next group hg =>
      have hgroups (acc' : Option Accumulator) (size : Nat) (i : GroupId) :=
        m.groups.get?_insert member.group i { group with accumulator := acc', size }
      rw [Action.ensures_bind]
      cases hacc : group.accumulator with
      | none =>
        show Action.Ensures _ (do let size ← countDown group.size 1; _) _ _
        rw [Action.ensures_bind, Action.ensures_lift]
        refine ⟨fun size _ => ?_, fun _ _ => trivial⟩
        refine h.leave hm rfl (hgroups none size) ?_ rfl
        rintro _ _ _ _ ⟨⟩
      | some acc =>
        show Action.Ensures _ (some <$> liftM (acc.retract member.receipt)) _ _
        rw [Action.ensures_map, Action.ensures_lift]
        refine ⟨fun acc' hr => ?_, fun _ _ => trivial⟩
        rw [Action.ensures_bind, Action.ensures_lift]
        refine ⟨fun size _ => ?_, fun _ _ => trivial⟩
        refine h.leave hm rfl (hgroups (some acc') size) ?_ rfl
        rintro _ front rest hreceipts ⟨⟩
        exact (hreceipts ▸ h.inOrder hg hacc).retract hr

/-- A group may get another output. -/
theorem Enrolled.label (h : Enrolled r m') (hg : m.groups.get? id = some group)
    (hold : InOrder m.members m.groups) (hmembers : m'.members = m.members) (output : Option TupleId) :
    Enrolled r { m' with groups := m'.groups.insert id { group with output } } where
  keys := h.keys
  inOrder := by
    intro i d acc hd hacc
    replace hd := (m'.groups.get?_insert id i { group with output }).symm.trans hd
    split at hd
    · next he =>
      cases hd
      subst he
      show acc.Queues (receipts m'.members.entries id)
      rw [hmembers]
      exact hold hg hacc
    · exact h.inOrder hd hacc
  noted := h.noted

theorem Enrolled.forget (h : Enrolled r m) (id : GroupId) :
    Enrolled r { m with groups := m.groups.erase id } where
  keys := h.keys
  inOrder := by
    intro i d acc hd hacc
    replace hd := (m.groups.get?_erase id i).symm.trans hd
    split at hd
    · cases hd
    · exact h.inOrder hd hacc
  noted := h.noted

/-- Settling outputs moves no members. -/
theorem keepsEnrolled_settle (node : NodeId) (id : GroupId) (members : Table TupleId Member) :
    Keeps (In fun m => m.members = members ∧ Enrolled r m) (settle node id) := by
  refine keepsIn_memory_bind fun m hm => ?_
  split
  · exact .pure _
  · next group hg =>
    have setOutput (output : Option TupleId) : Keeps (In fun m => m.members = members ∧ Enrolled r m)
        (setGroup id { group with output }) := keepsIn_modifyMemory fun m' hm' =>
      ⟨hm'.1, hm'.2.label hg hm.2.inOrder (hm'.1.trans hm.1.symm) output⟩
    have forget : Keeps (In fun m => m.members = members ∧ Enrolled r m)
        (modifyMemory fun m => { m with groups := m.groups.erase id }) :=
      keepsIn_modifyMemory fun m' hm' => ⟨hm'.1, hm'.2.forget id⟩
    split
    · split
      · exact .bind (setOutput none) fun _ => .bind (keepsIn_onAgenda _) fun _ => forget
      · exact forget
    · split
      · exact .bind (keepsIn_onAgenda _) fun _ => .bind (keepsIn_onAgenda _) fun _ => setOutput _
      · refine .bind (keepsIn_onAgenda _) fun _ => .bind (keeps_facts _) fun _ => ?_
        split
        · exact keepsIn_refreshTuple _ _
        · exact .pure _
      · exact .bind (setOutput none) fun _ => keepsIn_onAgenda _
      · exact .pure _

theorem keepsEnrolled_refresh (node : NodeId) (members : Table TupleId Member) :
    Keeps (In fun m => m.members = members ∧ Enrolled r m) (refresh node) := by
  refine .bind keeps_memory fun m => .bind keeps_inHashOrder fun dirty =>
    .bind (keepsIn_modifyMemory fun m' hm' => ?_) fun _ =>
      .forM (fun id => keepsEnrolled_settle node id members) _
  exact ⟨hm'.1, hm'.2.keys, hm'.2.inOrder, List.nodup_nil⟩

/-- One event enrolls the input it is about. -/
theorem step_enrolls (hbuiltin : ∀ c, collector = some c → c.start.Builtin) {e : Event}
    (hs : Step (handler node key collector) node e v w v' w')
    (ha : Attends node (fun v out m => Valid key collector m.dirty v out m) v w)
    (h : Enrolled r w.memory) : Enrolled (enroll r e) w'.memory := by
  cases hs with
  | @told _ _ _ signal side input t hside hexpects ht hne hcall =>
    obtain rfl := List.mem_singleton.1 hside
    cases signal with
    | insert =>
      have hnew : ¬ v.Held .only input := fun hheld => hexpects.1 hheld rfl
      have habsent : input ∉ r := h.keys ▸ Table.get?_eq_none_iff.1 (ha.holds.held.get?_none hnew)
      obtain ⟨away, hb⟩ := ha.bench
      show Enrolled (r.erase input ++ [input]) w'.memory
      rw [List.erase_of_not_mem habsent]
      exact (insert_enrolls hb h ha.holds hnew ht hne).of_ok hcall
    | update =>
      obtain ⟨⟨⟩, w₁, hretract, hinsert⟩ := Action.bind_eq_ok.1
        (show (retract input >>= fun _ => insert key collector input) w = _ from hcall)
      have hleaves : v.Expects .retract .only input := by simpa [View.Expects] using hexpects
      obtain ⟨hevolves, ha₁⟩ := (ha.signal (upholds node hbuiltin) hside hleaves ht hne).of_ok hretract
      obtain ⟨away, hb⟩ := ha₁.bench
      exact (insert_enrolls hb ((retract_enrolls h).of_ok hretract) ha₁.holds (by simp [View.after])
        (hevolves.other ht hne) hne).of_ok hinsert
    | retract => exact (retract_enrolls h).of_ok hcall
  | refreshed hcall =>
    exact ((keepsEnrolled_refresh node w.memory.members w ⟨rfl, h⟩).of_ok hcall).2
  | drained => exact h
  | elsewhere => exact h

/-- All its life, a grouping has its members in the order of the roster. -/
theorem enrolled (hbuiltin : ∀ c, collector = some c → c.start.Builtin)
    (hl : Life (handler node key collector) node es v w) : Enrolled (roster es) w.memory := by
  obtain ⟨g₀, hg₀, hc⟩ := hl
  induction hc with
  | start =>
    refine ⟨rfl, ?_, List.nodup_nil⟩
    rintro _ _ _ ⟨⟩
  | step hc hs ih =>
    rw [roster_snoc]
    exact step_enrolls hbuiltin hs (Life.attends (upholds node hbuiltin) ⟨g₀, hg₀, hc⟩) ih

/-! ## What is counted and what is shown -/

theorem groupOf_of_answers {k : Option Fact} (h : Answers key facts k) :
    groupOf key facts = k.map Fact.identity := by
  cases key with
  | none =>
    obtain rfl : k = none := h
    rfl
  | some f =>
    obtain ⟨a, b, ha, hnumbers, rfl⟩ := h
    show (f facts).toOption.map Fact.identity = some b.identity
    rw [ha, hnumbers.identity]
    rfl

variable {out : TupleId → Option (Facts × Sources)} {dirty : List GroupId}

/-- A member is in the group of its key. -/
theorem Valid.groupOf_eq (hv : Valid key collector dirty v out m)
    (hm : m.members.get? input = some member) (htold : v.told .only input = some facts) :
    groupOf key facts = member.group := by
  obtain ⟨k, hanswers, hk⟩ := hv.keyed hm htold
  exact (groupOf_of_answers hanswers).trans hk

/-- What the collector of a group was given, in the order in which it came. -/
theorem Valid.deposits_eq (hv : Valid key collector dirty v out m) (h : Enrolled r m) (id : GroupId) :
    ∃ ds, deposits m.members (v.told .only) id = Multiset.ofList ds ∧
      ds.map Prod.fst = classRows key (v.told .only) r id ∧
      ds.map Prod.snd = receipts m.members.entries id := by
  refine ⟨_, rfl, ?_, ?_⟩
  · rw [← h.keys, classRows, Table.keys, List.filterMap_map, List.map_filterMap]
    refine List.filterMap_congr fun e he => ?_
    have hget := Table.get?_eq_some_iff.2 he
    obtain ⟨facts, hfacts⟩ := Option.isSome_iff_exists.1 ((hv.held e.1).1 (by simp [hget]))
    rw [Function.comp_apply, hfacts, Option.filter_some, hv.groupOf_eq hget hfacts]
    by_cases hid : e.2.group = id <;> simp [hid]
  · rw [receipts, List.map_filterMap]
    refine List.filterMap_congr fun e _ => ?_
    by_cases hid : e.2.group = id <;> simp [hid]

theorem sum_marks (c : GroupId) (ids : List GroupId) :
    (ids.map fun id => if c = id then 1 else 0).sum = ids.count c := by
  induction ids with
  | nil => rfl
  | cons id ids ih =>
    by_cases h : c = id
    · subst h
      simp [ih, Nat.add_comm]
    · simp [h, Ne.symm h, ih]

/-- Each row is in one group. -/
theorem sum_classRows {told : TupleId → Option Facts} {ids : List GroupId} (hids : ids.Nodup)
    (h : ∀ x ∈ r, ∃ facts, told x = some facts ∧ groupOf key facts ∈ ids) :
    (ids.map fun id => (classRows key told r id).length).sum = r.length := by
  induction r with
  | nil => simp [classRows]
  | cons x r ih =>
    obtain ⟨facts, htold, hmem⟩ := h x List.mem_cons_self
    have hlength : ∀ id, (classRows key told (x :: r) id).length =
        (if groupOf key facts = id then 1 else 0) + (classRows key told r id).length := by
      intro id
      rw [classRows, List.filterMap_cons, htold, Option.filter_some]
      by_cases hid : groupOf key facts = id <;> simp [hid, classRows, Nat.add_comm]
    have hone : (ids.map fun id => if groupOf key facts = id then 1 else 0).sum = 1 := by
      rw [sum_marks, List.count_eq_one_of_mem hids hmem]
    simp only [hlength, List.sum_map_add, hone, ih fun y hy => h y (List.mem_cons_of_mem x hy),
      List.length_cons, Nat.add_comm]

theorem Valid.counts (hv : Valid key collector dirty v out m) (h : Enrolled r m) :
    Counts key v r m where
  listed := by
    refine ⟨h.keys ▸ m.members.keys_nodup, fun {x} => ?_⟩
    rw [← h.keys, ← Table.contains_iff]
    exact hv.held x
  answered htold := by
    obtain ⟨member, hm⟩ := hv.held.get?_some (show v.Held .only _ by rw [View.Held, htold]; rfl)
    obtain ⟨k, hanswers, -⟩ := hv.keyed hm htold
    exact ⟨k, hanswers⟩
  present htold := by
    obtain ⟨member, hm⟩ := hv.held.get?_some (show v.Held .only _ by rw [View.Held, htold]; rfl)
    rw [hv.groupOf_eq hm htold]
    exact hv.grouped hm
  size_eq {id group} hg := by
    obtain ⟨ds, hds, hrows, -⟩ := hv.deposits_eq h id
    rw [hv.size_eq hg, hds, Multiset.coe_card, ← hrows, List.length_map]
  once := by
    have hsizes : m.groups.values.map Group.size =
        m.groups.keys.map fun id => (classRows key (v.told .only) r id).length := by
      rw [Table.values, Table.keys, List.map_map, List.map_map]
      refine List.map_congr_left fun e he => ?_
      obtain ⟨ds, hds, hrows, -⟩ := hv.deposits_eq h e.1
      show e.2.size = (classRows key (v.told .only) r e.1).length
      rw [hv.size_eq (Table.get?_eq_some_iff.2 he), hds, Multiset.coe_card, ← hrows, List.length_map]
    rw [hsizes]
    refine sum_classRows m.groups.keys_nodup fun x hx => ?_
    rw [← h.keys, ← Table.contains_iff] at hx
    obtain ⟨member, hm⟩ := Option.isSome_iff_exists.1 hx
    obtain ⟨facts, htold⟩ := Option.isSome_iff_exists.1 ((hv.held x).1 hx)
    obtain ⟨d, hd⟩ := hv.grouped hm
    refine ⟨facts, htold, Table.contains_iff.1 ?_⟩
    rw [hv.groupOf_eq hm htold, Table.contains, hd]
    rfl

/-- A group that is settled shows its key and what its rows come to. -/
theorem Valid.due (hv : Valid key collector dirty v out m)
    (hbuiltin : ∀ c, collector = some c → c.start.Builtin) (h : Enrolled r m)
    (hg : m.groups.get? id = some group) (hsettled : id ∉ dirty) :
    Due collector group.key (classRows key (v.told .only) r id)
      ((outputUnder m.output? out id).map Prod.fst) := by
  obtain ⟨ds, hds, hrows, hreceipts⟩ := hv.deposits_eq h id
  have hcollects := hv.collects hg
  have hstands := (hv.settled hsettled hg).2
  have hkey : ∀ a ∈ group.key.toList, a.IsNumbered := fun a ha =>
    hv.numbered hg (Option.mem_toList.1 ha)
  unfold Stands outputFacts? at hstands
  cases collector with
  | none =>
    cases hacc : group.accumulator with
    | some acc => rw [hacc] at hcollects; exact hcollects.elim
    | none =>
      rw [hacc] at hstands
      obtain ⟨n, sources, hshown⟩ := hstands
      show _ = some group.key.toList
      rw [hshown, Option.map_some]
      cases hk : group.key with
      | none => rfl
      | some a =>
        show some [(a.numberFrom n).1] = some [a]
        rw [hkey a (Option.mem_toList.2 hk) n]
  | some c =>
    cases hacc : group.accumulator with
    | none => rw [hacc] at hcollects; exact hcollects.elim
    | some acc =>
      rw [hacc, hds] at hcollects
      rw [hacc] at hstands
      have hstocked : Accumulator.Stocked c.start acc ds :=
        ⟨hcollects.1, hreceipts ▸ h.inOrder hg hacc, hcollects.2⟩
      refine ⟨acc.value?, hrows ▸ hstocked.tells (hbuiltin c rfl), ?_⟩
      cases hvalue : acc.value? with
      | none =>
        simp only [hvalue, Option.map_none] at hstands
        rw [hstands]
        exact .none
      | some value =>
        simp only [hvalue, Option.map_some] at hstands
        obtain ⟨n, sources, hshown⟩ := hstands
        obtain ⟨b, hnumbers, hfacts⟩ := Fact.numberItemsFrom_concat hkey value n
        rw [hshown, Option.map_some, hfacts]
        exact .some ⟨b, hnumbers, rfl⟩

theorem Valid.exact (hv : Valid key collector [] v (w.agenda.openAt node) w.memory)
    (hbuiltin : ∀ c, collector = some c → c.start.Builtin) (h : Enrolled r w.memory) :
    Exact key collector node v r w where
  toCounts := hv.counts h
  inhabited := by
    intro id group hg
    have hsize := (hv.counts h).size_eq hg
    have hpos := (hv.settled (by simp) hg).1
    obtain ⟨row, hrow⟩ := List.exists_mem_of_length_pos (hsize ▸ Nat.pos_of_ne_zero hpos)
    obtain ⟨x, -, hx⟩ := List.mem_filterMap.1 hrow
    obtain ⟨htold, hclass⟩ := Option.filter_eq_some_iff.1 hx
    exact ⟨x, row, htold, by simpa using hclass⟩
  shows hg := ⟨_, hv.named hg, hv.due hbuiltin h hg List.not_mem_nil⟩
  opened := hv.listing.opened
  owned ho := by
    obtain ⟨id, hid⟩ := hv.listing.owned ho
    exact ⟨id, hid, fun id' hid' => hv.listing.inj hid' hid⟩

/-! ## What a refresh does to the outputs -/

/-- One tuple may be another; all others are untouched. -/
structure Retouches (node : NodeId) (g g' : Agenda) (o : TupleId) : Prop where
  other : ∀ x, o ≠ x → g'.find? x = g.find? x
  turns : Turns (g.openAt node o) (g'.openAt node o)

/-- Settling a group touches no tuple, or makes, withdraws or changes its own output. -/
structure Settles (node : NodeId) (id : GroupId) (w w' : Workbench GroupMemory) : Prop where
  others : ∀ i, id ≠ i → w'.memory.output? i = w.memory.output? i
  touched : (∀ x, w'.agenda.find? x = w.agenda.find? x) ∨
    ∃ o, Retouches node w.agenda w'.agenda o ∧
      (w.agenda.find? o = none ∨ w.memory.output? id = some o)

theorem output?_insert (m : GroupMemory) (id : GroupId) (group : Group) (i : GroupId) :
    ({ m with groups := m.groups.insert id group } : GroupMemory).output? i =
      if id = i then group.output else m.output? i := by
  show ((m.groups.insert id group).get? i).bind _ = _
  rw [Table.get?_insert]
  split <;> rfl

theorem output?_erase (m : GroupMemory) (id i : GroupId) :
    ({ m with groups := m.groups.erase id } : GroupMemory).output? i =
      if id = i then none else m.output? i := by
  show ((m.groups.erase id).get? i).bind _ = _
  rw [Table.get?_erase]
  split <;> rfl

/-- Withdrawing an open output. -/
theorem retract_retouches (hopen : ∃ e, g.openAt node o = some e) :
    Action.Ends (Agenda.retract o) g (fun _ g' => Retouches node g g' o) fun _ => True := by
  obtain ⟨⟨facts, sources⟩, hopen⟩ := hopen
  obtain ⟨t, ht, hn, hisOpen, rfl, rfl⟩ := Agenda.openAt_eq_some_iff.1 hopen
  refine (Agenda.retract_ends g o).mono ?_ fun _ _ => trivial
  rintro _ g' ⟨t', hopen', hr⟩
  obtain rfl : t = t' := Option.some.inj (ht.symm.trans hr.found)
  refine ⟨fun x hx => (hr.find x).trans (if_neg hx), ?_⟩
  have hnone : g'.openAt node o = none := by
    unfold Agenda.openAt
    rw [hr.find, if_pos rfl]
    cases hstage : t.stage <;> simp_all [Stage.withdrawn, Stage.isOpen]
  rw [hopen, hnone]
  exact .withdrawn _

/-- Making an output. -/
theorem create_retouches (hs : g.tuples.Sound) (facts : Facts) :
    Action.Ends (Agenda.create node facts .none) g
      (fun o g' => Retouches node g g' o ∧ g.find? o = none) fun _ => True := by
  refine (Agenda.create_ends g node facts .none).mono (fun o g' hm => ?_) fun _ _ => trivial
  have hfree := hm.free hs
  have hsome : g'.openAt node o = some (facts, .none) :=
    Agenda.openAt_eq_some_iff.2 ⟨_, (hm.find o).trans (if_pos rfl), rfl, rfl, rfl, rfl⟩
  refine ⟨⟨fun x hx => (hm.find x).trans (if_neg hx), ?_⟩, hfree⟩
  rw [Agenda.openAt_of_none node hfree, hsome]
  exact .made _

/-- Giving an open output other facts. -/
theorem change_retouches {old : Facts} {sources : Sources}
    (hopen : g.openAt node o = some (old, sources)) (hne : old ≠ facts) :
    Action.Ends (refreshTuple o facts : Work GroupMemory Unit) ⟨m, g⟩
      (fun _ w' => w'.memory = m ∧ Retouches node g w'.agenda o) fun _ => True := by
  obtain ⟨t, ht, hn, hisOpen, rfl, rfl⟩ := Agenda.openAt_eq_some_iff.1 hopen
  unfold refreshTuple
  rw [Action.ends_bind]
  refine Action.ends_within.2 ((Agenda.setFacts_ends g o facts).mono ?_ fun _ _ => trivial)
  rintro _ g₁ ⟨t', hr₁⟩
  obtain rfl : t = t' := Option.some.inj (ht.symm.trans hr₁.found)
  refine Action.ends_within.2 ((Agenda.update_ends g₁ o).mono ?_ fun _ _ => trivial)
  rintro _ g₂ ⟨t₁, hopen₁, hr₂⟩
  obtain rfl : { t with facts } = t₁ :=
    Option.some.inj (((hr₁.find o).trans (if_pos rfl)).symm.trans hr₂.found)
  refine ⟨rfl, fun x hx => ?_, ?_⟩
  · exact (hr₂.find x).trans ((if_neg hx).trans ((hr₁.find x).trans (if_neg hx)))
  · have hsome : g₂.openAt node o = some (facts, t.sources) := by
      refine Agenda.openAt_eq_some_iff.2 ⟨_, (hr₂.find o).trans (if_pos rfl), hn, ?_, rfl, rfl⟩
      show t.stage.changed.isOpen = true
      cases hstage : t.stage <;> simp_all [Stage.changed, Stage.isOpen]
    show Turns (g.openAt node o) (g₂.openAt node o)
    rw [hopen, hsome]
    exact .changed hne

/-- Nothing is done to an output whose facts are the same. -/
theorem refreshIfChanged_retouches (hopen : ∃ e, g.openAt node o = some e) :
    Action.Ends (refreshIfChanged o facts : Work GroupMemory Unit) ⟨m, g⟩
      (fun _ w' => w'.memory = m ∧ (w'.agenda = g ∨ Retouches node g w'.agenda o)) fun _ => True := by
  obtain ⟨⟨old, sources⟩, hopen⟩ := hopen
  obtain ⟨t, ht, -, -, rfl, -⟩ := Agenda.openAt_eq_some_iff.1 hopen
  unfold refreshIfChanged Work.facts
  rw [Action.ends_bind, Action.ends_bind, Action.ends_get, Action.ends_lift]
  refine ⟨fun old hold => ?_, fun _ _ => trivial⟩
  obtain rfl := Except.ok.inj ((Agenda.facts_eq ht).symm.trans hold)
  split
  · next hne =>
    exact (change_retouches hopen hne).mono (fun _ _ h => ⟨h.1, .inr h.2⟩) fun _ _ => trivial
  · exact ⟨rfl, .inl rfl⟩

/-- Numbering touches no tuple. -/
theorem ends_number_bind {α : Type} {f : Facts → Work GroupMemory α}
    {P : α → Workbench GroupMemory → Prop} {S : Workbench GroupMemory → Prop}
    (h : ∀ facts n, Action.Ends (f facts) ⟨m, { g with nextVersion := n }⟩ P S) :
    Action.Ends ((liftM (Agenda.number facts) : Work GroupMemory Facts) >>= f) ⟨m, g⟩ P S :=
  h _ _

theorem settle_settles (hs : g.tuples.Sound)
    (hopened : ∀ {o}, m.output? id = some o → ∃ e, g.openAt node o = some e) :
    Action.Ends (settle node id) ⟨m, g⟩ (fun _ w' => Settles node id ⟨m, g⟩ w') fun _ => True := by
  unfold settle setGroup
  rw [Work.ends_memory_bind]
  split
  · exact ⟨fun _ _ => rfl, .inl fun _ => rfl⟩
  · next group hg =>
    have hlabel : m.output? id = group.output := by simp [output?, hg]
    split
    · split
      · next o houtput =>
        rw [Action.ends_bind, Work.modifyMemory, Action.ends_modify, Action.ends_bind]
        refine Action.ends_within.2 ((retract_retouches (hopened (hlabel.trans houtput))).mono
          (fun _ g' hr => ?_) fun _ _ => trivial)
        refine ⟨fun i hne => ?_, .inr ⟨o, hr, .inr (hlabel.trans houtput)⟩⟩
        have hinserted := output?_insert m id { group with output := none } i
        exact (output?_erase _ id i).trans ((if_neg hne).trans (hinserted.trans (if_neg hne)))
      · refine ⟨fun i hne => ?_, .inl fun _ => rfl⟩
        exact (output?_erase m id i).trans (if_neg hne)
    · split
      · refine ends_number_bind fun facts n => ?_
        rw [Action.ends_bind]
        have hmade : Action.Ends (Agenda.create node facts .none) _ _ _ :=
          create_retouches (g := { g with nextVersion := n }) hs facts
        refine Action.ends_within.2 (hmade.mono (fun o g' hr => ?_) fun _ _ => trivial)
        refine ⟨fun i hne => ?_, .inr ⟨o, ⟨hr.1.other, hr.1.turns⟩, .inl hr.2⟩⟩
        exact (output?_insert m id { group with output := some o } i).trans (if_neg hne)
      · next o _ houtput =>
        refine ends_number_bind fun facts n => ?_
        have hopen : ∃ e, ({ g with nextVersion := n } : Agenda).openAt node o = some e :=
          hopened (hlabel.trans houtput)
        refine (refreshIfChanged_retouches (m := m) hopen).mono ?_ fun _ _ => trivial
        rintro _ ⟨_, g'⟩ ⟨rfl, rfl | hr⟩
        · exact ⟨fun _ _ => rfl, .inl fun _ => rfl⟩
        · exact ⟨fun _ _ => rfl, .inr ⟨o, ⟨hr.other, hr.turns⟩, .inr (hlabel.trans houtput)⟩⟩
      · next o hfacts houtput =>
        rw [Action.ends_bind, Work.modifyMemory, Action.ends_modify]
        refine Action.ends_within.2 ((retract_retouches (hopened (hlabel.trans houtput))).mono
          (fun _ g' hr => ?_) fun _ _ => trivial)
        refine ⟨fun i hne => ?_, .inr ⟨o, hr, .inr (hlabel.trans houtput)⟩⟩
        exact (output?_insert m id { group with output := none } i).trans (if_neg hne)
      · exact ⟨fun _ _ => rfl, .inl fun _ => rfl⟩

/-- So far, an output that has not turned is untouched, and so is every output of a group that is
still to be settled. -/
structure Turning (node : NodeId) (g₀ : Agenda) (rest : List GroupId) (w : Workbench GroupMemory) :
    Prop where
  nodup : rest.Nodup
  tuples : ∀ o, Turns (g₀.openAt node o) (w.agenda.openAt node o) ∨ w.agenda.find? o = g₀.find? o
  waiting : ∀ id ∈ rest, ∀ o, w.memory.output? id = some o → w.agenda.find? o = g₀.find? o

theorem openAt_congr (h : g.find? o = g'.find? o) : g.openAt node o = g'.openAt node o := by
  unfold Agenda.openAt
  rw [h]

theorem Turning.settle {rest : List GroupId} (h : Turning node g₀ (id :: rest) w)
    (hsettles : Settles node id w w') (hfree : ∀ {o}, w.agenda.find? o = none → g₀.find? o = none)
    (hlisting : Listing w.memory.output? (w.agenda.openAt node)) : Turning node g₀ rest w' := by
  obtain ⟨hid, hrest⟩ := List.nodup_cons.1 h.nodup
  have hsame (i : GroupId) (hi : i ∈ rest) : w'.memory.output? i = w.memory.output? i :=
    hsettles.others i fun he => hid (he ▸ hi)
  rcases hsettles.touched with hunmoved | ⟨o, hr, ho⟩
  · refine ⟨hrest, fun x => ?_, fun i hi x hx => ?_⟩
    · rw [hunmoved, openAt_congr (hunmoved x)]
      exact h.tuples x
    · rw [hunmoved]
      exact h.waiting i (List.mem_cons_of_mem id hi) x (hsame i hi ▸ hx)
  · have hold : w.agenda.find? o = g₀.find? o := by
      rcases ho with hnone | hout
      · rw [hnone, hfree hnone]
      · exact h.waiting id List.mem_cons_self o hout
    refine ⟨hrest, fun x => ?_, fun i hi x hx => ?_⟩
    · by_cases hx : o = x
      · subst hx
        rw [← openAt_congr hold]
        exact .inl hr.turns
      · rw [hr.other x hx, openAt_congr (hr.other x hx)]
        exact h.tuples x
    · rw [hsame i hi] at hx
      rw [hr.other x ?_]
      · exact h.waiting i (List.mem_cons_of_mem id hi) x hx
      · rintro rfl
        rcases ho with hnone | hout
        · obtain ⟨e, he⟩ := hlisting.opened hx
          rw [Agenda.openAt_of_none node hnone] at he
          cases he
        · exact hid (hlisting.inj hout hx ▸ hi)

/-- A refresh touches no output that does not turn. -/
theorem refresh_turns (hb : Bench node away g g) (hv : Valid key collector m.dirty v (g.openAt node) m)
    (hnoted : m.dirty.Nodup) :
    Action.Ensures (fun _ => True) (refresh node) ⟨m, g⟩ fun _ w' =>
      Bench node away g w'.agenda ∧ ∀ o, Turns (g.openAt node o) (w'.agenda.openAt node o) ∨
        w'.agenda.find? o = g.find? o := by
  have hsince : Since key m (stale v) m := since_stale v m
  unfold refresh
  simp only [Action.ensures_bind, Bench.ensures_memory]
  refine Bench.ensures_inHashOrder fun dirty hperm => ?_
  rw [Bench.ensures_modifyMemory]
  refine (Action.Ensures.forM (fun rest (w' : Workbench GroupMemory) =>
    Bench node away g w'.agenda ∧ Valid key collector rest (stale v) (w'.agenda.openAt node) w'.memory ∧
    Since key m (stale v) w'.memory ∧ Turning node g rest w') ?_
    ⟨hb, { hv.stale with settled := fun hi => hv.stale.settled fun h => hi (hperm.mem_iff.2 h) },
      { hsince with }, hperm.nodup_iff.2 hnoted, fun _ => .inr rfl, fun _ _ _ _ => rfl⟩).mono
    fun _ w' h => ⟨h.1, h.2.2.2.tuples⟩
  rintro id rest ⟨m', g'⟩ ⟨hb', hv', hsince', hturning⟩
  refine ((settle_spec hb' hv' hsince' fun _ _ => trivial).and
    (settle_settles hb'.sound.store hv'.listing.opened).ensures).mono ?_
  rintro _ w' ⟨⟨hb'', -, hv'', hsince''⟩, hsettles⟩
  exact ⟨hb'', hv'', hsince'', hturning.settle hsettles hb'.find?_none hv'.listing⟩

/-- The queue of a node holds its dirty tuples, so what is untouched is queued if it was. -/
theorem queued_congr (hs : g.Sound away) (hs' : g'.Sound away) (h : g'.find? o = g.find? o) :
    g'.Queued node o ↔ g.Queued node o := by
  have hqueued {a b : Agenda} (ha : a.Sound away) (hb : b.Sound away) (hab : b.find? o = a.find? o)
      (hq : a.Queued node o) : b.Queued node o := by
    obtain ⟨t, ht, rfl⟩ := ha.queued hq
    have hdirty := (ha.dirty_iff ht).2 (.inr hq)
    exact ((hb.dirty_iff (hab.trans ht)).1 hdirty).resolve_left fun haway => ha.away_queued haway _ hq
  exact ⟨hqueued hs' hs h.symm, hqueued hs hs' h⟩

/-- Always, a grouping counts each of its inputs once, in the group of its key. Once it has nothing left
to settle it is exact. Signals that are due and refreshes fail only if a function of the user's does, at
a sum out of range or at the limit on tuples. A refresh leaves nothing to settle, and every output is
made, withdrawn or given other facts, or else is neither touched nor queued. A least or greatest member
that is an entity is handed out in a version of its own each time, so its facts are other ones whenever
its group was touched. -/
theorem groups_exactly (hbuiltin : ∀ c, collector = some c → c.start.Builtin)
    (hl : Life (handler node key collector) node es v w) :
    Counts key v (roster es) w.memory ∧
    (v.Delivered → ∀ {x facts}, v.told .only x = some facts → w.agenda.facts x = .ok facts) ∧
    (w.memory.dirty = [] → Exact key collector node v (roster es) w) ∧
    (∀ {x signal t e w'}, v.Expects signal .only x → w.agenda.find? x = some t → t.node ≠ node →
      Network.signalGroup key collector x signal w = .error e w' → Fault key collector e) ∧
    (∀ {e w'}, refresh node w = .error e w' → Fault key collector e) ∧
    ∀ {w'}, refresh node w = .ok () w' →
      w'.memory.dirty = [] ∧ Exact key collector node v (roster es) w' ∧
      ∀ o, Turns (w.agenda.openAt node o) (w'.agenda.openAt node o) ∨
        w'.agenda.find? o = w.agenda.find? o ∧
          (w'.agenda.Queued node o ↔ w.agenda.Queued node o) := by
  have hI : (handler node key collector).Upholds node (Fault key collector) _ := upholds node hbuiltin
  have ha := hl.attends hI
  have hroll := enrolled hbuiltin hl
  refine ⟨ha.holds.counts hroll, fun hd {x facts} htold => ha.current hd htold, fun hdirty => ?_,
    fun hexpects ht hne hfail => ?_, fun hfail => ?_, fun {w'} hrefresh => ?_⟩
  · exact Valid.exact (hdirty ▸ ha.holds) hbuiltin hroll
  · exact (ha.signal hI (List.mem_singleton.2 rfl) hexpects ht hne).of_error hfail
  · exact (ha.refresh hI).of_error hfail
  · obtain ⟨away, hb⟩ := ha.bench
    obtain ⟨hb', hturns⟩ := (refresh_turns hb ha.holds hroll.noted).of_ok hrefresh
    have hdirty : w'.memory.dirty = [] := ((refresh_spec (E := fun _ => True) hb ha.holds.stale
      (since_stale v w.memory) fun _ _ => trivial).of_ok hrefresh).2.1
    have hl' := hl.step (.refreshed hrefresh)
    have hexact := Valid.exact (hdirty ▸ (hl'.attends hI).holds) hbuiltin (enrolled hbuiltin hl')
    rw [roster_snoc] at hexact
    refine ⟨hdirty, hexact, fun o => (hturns o).imp_right fun hsame => ⟨hsame, ?_⟩⟩
    exact queued_congr hb.sound hb'.sound hsame

section Latest

open Rehearsal

/-- The worker of a shift, as a fact. -/
def worker (row : Facts) : Except Error Fact :=
  match read "worker" row with
  | .int n => .ok (.scalar (.int64 n))
  | _ => .ok (.scalar (.int64 0))

/-- When a shift starts. -/
def startOf (a : Fact) : Int :=
  match read "start" [a] with
  | .int n => n.toInt
  | _ => 0

/-- The shift that starts last. -/
def latest : Collector := .greatest 0 (fun row => .ok (row.headD (.list []))) (compareOn startOf)

/-- Two shifts of one worker come in and one of another. Then the later one of the two goes to the other
worker, who starts later still. -/
def latestCues : List Cue :=
  [.told .insert .only ⟨0, 0⟩, .told .insert .only ⟨1, 0⟩, .told .insert .only ⟨2, 0⟩, .refreshed,
    .drained, .changed .only ⟨1, 0⟩ (shift 2 3 8 10), .refreshed]

/-- A grouping of shifts by worker that shows the last shift of each, after these cues. -/
@[irreducible] def lastShifts : View × Workbench GroupMemory :=
  ((handler ⟨1⟩ (some worker) (some latest)).rehearse?
    [shift 1 0 7 8, shift 2 1 7 10, shift 3 2 8 12] latestCues).get (by decide +kernel)

theorem lastShifts_rehearsed (hbuiltin : ∀ c, some latest = some c → c.start.Builtin) :
    Rehearsed (handler ⟨1⟩ (some worker) (some latest)) ⟨1⟩ (latestCues.flatMap Cue.events)
      lastShifts.1 lastShifts.2 := by
  unfold lastShifts
  exact Handler.rehearsed (upholds ⟨1⟩ hbuiltin) (Option.some_get _).symm

/-- The last shift of the other worker is the same as before, but it was handed out again. -/
theorem groups_exactly_lastShifts :
    (∀ c, some latest = some c → c.start.Builtin) ∧
      Life (handler ⟨1⟩ (some worker) (some latest)) ⟨1⟩ (latestCues.flatMap Cue.events)
        lastShifts.1 lastShifts.2 ∧
      lastShifts.2.memory.dirty = [] ∧
      Exact (some worker) (some latest) ⟨1⟩ lastShifts.1 [⟨0, 0⟩, ⟨2, 0⟩, ⟨1, 0⟩] lastShifts.2 ∧
      lastShifts.2.agenda.openAt ⟨1⟩ ⟨4, 0⟩
        = some ([.scalar (.int64 7), shiftFact 1 (.numbered 3) 7 8], .none) ∧
      lastShifts.2.agenda.openAt ⟨1⟩ ⟨3, 0⟩
        = some ([.scalar (.int64 8), shiftFact 3 (.numbered 2) 8 12], .none) ∧
      lastShifts.2.agenda.Queued ⟨1⟩ ⟨3, 0⟩ := by
  have hbuiltin : ∀ c, some latest = some c → c.start.Builtin := by
    rintro _ ⟨⟩
    exact (inferInstance : Std.TransCmp (compareOn startOf))
  have hlife := (lastShifts_rehearsed hbuiltin).life
  have hdirty : lastShifts.2.memory.dirty = [] := by decide +kernel
  have hexact := (groups_exactly hbuiltin hlife).2.2.1 hdirty
  have hqueue : lastShifts.2.agenda.queues.get? ⟨1⟩ = some [⟨3, 0⟩, ⟨4, 0⟩] := by decide +kernel
  exact ⟨hbuiltin, hlife, hdirty, hexact, by decide +kernel, by decide +kernel, _, hqueue, by simp⟩

end Latest

end GroupMemory

end ConstraintStreams
