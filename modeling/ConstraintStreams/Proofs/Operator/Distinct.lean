import ConstraintStreams.Network.Basic
import ConstraintStreams.Proofs.Operator.Bench
import ConstraintStreams.Proofs.Table

/-!
# Classes of a distinct node

Every class counts its members and has one output. `DistinctMemory.Since` says where the facts of
that output come from, compared with the memory at the start of a flush: from a member that the
node was told about since, or they are the facts that the output had before.
-/

namespace ConstraintStreams

namespace DistinctMemory

/-- The output of each class. -/
def output? (m : DistinctMemory) (identity : Facts) : Option TupleId :=
  (m.classes.get? identity).map (·.output)

/-- What holds of the memory of a distinct node between signals. -/
structure Valid (v : View) (out : TupleId → Option (Facts × Sources)) (m : DistinctMemory) :
    Prop where
  listing : Listing m.output? out
  held : v.Lists .only m.members
  same : ∀ {input identity facts}, m.members.get? input = some identity →
    v.Known .only input facts → facts.identity = identity
  classed : ∀ {input identity}, m.members.get? input = some identity →
    ∃ c, m.classes.get? identity = some c
  size_eq : ∀ {identity c}, m.classes.get? identity = some c →
    c.size = m.members.values.count identity ∧ 0 < c.size
  stands : ∀ {identity facts sources}, outputUnder m.output? out identity = some (facts, sources) →
    facts.identity = identity

/-- Where the facts of the outputs come from, seen from the memory `past` and the outputs `pastOut`
at the start of the flush. The facts that a class shows are those of a member that the node was told
about since, which stayed in the class or founded it; or else the output and its facts are as before,
and the node was told nothing about the members that stayed. -/
structure Since (past : DistinctMemory) (pastOut : TupleId → Option (Facts × Sources)) (v : View)
    (out : TupleId → Option (Facts × Sources)) (m : DistinctMemory) : Prop where
  untouched : ∀ {input}, ¬ v.recent .only input → m.members.get? input = past.members.get? input
  shown : ∀ {identity o facts sources}, m.output? identity = some o →
    out o = some (facts, sources) →
    (∃ input, m.members.get? input = some identity ∧ v.recent .only input ∧
      v.told .only input = some facts ∧
      (past.members.get? input = some identity ∨ pastOut o = none)) ∨
    (past.output? identity = some o ∧ (∃ s, pastOut o = some (facts, s)) ∧
      ∀ {input}, m.members.get? input = some identity → past.members.get? input = some identity →
        ¬ v.recent .only input)

variable {E : Error → Prop} {node : NodeId} {away : List TupleId} {g₀ g : Agenda}
  {past m : DistinctMemory} {pastOut out out' : TupleId → Option (Facts × Sources)} {v v' : View}
  {input o : TupleId} {facts identity : Facts} {sources : Sources} {c : DistinctClass} {t : Tuple}

theorem Valid.fades (h : Valid v out m) (hv : View.Fades v v') : Valid v' out m where
  listing := h.listing
  held := h.held.fades hv
  same hm hk := h.same hm (hv.known hk)
  classed := h.classed
  size_eq := h.size_eq
  stands := h.stands

theorem Since.fades (h : Since past pastOut v out m) (hv : View.Fades v v')
    (hrecent : v'.recent = v.recent) : Since past pastOut v' out m where
  untouched hr := h.untouched (by rwa [← hrecent])
  shown ho hout := by
    rw [hrecent, hv.told]
    exact h.shown ho hout

theorem Valid.empty (hout : ∀ o, out o = none) (hv : ∀ side input, v.told side input = none) :
    Valid v out {} where
  listing := .of_none (fun _ => rfl) hout
  held := .empty hv
  same h := by simp [EmptyCollection.emptyCollection] at h
  classed h := by simp [EmptyCollection.emptyCollection] at h
  size_eq h := by simp [EmptyCollection.emptyCollection] at h
  stands h := by simp [outputUnder, output?, EmptyCollection.emptyCollection] at h

/-- A node that was told nothing has no classes, no members and no outputs. -/
theorem Valid.blank (h : Valid v out m) (hv : ∀ side input, v.told side input = none) :
    m = {} ∧ ∀ o, out o = none := by
  have hmembers : m.members = ∅ := h.held.eq_empty hv
  have hclasses : m.classes = ∅ := by
    refine Table.eq_empty fun identity => ?_
    cases hc : m.classes.get? identity with
    | none => rfl
    | some c =>
      obtain ⟨hsize, hpos⟩ := h.size_eq hc
      rw [hsize, hmembers] at hpos
      exact absurd hpos (Nat.lt_irrefl 0)
  have hlabel : ∀ identity, m.output? identity = none := fun identity => by
    rw [output?, hclasses]; rfl
  refine ⟨?_, h.listing.out_eq_none hlabel⟩
  obtain ⟨classes, members⟩ := m
  cases hmembers
  cases hclasses
  rfl

/-- At the start of a flush nothing has changed since. -/
theorem Since.start (hv : ∀ side input, ¬ v.recent side input) :
    Since m out v out m where
  untouched _ := rfl
  shown ho hout := .inr ⟨ho, ⟨_, hout⟩, fun _ _ => hv _ _⟩

/-! ## Changes of the memory -/

/-- An input joins a class. -/
def join (m : DistinctMemory) (input : TupleId) (identity : Facts) (c : DistinctClass) :
    DistinctMemory where
  classes := m.classes.insert identity { c with size := c.size + 1 }
  members := m.members.insert input identity

/-- An input founds a class. -/
def found (m : DistinctMemory) (input : TupleId) (identity : Facts) (o : TupleId) :
    DistinctMemory where
  classes := m.classes.insert identity ⟨1, o⟩
  members := m.members.insert input identity

/-- An input leaves a class that has other members. -/
def leave (m : DistinctMemory) (input : TupleId) (identity : Facts) (c : DistinctClass) :
    DistinctMemory where
  classes := m.classes.insert identity { c with size := c.size - 1 }
  members := m.members.erase input

/-- The last input leaves a class. -/
def close (m : DistinctMemory) (input : TupleId) (identity : Facts) : DistinctMemory where
  classes := m.classes.erase identity
  members := m.members.erase input

@[simp] theorem members_join :
    (m.join input identity c).members = m.members.insert input identity := rfl

@[simp] theorem classes_join :
    (m.join input identity c).classes = m.classes.insert identity { c with size := c.size + 1 } := rfl

@[simp] theorem members_found :
    (m.found input identity o).members = m.members.insert input identity := rfl

@[simp] theorem classes_found :
    (m.found input identity o).classes = m.classes.insert identity ⟨1, o⟩ := rfl

@[simp] theorem members_leave : (m.leave input identity c).members = m.members.erase input := rfl

@[simp] theorem classes_leave :
    (m.leave input identity c).classes = m.classes.insert identity { c with size := c.size - 1 } := rfl

@[simp] theorem members_close : (m.close input identity).members = m.members.erase input := rfl

@[simp] theorem classes_close : (m.close input identity).classes = m.classes.erase identity := rfl

theorem output?_join (hc : m.classes.get? identity = some c) :
    (m.join input identity c).output? = m.output? := by
  funext x
  unfold output?
  rw [classes_join, Table.get?_insert]
  split
  · next he => subst he; simp [hc]
  · rfl

theorem output?_found (x : Facts) :
    (m.found input identity o).output? x = if identity = x then some o else m.output? x := by
  unfold output?
  rw [classes_found, Table.get?_insert]
  split <;> rfl

theorem output?_leave (hc : m.classes.get? identity = some c) :
    (m.leave input identity c).output? = m.output? := by
  funext x
  unfold output?
  rw [classes_leave, Table.get?_insert]
  split
  · next he => subst he; simp [hc]
  · rfl

theorem output?_close (x : Facts) :
    (m.close input identity).output? x = if identity = x then none else m.output? x := by
  unfold output?
  rw [classes_close, Table.get?_erase]
  split <;> rfl

/-- A new member stands for what its class does. -/
theorem Valid.same_insert (h : Valid v out m) {x : TupleId} {i f : Facts}
    (hx : (m.members.insert input facts.identity).get? x = some i)
    (hk : (v.tell .only input facts).Known .only x f) : f.identity = i := by
  rw [Table.get?_insert] at hx
  split at hx
  · next he =>
    subst he
    cases hx
    rw [View.known_tell_self] at hk
    rw [hk]
  · next hne =>
    rw [View.known_tell_of_ne (by simp [hne])] at hk
    exact h.same hx hk

/-- The class of a new member is there. -/
theorem Valid.classed_insert (h : Valid v out m) {d : DistinctClass} {x : TupleId} {i : Facts}
    (hx : (m.members.insert input identity).get? x = some i) :
    ∃ c, (m.classes.insert identity d).get? i = some c := by
  rw [Table.get?_insert] at hx ⊢
  split
  · exact ⟨_, rfl⟩
  · next hi =>
    split at hx
    · cases hx; exact absurd rfl hi
    · exact h.classed hx

theorem Valid.join (h : Valid v out m) (hnew : ¬ v.Held .only input)
    (hc : m.classes.get? facts.identity = some c) :
    Valid (v.tell .only input facts) out (m.join input facts.identity c) where
  listing := by rw [output?_join hc]; exact h.listing
  held := h.held.insert facts _
  same hx hk := h.same_insert hx hk
  classed := h.classed_insert
  size_eq := by
    intro x d hd
    rw [members_join, Table.values_insert_of_none (h.held.get?_none hnew), List.count_append]
    rw [classes_join, Table.get?_insert] at hd
    split at hd
    · next he =>
      subst he
      cases hd
      simp [(h.size_eq hc).1]
    · next hne =>
      obtain ⟨hsize, hpos⟩ := h.size_eq hd
      rw [List.count_singleton, beq_eq_false_iff_ne.2 hne]
      exact ⟨hsize, hpos⟩
  stands := by rw [output?_join hc]; exact h.stands

theorem Valid.found (h : Valid v out m) (hnew : ¬ v.Held .only input)
    (hc : m.classes.get? facts.identity = none) (ho : out o = none)
    (hout : ∀ x, out' x = if o = x then some (facts, sources) else out x) :
    Valid (v.tell .only input facts) out' (m.found input facts.identity o) where
  listing := h.listing.create ho (by simp [output?, hc]) output?_found hout
  held := h.held.insert facts _
  same hx hk := h.same_insert hx hk
  classed := h.classed_insert
  size_eq := by
    intro x d hd
    rw [members_found, Table.values_insert_of_none (h.held.get?_none hnew), List.count_append]
    rw [classes_found, Table.get?_insert] at hd
    split at hd
    · next he =>
      subst he
      cases hd
      have hnone : facts.identity ∉ m.members.values := by
        intro hm
        obtain ⟨⟨x, i⟩, hmem, rfl⟩ := List.mem_map.1 hm
        obtain ⟨d, hd⟩ := h.classed (Table.get?_eq_some_iff.2 hmem)
        rw [hc] at hd
        cases hd
      simp [List.count_eq_zero_of_not_mem hnone]
    · next hne =>
      obtain ⟨hsize, hpos⟩ := h.size_eq hd
      rw [List.count_singleton, beq_eq_false_iff_ne.2 hne]
      exact ⟨hsize, hpos⟩
  stands := by
    intro x f s hx
    rw [h.listing.outputUnder_create ho output?_found hout] at hx
    split at hx
    · next he => cases hx; exact he
    · exact h.stands hx

/-- A change within the class gives the output the facts of the input. -/
theorem Valid.touch (h : Valid v out m) (hm : m.members.get? input = some facts.identity)
    (ho : m.output? facts.identity = some o)
    (hout : ∀ x, out' x = if o = x then some (facts, sources) else out x) :
    Valid (v.tell .only input facts) out' m where
  listing := h.listing.change ho hout
  held := h.held.tell ((h.held input).1 (by simp [hm])) facts
  same := by
    intro x i f hx hk
    by_cases he : input = x
    · subst he
      rw [View.known_tell_self] at hk
      rw [← hk]
      exact Option.some.inj (hm.symm.trans hx)
    · rw [View.known_tell_of_ne (by simp [he])] at hk
      exact h.same hx hk
  classed := h.classed
  size_eq := h.size_eq
  stands := by
    intro x f s hx
    rw [h.listing.outputUnder_change ho hout] at hx
    split at hx
    · next he => cases hx; exact he
    · exact h.stands hx

/-- What remains known of the members when one of them leaves. -/
theorem Valid.same_erase (h : Valid v out m) {x : TupleId} {i f : Facts}
    (hx : (m.members.erase input).get? x = some i) (hk : (v.drop .only input).Known .only x f) :
    f.identity = i := by
  rw [Table.get?_erase] at hx
  split at hx
  · cases hx
  · exact h.same hx (View.known_drop.1 hk).2

theorem Valid.count_erase (hm : m.members.get? input = some identity) (x : Facts) :
    m.members.values.count x
      = (m.members.erase input).values.count x + if identity = x then 1 else 0 := by
  rw [(Table.values_perm_erase hm).count_eq, List.count_cons]
  simp only [beq_iff_eq]

theorem Valid.leave (h : Valid v out m) (hm : m.members.get? input = some identity)
    (hc : m.classes.get? identity = some c) (hsize : c.size - 1 ≠ 0) :
    Valid (v.drop .only input) out (m.leave input identity c) where
  listing := by rw [output?_leave hc]; exact h.listing
  held := h.held.erase
  same hx hk := h.same_erase hx hk
  classed := by
    intro x i hx
    rw [members_leave, Table.get?_erase] at hx
    rw [classes_leave, Table.get?_insert]
    split at hx
    · cases hx
    · split
      · exact ⟨_, rfl⟩
      · exact h.classed hx
  size_eq := by
    intro x d hd
    have hcount := Valid.count_erase hm x
    rw [members_leave]
    rw [classes_leave, Table.get?_insert] at hd
    split at hd
    · next he =>
      subst he
      cases hd
      obtain ⟨hc', -⟩ := h.size_eq hc
      rw [if_pos rfl] at hcount
      dsimp only
      omega
    · next hne =>
      obtain ⟨hd', hpos⟩ := h.size_eq hd
      rw [if_neg hne] at hcount
      omega
  stands := by rw [output?_leave hc]; exact h.stands

theorem Valid.close (h : Valid v out m) (hm : m.members.get? input = some identity)
    (hc : m.classes.get? identity = some c) (hsize : c.size - 1 = 0)
    (hout : ∀ x, out' x = if c.output = x then none else out x) :
    Valid (v.drop .only input) out' (m.close input identity) where
  listing := h.listing.erase (by simp [output?, hc]) output?_close hout
  held := h.held.erase
  same hx hk := h.same_erase hx hk
  classed := by
    intro x i hx
    have hcount := Valid.count_erase hm identity
    rw [members_close] at hx
    rw [classes_close, Table.get?_erase]
    split
    · next he =>
      -- the class had no other member
      subst he
      obtain ⟨hc', -⟩ := h.size_eq hc
      rw [if_pos rfl] at hcount
      have hmem : identity ∈ (m.members.erase input).values :=
        List.mem_map.2 ⟨(x, identity), Table.get?_eq_some_iff.1 hx, rfl⟩
      have := List.count_pos_iff.2 hmem
      omega
    · rw [Table.get?_erase] at hx
      split at hx
      · cases hx
      · exact h.classed hx
  size_eq := by
    intro x d hd
    have hcount := Valid.count_erase hm x
    rw [members_close]
    rw [classes_close, Table.get?_erase] at hd
    split at hd
    · cases hd
    · next hne =>
      obtain ⟨hd', hpos⟩ := h.size_eq hd
      rw [if_neg hne] at hcount
      omega
  stands := by
    intro x f s hx
    rw [h.listing.outputUnder_erase (by simp [output?, hc]) output?_close hout] at hx
    split at hx
    · cases hx
    · exact h.stands hx

/-! ## Where the facts of outputs come from -/

variable {m' : DistinctMemory}

/-- The inputs other than one are where they were, and the node was told nothing of them. -/
structure Apart (input : TupleId) (v v' : View) (m m' : DistinctMemory) : Prop where
  members : ∀ {x}, x ≠ input → m'.members.get? x = m.members.get? x
  recent : ∀ {x}, v'.recent .only x ↔ input = x ∨ v.recent .only x
  told : ∀ {x}, x ≠ input → v'.told .only x = v.told .only x

theorem Apart.insert (hm : m'.members = m.members.insert input identity) :
    Apart input v (v.tell .only input facts) m m' where
  members hne := by rw [hm, Table.get?_insert, if_neg (Ne.symm hne)]
  recent := by simp [View.tell]
  told hne := by simp [View.tell, Ne.symm hne]

theorem Apart.erase (hm : m'.members = m.members.erase input) :
    Apart input v (v.drop .only input) m m' where
  members hne := by rw [hm, Table.get?_erase, if_neg (Ne.symm hne)]
  recent := by simp [View.drop]
  told hne := by simp [View.drop, Ne.symm hne]

theorem Since.untouched_of_apart (h : Since past pastOut v out m) (ha : Apart input v v' m m')
    {x : TupleId} (hx : ¬ v'.recent .only x) : m'.members.get? x = past.members.get? x := by
  rw [ha.recent, not_or] at hx
  rw [ha.members (Ne.symm hx.1)]
  exact h.untouched hx.2

/-- What is shown comes from where it came from, unless the input that moved has to do with it. -/
theorem Since.shown_of_apart (h : Since past pastOut v out m) (ha : Apart input v v' m m')
    (ho : m.output? identity = some o) (hout : out o = some (facts, sources))
    (hleft : v.recent .only input → m.members.get? input ≠ some identity)
    (hmoved : ¬ (m'.members.get? input = some identity ∧ past.members.get? input = some identity)) :
    (∃ x, m'.members.get? x = some identity ∧ v'.recent .only x ∧ v'.told .only x = some facts ∧
      (past.members.get? x = some identity ∨ pastOut o = none)) ∨
    (past.output? identity = some o ∧ (∃ s, pastOut o = some (facts, s)) ∧
      ∀ {x}, m'.members.get? x = some identity → past.members.get? x = some identity →
        ¬ v'.recent .only x) := by
  rcases h.shown ho hout with ⟨x, hx, hr, htold, horigin⟩ | ⟨hpast, hfacts, hquiet⟩
  · have hne : x ≠ input := fun he => hleft (he ▸ hr) (he ▸ hx)
    exact .inl ⟨x, by rw [ha.members hne, hx], ha.recent.2 (.inr hr), by rw [ha.told hne, htold],
      horigin⟩
  · refine .inr ⟨hpast, hfacts, fun {x} hx hpx => ?_⟩
    rw [ha.recent, not_or]
    have hne : input ≠ x := fun he => hmoved (he ▸ ⟨hx, hpx⟩)
    exact ⟨hne, hquiet (by rw [← ha.members (Ne.symm hne), hx]) hpx⟩

theorem Since.join (h : Since past pastOut v out m) (hnone : m.members.get? input = none)
    (hpast : past.members.get? input ≠ some facts.identity)
    (hc : m.classes.get? facts.identity = some c) :
    Since past pastOut (v.tell .only input facts) out (m.join input facts.identity c) := by
  have ha : Apart input v (v.tell .only input facts) m (m.join input facts.identity c) := .insert rfl
  refine ⟨h.untouched_of_apart ha, fun {x o f s} ho hout => ?_⟩
  rw [output?_join hc] at ho
  refine h.shown_of_apart ha ho hout (fun _ => by simp [hnone]) ?_
  rintro ⟨hx, hpx⟩
  rw [members_join, Table.get?_insert, if_pos rfl] at hx
  exact hpast (hx ▸ hpx)

theorem Since.found (h : Since past pastOut v out m) (hv : Valid v out m)
    (hnone : m.members.get? input = none) (ho : out o = none) (hnew : pastOut o = none)
    (hout : ∀ x, out' x = if o = x then some (facts, sources) else out x) :
    Since past pastOut (v.tell .only input facts) out' (m.found input facts.identity o) := by
  have ha : Apart input v (v.tell .only input facts) m (m.found input facts.identity o) := .insert rfl
  refine ⟨h.untouched_of_apart ha, fun {x y f s} hy hf => ?_⟩
  rw [output?_found] at hy
  rw [hout] at hf
  split at hy
  · next he =>
    subst he
    cases hy
    rw [if_pos rfl] at hf
    cases hf
    exact .inl ⟨input, by simp, by simp [View.tell], by simp [View.tell], .inr hnew⟩
  · next hne =>
    have hoy : o ≠ y := fun he => by
      obtain ⟨e, he'⟩ := hv.listing.opened hy
      rw [← he, ho] at he'
      cases he'
    rw [if_neg hoy] at hf
    refine h.shown_of_apart ha hy hf (fun _ => by simp [hnone]) ?_
    rintro ⟨hx, hpx⟩
    rw [members_found, Table.get?_insert, if_pos rfl] at hx
    exact hne (Option.some.inj hx)

theorem Since.touch (h : Since past pastOut v out m) (hv : Valid v out m)
    (hquiet : ¬ v.recent .only input) (hm : m.members.get? input = some facts.identity)
    (ho : m.output? facts.identity = some o)
    (hout : ∀ x, out' x = if o = x then some (facts, sources) else out x) :
    Since past pastOut (v.tell .only input facts) out' m := by
  have ha : Apart input v (v.tell .only input facts) m m :=
    ⟨fun _ => rfl, by simp [View.tell], fun hne => by simp [View.tell, Ne.symm hne]⟩
  refine ⟨h.untouched_of_apart ha, fun {x y f s} hy hf => ?_⟩
  rw [hout] at hf
  split at hf
  · next he =>
    subst he
    cases hf
    have hx := hv.listing.inj hy ho
    subst hx
    exact .inl ⟨input, hm, by simp [View.tell], by simp [View.tell], .inl (h.untouched hquiet ▸ hm)⟩
  · next hne =>
    refine h.shown_of_apart ha hy hf (fun hr => absurd hr hquiet) ?_
    rintro ⟨hx, -⟩
    rw [hm] at hx
    rw [← Option.some.inj hx, ho] at hy
    exact hne (Option.some.inj hy)

theorem Since.leave (h : Since past pastOut v out m) (hquiet : ¬ v.recent .only input)
    (hc : m.classes.get? identity = some c) :
    Since past pastOut (v.drop .only input) out (m.leave input identity c) := by
  have ha : Apart input v (v.drop .only input) m (m.leave input identity c) := .erase rfl
  refine ⟨h.untouched_of_apart ha, fun {x o f s} ho hout => ?_⟩
  rw [output?_leave hc] at ho
  exact h.shown_of_apart ha ho hout (fun hr => absurd hr hquiet) (by simp)

theorem Since.close (h : Since past pastOut v out m) (hquiet : ¬ v.recent .only input)
    (hout : ∀ x, out' x = if c.output = x then none else out x) :
    Since past pastOut (v.drop .only input) out' (m.close input identity) := by
  have ha : Apart input v (v.drop .only input) m (m.close input identity) := .erase rfl
  refine ⟨h.untouched_of_apart ha, fun {x o f s} ho hf => ?_⟩
  rw [output?_close] at ho
  rw [hout] at hf
  split at ho
  · cases ho
  · split at hf
    · cases hf
    · exact h.shown_of_apart ha ho hf (fun hr => absurd hr hquiet) (by simp)

/-! ## What the node does on signals -/

theorem insert_spec (hb : Bench node away g₀ g) (hv : Valid v (g.openAt node) m)
    (hs : Since past pastOut v (g.openAt node) m) (hnew : ¬ v.Held .only input)
    (hpast : past.members.get? input ≠ some t.facts.identity) (ht : g₀.find? input = some t)
    (hne : t.node ≠ node) (hlimit : ∀ limit details, E (.resourceLimit limit details))
    (hids : ∀ o, g₀.find? o = none → pastOut o = none) :
    Action.Ensures E (insert node input) ⟨m, g⟩ fun _ w' =>
      Bench node away g₀ w'.agenda ∧
        Valid (v.tell .only input t.facts) (w'.agenda.openAt node) w'.memory ∧
        Since past pastOut (v.tell .only input t.facts) (w'.agenda.openAt node) w'.memory := by
  have hnone := hv.held.get?_none hnew
  unfold insert
  simp only [Action.ensures_bind, hb.ensures_inputFacts ht hne, Bench.ensures_memory]
  split
  · next c hc => exact ⟨hb, hv.join hnew hc, hs.join hnone hpast hc⟩
  · next hc =>
    simp only [Action.ensures_bind]
    refine hb.create hlimit fun o g' hb' hfree hout => ?_
    have ho := Agenda.openAt_of_none node hfree
    exact ⟨hb', hv.found hnew hc ho hout, hs.found hv hnone ho (hids o (hb.find?_none hfree)) hout⟩

theorem retract_spec (hb : Bench node away g₀ g) (hv : Valid v (g.openAt node) m)
    (hs : Since past pastOut v (g.openAt node) m) (hheld : v.Held .only input)
    (hquiet : ¬ v.recent .only input) :
    Action.Ensures E (retract input) ⟨m, g⟩ fun _ w' =>
      Bench node away g₀ w'.agenda ∧
        Valid (v.drop .only input) (w'.agenda.openAt node) w'.memory ∧
        Since past pastOut (v.drop .only input) (w'.agenda.openAt node) w'.memory := by
  obtain ⟨identity, hm⟩ := hv.held.get?_some hheld
  obtain ⟨c, hc⟩ := hv.classed hm
  have hdown : countDown c.size 1 = .ok (c.size - 1) := by
    obtain ⟨-, hpos⟩ := hv.size_eq hc
    unfold countDown
    rw [if_neg (by omega)]
  unfold retract
  simp only [Action.ensures_bind, Bench.ensures_memory, hm, Bench.ensures_setMemory, hc,
    Action.ensures_lift_of_ok hdown]
  split
  · next hsize =>
    obtain ⟨⟨old, sources⟩, hopen⟩ := hv.listing.opened (k := identity) (o := c.output)
      (by simp [output?, hc])
    simp only [Action.ensures_bind, Bench.ensures_setMemory]
    refine hb.retract hopen fun g' hb' hout => ?_
    exact ⟨hb', hv.close hm hc hsize hout, hs.close hquiet hout⟩
  · next hsize => exact ⟨hb, hv.leave hm hc hsize, hs.leave hquiet hc⟩

/-- On each signal, a distinct node brings the class of the input up to date. -/
theorem signal_spec (hb : Bench node away g₀ g) (hv : Valid v (g.openAt node) m)
    (hs : Since past pastOut v (g.openAt node) m) {signal : Signal}
    (hexpects : v.Expects signal .only input) (hquiet : ¬ v.recent .only input)
    (ht : g₀.find? input = some t) (hne : t.node ≠ node)
    (hlimit : ∀ limit details, E (.resourceLimit limit details))
    (hids : ∀ o, g₀.find? o = none → pastOut o = none) :
    Action.Ensures E (Network.signalDistinct node input signal) ⟨m, g⟩ fun _ w' =>
      Bench node away g₀ w'.agenda ∧
        Valid (v.after signal .only input t.facts) (w'.agenda.openAt node) w'.memory ∧
        Since past pastOut (v.after signal .only input t.facts) (w'.agenda.openAt node) w'.memory := by
  cases signal with
  | insert =>
    have hnew : ¬ v.Held .only input := fun h => hexpects.1 h rfl
    have hpast : past.members.get? input ≠ some t.facts.identity := by
      rw [← hs.untouched hquiet, hv.held.get?_none hnew]
      simp
    exact insert_spec hb hv hs hnew hpast ht hne hlimit hids
  | update =>
    have hheld : v.Held .only input := hexpects.2 (by simp)
    obtain ⟨identity, hm⟩ := hv.held.get?_some hheld
    obtain ⟨c, hc⟩ := hv.classed hm
    show Action.Ensures E (update node input) ⟨m, g⟩ _
    unfold update
    simp only [Action.ensures_bind, Bench.ensures_memory, hm, hb.ensures_inputFacts ht hne]
    split
    · next hsame =>
      subst hsame
      have ho : m.output? t.facts.identity = some c.output := by simp [output?, hc]
      obtain ⟨⟨old, sources⟩, hopen⟩ := hv.listing.opened ho
      simp only [hc]
      refine hb.refreshIfChanged hopen fun g' hb' hout => ?_
      exact ⟨hb', hv.touch hm ho hout, hs.touch hv hquiet hm ho hout⟩
    · next hmoved =>
      rw [Action.ensures_bind]
      refine (retract_spec hb hv hs hheld hquiet).mono ?_
      rintro _ w' ⟨hb', hv', hs'⟩
      have hpast : past.members.get? input ≠ some t.facts.identity := by
        rw [← hs.untouched hquiet, hm]
        simpa using Ne.symm hmoved
      refine (insert_spec hb' hv' hs' (by simp) hpast ht hne hlimit hids).mono fun _ w'' h => ?_
      rwa [View.tell_drop] at h
  | retract => exact retract_spec hb hv hs (hexpects.2 (by simp)) hquiet

end DistinctMemory

end ConstraintStreams
