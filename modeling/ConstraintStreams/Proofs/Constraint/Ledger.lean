import ConstraintStreams.Network.Basic
import ConstraintStreams.Proofs.Operator.Bench
import ConstraintStreams.Proofs.Score
import ConstraintStreams.Proofs.Table

/-!
# Ledgers add up

A ledger has one entry for each tuple that its constraint was told about. Every entry counts what
the weight in force makes of its match weight, and the total is the exact sum of the entries.
-/

namespace ConstraintStreams

namespace Ledger

variable {kind : ScoreKind}

/-- The exact sum of a level over some entries. -/
def exactSum (entries : List (Entry kind)) (i : Fin kind.depth) : Int :=
  (entries.map fun e => e.score.level i).sum

/-- Every entry counts what the weight in force makes of its match weight, and the total is the exact
sum of the entries. -/
structure Balanced (c : Constraint kind) (l : Ledger kind) : Prop where
  charged : ∀ {input entry}, l.entries.get? input = some entry →
    c.charge l.weight entry.matchWeight = .ok entry.score
  total_eq : ∀ i, l.total.level i = exactSum l.entries.values i

/-- What holds of a ledger between signals. -/
structure Valid (c : Constraint kind) (v : View) (l : Ledger kind) : Prop where
  held : v.Lists .only l.entries
  weighed : ∀ {input entry facts}, l.entries.get? input = some entry → v.Known .only input facts →
    c.matchWeight facts = .ok entry.matchWeight
  charged : ∀ {input entry}, l.entries.get? input = some entry →
    c.charge l.weight entry.matchWeight = .ok entry.score
  total_eq : ∀ i, l.total.level i = exactSum l.entries.values i

variable {E : Error → Prop} {c : Constraint kind} {v v' : View} {l : Ledger kind} {g : Agenda}
  {input : TupleId} {t : Tuple} {facts : Facts}

/-! ## Balance -/

/-- A new entry adds what it counts. -/
theorem exactSum_insert {t : Table TupleId (Entry kind)} (h : t.get? input = none) (entry : Entry kind)
    (i : Fin kind.depth) : exactSum (t.insert input entry).values i =
      exactSum t.values i + entry.score.level i := by
  simp [exactSum, Table.values_insert_of_none h]

/-- An entry that is struck out takes away what it counted. -/
theorem exactSum_erase {t : Table TupleId (Entry kind)} {entry : Entry kind}
    (h : t.get? input = some entry) (i : Fin kind.depth) :
    exactSum (t.erase input).values i = exactSum t.values i - entry.score.level i := by
  have hsum := ((Table.values_perm_erase h).map fun e => e.score.level i).sum_eq
  rw [List.map_cons, List.sum_cons] at hsum
  unfold exactSum
  omega

/-- The exact sum of some entries is out of range at a level. -/
def Exceeds (t : Table TupleId (Entry kind)) : Prop := ∃ i, ¬ Fits (exactSum t.values i)

instance (t : Table TupleId (Entry kind)) : Decidable (Exceeds t) :=
  inferInstanceAs (Decidable (∃ _, _))

/-- Every entry counts what a weight makes of its match weight. -/
structure Charged (c : Constraint kind) (weight : Score kind) (t : Table TupleId (Entry kind)) :
    Prop where
  charged : ∀ {input entry}, t.get? input = some entry →
    c.charge weight entry.matchWeight = .ok entry.score

namespace Charged

variable {weight score : Score kind} {matchWeight : Int64} {t : Table TupleId (Entry kind)}

theorem empty : Charged c weight ∅ where
  charged h := by simp [EmptyCollection.emptyCollection] at h

theorem insert (h : Charged c weight t) (hcharge : c.charge weight matchWeight = .ok score) :
    Charged c weight (t.insert input ⟨matchWeight, score⟩) where
  charged {x entry} hx := by
    rw [Table.get?_insert] at hx
    split at hx
    · cases hx
      exact hcharge
    · exact h.charged hx

theorem erase (h : Charged c weight t) (input : TupleId) : Charged c weight (t.erase input) where
  charged {x entry} hx := by
    rw [Table.get?_erase] at hx
    split at hx
    · cases hx
    · exact h.charged hx

end Charged

theorem Balanced.new (weight : Score kind) : Balanced c (.new weight) where
  charged := Charged.empty.charged
  total_eq i := by simp [Ledger.new, exactSum, EmptyCollection.emptyCollection, Table.empty,
    Table.values]

theorem Balanced.insert {matchWeight : Int64} {score total : Score kind} (h : Balanced c l)
    (hnew : l.entries.get? input = none) (hcharge : c.charge l.weight matchWeight = .ok score)
    (htotal : l.total.checkedAdd score = some total) :
    Balanced c { l with total, entries := l.entries.insert input ⟨matchWeight, score⟩ } where
  charged := (Charged.insert ⟨h.charged⟩ hcharge).charged
  total_eq := by
    intro i
    rw [exactSum_insert hnew, ← h.total_eq]
    exact Score.ofLevels?_eq_some_iff.1 htotal i

theorem Balanced.erase {entry : Entry kind} {total : Score kind} (h : Balanced c l)
    (hold : l.entries.get? input = some entry)
    (htotal : l.total.checkedSub entry.score = some total) :
    Balanced c { l with total, entries := l.entries.erase input } where
  charged := (Charged.erase ⟨h.charged⟩ input).charged
  total_eq := by
    intro i
    rw [exactSum_erase hold, ← h.total_eq]
    exact Score.ofLevels?_eq_some_iff.1 htotal i

theorem Balanced.not_exceeds (h : Balanced c l) : ¬ Exceeds l.entries := by
  rintro ⟨i, hi⟩
  exact hi (h.total_eq i ▸ fits_toInt _)

theorem checkedAdd_eq_none_iff {matchWeight : Int64} {score : Score kind} (h : Balanced c l)
    (hnew : l.entries.get? input = none) :
    l.total.checkedAdd score = none ↔ Exceeds (l.entries.insert input ⟨matchWeight, score⟩) := by
  have hsum : (fun i => l.total.level i + score.level i) =
      exactSum (l.entries.insert input ⟨matchWeight, score⟩).values := by
    funext i
    rw [exactSum_insert hnew, h.total_eq]
  rw [Score.checkedAdd, Score.ofLevels?_eq_none_iff, Exceeds, ← hsum]

theorem checkedSub_eq_none_iff {entry : Entry kind} (h : Balanced c l)
    (hentry : l.entries.get? input = some entry) :
    l.total.checkedSub entry.score = none ↔ Exceeds (l.entries.erase input) := by
  have hsum : (fun i => l.total.level i - entry.score.level i) =
      exactSum (l.entries.erase input).values := by
    funext i
    rw [exactSum_erase hentry, h.total_eq]
  rw [Score.checkedSub, Score.ofLevels?_eq_none_iff, Exceeds, ← hsum]

theorem orTotalOverflow_eq_ok {score? : Option (Score kind)} {score : Score kind} :
    orTotalOverflow c score? = .ok score ↔ score? = some score := by
  cases score? <;> simp [orTotalOverflow]

/-- A new match is entered as a whole or not at all. -/
theorem keepsBalanced_insert (c : Constraint kind) (input : TupleId) (facts : Facts) :
    Action.Keeps (Balanced c) (insert c input facts) := by
  refine .lift_bind fun matchWeight _ => ?_
  intro l h
  rw [Action.ends_bind, Action.ends_get, Action.ends_bind, Action.ends_lift]
  refine ⟨fun score hcharge => ?_, fun _ _ => h⟩
  split
  · exact h
  · next hnew =>
    rw [Action.ends_bind, Action.ends_lift]
    refine ⟨fun total htotal => ?_, fun _ _ => h⟩
    have hnone : l.entries.get? input = none := by simpa [Table.contains] using hnew
    exact h.insert hnone hcharge (orTotalOverflow_eq_ok.1 htotal)

/-- How striking a match out ends. -/
theorem retract_eq {entry : Entry kind} (h : l.entries.get? input = some entry) :
    retract c input l = match l.total.checkedSub entry.score with
      | some total => .ok () { l with total, entries := l.entries.erase input }
      | none => .error (.overflow (.total c.id)) { l with entries := l.entries.erase input } := by
  unfold retract
  rw [Action.bind_ok (Action.get_eq l), h]
  cases htotal : l.total.checkedSub entry.score <;> simp only [htotal, orTotalOverflow] <;> rfl

/-- The ledger has been given up: the total is reported to be out of range, and so is the exact sum of the
entries that are left. -/
def GivenUp (c : Constraint kind) (e : Error) (l : Ledger kind) : Prop :=
  e = .overflow (.total c.id) ∧ Exceeds l.entries

/-- A match is struck out as a whole or not at all, unless the total leaves the range of scores. -/
theorem keepsBalanced_retract (c : Constraint kind) (input : TupleId) :
    Action.KeepsUnless (GivenUp c) (Balanced c) (retract c input) := by
  intro l h
  cases hentry : l.entries.get? input with
  | none =>
    have hnone : retract c input l = .error (.inconsistent (.noMatch c.id input)) l := by
      unfold retract
      rw [Action.bind_ok (Action.get_eq l), hentry]
      rfl
    exact Action.endsUnless_of_error hnone (.inr h)
  | some entry =>
    have hsome := retract_eq (c := c) hentry
    cases htotal : l.total.checkedSub entry.score with
    | none =>
      rw [htotal] at hsome
      exact Action.endsUnless_of_error hsome (.inl ⟨rfl, (checkedSub_eq_none_iff h hentry).1 htotal⟩)
    | some total =>
      rw [htotal] at hsome
      exact Action.endsUnless_of_ok hsome (h.erase hentry htotal)

/-- So is a match that has changed. -/
theorem keepsBalanced_update (c : Constraint kind) (input : TupleId) (facts : Facts) :
    Action.KeepsUnless (GivenUp c) (Balanced c) (update c input facts) :=
  .bind (keepsBalanced_retract c input) fun _ => .of_keeps (keepsBalanced_insert c input facts)

/-! ## Validity -/

theorem Valid.balanced (h : Valid c v l) : Balanced c l := ⟨h.charged, h.total_eq⟩

theorem Valid.fades (h : Valid c v l) (hv : View.Fades v v') : Valid c v' l where
  held := h.held.fades hv
  weighed he hk := h.weighed he (hv.known hk)
  charged := h.charged
  total_eq := h.total_eq

theorem Valid.new (weight : Score kind) (hv : ∀ side input, v.told side input = none) :
    Valid c v (.new weight) where
  held := .empty hv
  weighed h := by simp [Ledger.new, EmptyCollection.emptyCollection] at h
  charged := (Balanced.new weight).charged
  total_eq := (Balanced.new (c := c) weight).total_eq

/-- A constraint that was told nothing has no entries, and its total is zero. -/
theorem Valid.blank (h : Valid c v l) (hv : ∀ side input, v.told side input = none) :
    l.entries = ∅ ∧ l.total = .zero := by
  have hentries : l.entries = ∅ := h.held.eq_empty hv
  refine ⟨hentries, Score.ext fun i => ?_⟩
  rw [h.total_eq i, hentries, Score.level_zero]
  rfl

theorem Valid.insert {matchWeight : Int64} {score total : Score kind} (h : Valid c v l)
    (hnew : l.entries.get? input = none) (hweight : c.matchWeight facts = .ok matchWeight)
    (hcharge : c.charge l.weight matchWeight = .ok score)
    (htotal : l.total.checkedAdd score = some total) :
    Valid c (v.tell .only input facts)
      { l with total, entries := l.entries.insert input ⟨matchWeight, score⟩ } where
  held := h.held.insert facts _
  weighed := by
    intro x entry f hx hk
    rw [Table.get?_insert] at hx
    split at hx
    · next he =>
      subst he
      cases hx
      rw [View.known_tell_self] at hk
      exact hk ▸ hweight
    · next hne =>
      rw [View.known_tell_of_ne (by simp [hne])] at hk
      exact h.weighed hx hk
  charged := (h.balanced.insert hnew hcharge htotal).charged
  total_eq := (h.balanced.insert hnew hcharge htotal).total_eq

theorem Valid.erase {entry : Entry kind} {total : Score kind} (h : Valid c v l)
    (hold : l.entries.get? input = some entry)
    (htotal : l.total.checkedSub entry.score = some total) :
    Valid c (v.drop .only input) { l with total, entries := l.entries.erase input } where
  held := h.held.erase
  weighed := by
    intro x e f hx hk
    rw [Table.get?_erase] at hx
    split at hx
    · cases hx
    · exact h.weighed hx (View.known_drop.1 hk).2
  charged := (h.balanced.erase hold htotal).charged
  total_eq := (h.balanced.erase hold htotal).total_eq

theorem insert_spec (h : Valid c v l) (hnew : ¬ v.Held .only input)
    (hweigher : ∀ e, c.matchWeight facts = .error e → E e)
    (hoverflow : ∀ site, E (.overflow site)) :
    Action.Ensures E (insert c input facts) l fun _ l' =>
      l'.weight = l.weight ∧ Valid c (v.tell .only input facts) l' := by
  have hnone := h.held.get?_none hnew
  unfold insert
  simp only [Action.ensures_bind, Action.ensures_get, Action.ensures_lift]
  refine ⟨fun matchWeight hweight => ⟨fun score hcharge => ?_, ?_⟩, hweigher⟩
  · split
    · next hc =>
      rw [Table.contains, hnone] at hc
      cases hc
    · simp only [Action.ensures_bind, Action.ensures_lift, Action.ensures_set]
      unfold orTotalOverflow
      refine ⟨fun total htotal => ?_, ?_⟩
      · split at htotal
        · next s hs =>
          cases htotal
          exact ⟨trivial, h.insert hnone hweight hcharge hs⟩
        · cases htotal
      · intro e he
        split at he
        · cases he
        · cases he; exact hoverflow _
  · intro e he
    unfold Constraint.charge at he
    split at he
    · cases he
    · cases he; exact hoverflow _

theorem retract_spec (h : Valid c v l) (hheld : v.Held .only input)
    (hoverflow : ∀ site, E (.overflow site)) :
    Action.Ensures E (retract c input) l fun _ l' =>
      l'.weight = l.weight ∧ Valid c (v.drop .only input) l' := by
  obtain ⟨entry, hentry⟩ := h.held.get?_some hheld
  unfold retract
  simp only [Action.ensures_bind, Action.ensures_get, hentry, Action.ensures_set,
    Action.ensures_lift, Action.ensures_modify]
  unfold orTotalOverflow
  refine ⟨fun total htotal => ?_, fun e he => ?_⟩
  · split at htotal
    · next s hs =>
      cases htotal
      exact ⟨trivial, h.erase hentry hs⟩
    · cases htotal
  · split at he
    · cases he
    · cases he; exact hoverflow _

/-- On each signal, a ledger brings the entry of the tuple up to date. -/
theorem signal_spec (h : Valid c v l) {signal : Signal} (hexpects : v.Expects signal .only input)
    (ht : g.find? input = some t) (hweigher : ∀ facts e, c.matchWeight facts = .error e → E e)
    (hoverflow : ∀ site, E (.overflow site)) :
    Action.Ensures E (Network.signalConstraint c input signal) ⟨l, g⟩ fun _ w' =>
      w'.agenda = g ∧ w'.memory.weight = l.weight ∧
        Valid c (v.after signal .only input t.facts) w'.memory := by
  cases signal with
  | insert =>
    have hnew : ¬ v.Held .only input := fun hh => hexpects.1 hh rfl
    unfold Network.signalConstraint
    rw [Action.ensures_bind, Bench.ensures_facts ht]
    exact Action.ensures_within.2 ((insert_spec h hnew (hweigher t.facts) hoverflow).mono
      fun _ l' h' => ⟨rfl, h'⟩)
  | update =>
    have hheld : v.Held .only input := hexpects.2 (by simp)
    unfold Network.signalConstraint
    rw [Action.ensures_bind, Bench.ensures_facts ht]
    refine Action.ensures_within.2 ?_
    unfold update
    rw [Action.ensures_bind]
    refine (retract_spec h hheld hoverflow).mono fun _ l' ⟨hweight, h'⟩ => ?_
    refine (insert_spec h' (by simp) (hweigher t.facts) hoverflow).mono fun _ l'' ⟨hweight', h''⟩ => ?_
    rw [View.tell_drop] at h''
    exact ⟨rfl, hweight'.trans hweight, h''⟩
  | retract =>
    have hheld : v.Held .only input := hexpects.2 (by simp)
    exact Action.ensures_within.2 ((retract_spec h hheld hoverflow).mono fun _ l' h' => ⟨rfl, h'⟩)

/-- The scores of some entries added to a score, one by one, if every sum on the way is a score. -/
def addAll (start : Score kind) (entries : List (Entry kind)) : Option (Score kind) :=
  entries.foldlM (fun sum e => sum.checkedAdd e.score) start

/-- What the scores of some entries add up to is their exact sum. -/
theorem level_addAll {entries : List (Entry kind)} {total : Score kind}
    (h : addAll .zero entries = some total) (i : Fin kind.depth) :
    total.level i = exactSum entries i := by
  have hadd : Score.addUp .zero (entries.map Entry.score) = some total := by
    rw [← h, Score.addUp, List.foldlM_map]
    rfl
  rw [Score.level_addUp hadd, Score.level_zero, Int.zero_add, List.map_map]
  rfl

/-! ## Another weight -/

/-- An entry whose score changes changes the sum by as much. -/
theorem exactSum_replace {t : Table TupleId (Entry kind)} {entry : Entry kind}
    (h : t.get? input = some entry) (entry' : Entry kind) (i : Fin kind.depth) :
    exactSum (t.insert input entry').values i =
      exactSum t.values i - entry.score.level i + entry'.score.level i := by
  have hnew : (t.insert input entry').get? input = some entry' := by simp
  have herase := exactSum_erase hnew i
  rw [Table.erase_insert, exactSum_erase h] at herase
  omega

/-- How some entries are recomputed under a weight, one after the other: their match weights stay, each
is counted with the weight, and the total grows by what they count. -/
structure Rescores (c : Constraint kind) (weight : Score kind) (es : List (TupleId × Entry kind))
    (before after : Table TupleId (Entry kind) × Score kind) : Prop where
  matchWeights_eq : after.1.mapValues (fun _ => Entry.matchWeight) =
    before.1.mapValues fun _ => Entry.matchWeight
  charged : ∀ {input entry}, input ∈ es.map Prod.fst → after.1.get? input = some entry →
    c.charge weight entry.matchWeight = .ok entry.score
  others : ∀ {input}, input ∉ es.map Prod.fst → after.1.get? input = before.1.get? input
  total_eq : ∀ i, after.2.level i + exactSum before.1.values i =
    before.2.level i + exactSum (es.map Prod.snd) i + exactSum after.1.values i

/-- Recomputing one entry. -/
theorem rescores_one {weight : Score kind} {before after : Table TupleId (Entry kind) × Score kind}
    {e : TupleId × Entry kind} (hlisted : before.1.get? e.1 = some e.2)
    (h : rescore c weight before e = .ok after) : Rescores c weight [e] before after := by
  obtain ⟨score, hcharge, h⟩ := except_bind_eq_ok.1 h
  obtain ⟨total, htotal, h⟩ := except_bind_eq_ok.1 h
  cases h
  have hadd := Score.ofLevels?_eq_some_iff.1 (orTotalOverflow_eq_ok.1 htotal)
  refine ⟨?_, fun {input entry} hi he => ?_, fun {input} hi => ?_, fun i => ?_⟩
  · rw [Table.mapValues_insert]
    exact Table.insert_eq_self (by simp [Table.get?_mapValues, hlisted])
  · obtain rfl : input = e.1 := by simpa using hi
    rw [Table.get?_insert, if_pos rfl] at he
    cases he
    exact hcharge
  · rw [Table.get?_insert, if_neg fun he => hi (by simp [he])]
  · have hsum : exactSum ([e].map Prod.snd) i = e.2.score.level i := by simp [exactSum]
    rw [hadd i, hsum, exactSum_replace hlisted]
    dsimp only
    omega

/-- Recomputing several entries, which are of different tuples. -/
theorem rescores_all {weight : Score kind} {before after : Table TupleId (Entry kind) × Score kind}
    {es : List (TupleId × Entry kind)} (hnodup : (es.map Prod.fst).Nodup)
    (hlisted : ∀ e ∈ es, before.1.get? e.1 = some e.2)
    (h : es.foldlM (rescore c weight) before = .ok after) : Rescores c weight es before after := by
  induction es generalizing before with
  | nil =>
    obtain rfl : before = after := by simpa [pure, Except.pure] using h
    exact ⟨rfl, fun hi => (by cases hi), fun _ => rfl, fun i => by simp [exactSum]⟩
  | cons e rest ih =>
    rw [List.foldlM_cons] at h
    obtain ⟨next, hnext, h⟩ := except_bind_eq_ok.1 h
    rw [List.map_cons, List.nodup_cons] at hnodup
    have hone := rescores_one (hlisted e List.mem_cons_self) hnext
    have hlisted' (e' : TupleId × Entry kind) (he' : e' ∈ rest) : next.1.get? e'.1 = some e'.2 := by
      have hother : e'.1 ∉ [e].map Prod.fst := fun he =>
        hnodup.1 (List.mem_singleton.1 he ▸ List.mem_map_of_mem he')
      rw [hone.others hother]
      exact hlisted e' (List.mem_cons_of_mem e he')
    have hrest := ih hnodup.2 hlisted' h
    refine ⟨hrest.matchWeights_eq.trans hone.matchWeights_eq, fun {input entry} hi he => ?_,
      fun {input} hi => ?_, fun i => ?_⟩
    · by_cases hlater : input ∈ rest.map Prod.fst
      · exact hrest.charged hlater he
      · rw [hrest.others hlater] at he
        exact hone.charged (by simpa [hlater] using hi) he
    · rw [List.map_cons, List.mem_cons, not_or] at hi
      exact (hrest.others hi.2).trans (hone.others (by simpa using hi.1))
    · have h₁ := hone.total_eq i
      have h₂ := hrest.total_eq i
      simp only [exactSum, List.map_cons, List.map_nil, List.sum_cons, List.sum_nil] at h₁ h₂ ⊢
      omega

/-- What a ledger comes to under another weight: the matches are the same, and counted with it. -/
structure Reweighed (c : Constraint kind) (weight : Score kind) (l l' : Ledger kind) : Prop where
  weight_eq : l'.weight = weight
  matchWeights_eq : l'.entries.mapValues (fun _ => Entry.matchWeight) =
    l.entries.mapValues fun _ => Entry.matchWeight
  balanced : Balanced c l'

/-- An entry of a ledger under another weight is that of a match that there was. -/
theorem Reweighed.of_get? {weight : Score kind} {l' : Ledger kind} (h : Reweighed c weight l l')
    (input : TupleId) : (l'.entries.get? input).map Entry.matchWeight =
      (l.entries.get? input).map Entry.matchWeight := by
  have heq := congrArg (Table.get? · input) h.matchWeights_eq
  simpa only [Table.get?_mapValues] using heq

/-- In whichever order its entries are recomputed. -/
theorem underWeight_ok {weight : Score kind} {order : Arrangement TupleId} {l' : Ledger kind}
    (h : l.underWeight c weight order = .ok l') : Reweighed c weight l l' := by
  obtain ⟨⟨entries, total⟩, hfold, h⟩ := except_bind_eq_ok.1 h
  cases h
  have hscores := rescores_all (l.entries.nodup_keys_inOrder order) (fun e => Table.mem_inOrder.1) hfold
  refine ⟨rfl, hscores.matchWeights_eq, fun {input entry} he => hscores.charged ?_ he, fun i => ?_⟩
  · by_contra hi
    have hnone := hscores.others hi ▸ he
    exact hi (Table.mem_keys_inOrder.2 (List.mem_map_of_mem (Table.get?_eq_some_iff.1 hnone)))
  · have hsum : exactSum ((l.entries.inOrder order).map Prod.snd) i = exactSum l.entries.values i :=
      (((l.entries.inOrder_perm order).map Prod.snd).map fun e : Entry kind => e.score.level i).sum_eq
    have htotal := hscores.total_eq i
    rw [hsum, Score.level_zero, Int.zero_add, Int.add_comm] at htotal
    exact Int.add_left_cancel htotal

/-- It is only refused where what a match counts, or the total, is out of range. -/
theorem underWeight_error {weight : Score kind} {order : Arrangement TupleId} {e : Error}
    (hoverflow : ∀ site, E (.overflow site)) (h : l.underWeight c weight order = .error e) : E e := by
  rcases except_bind_eq_error.1 h with h | ⟨_, -, h⟩
  · refine except_error_of_foldlM (fun done entry e he => ?_) h
    rcases except_bind_eq_error.1 he with he | ⟨score, -, he⟩
    · unfold Constraint.charge at he
      split at he
      · cases he
      · cases he; exact hoverflow _
    · rcases except_bind_eq_error.1 he with he | ⟨_, -, he⟩
      · unfold orTotalOverflow at he
        split at he
        · cases he
        · cases he; exact hoverflow _
      · cases he
  · cases h

/-- Putting another weight in force balances the ledger anew, or changes nothing. -/
theorem setWeight_ends (c : Constraint kind) (weight : Score kind) (order : Arrangement TupleId)
    (l : Ledger kind) :
    Action.Ends (setWeight c weight order) l (fun _ l' => Reweighed c weight l l') (· = l) := by
  unfold setWeight
  simp only [Action.ends_bind, Action.ends_get, Action.ends_lift, Action.ends_set]
  exact ⟨fun l' hl' => underWeight_ok hl', fun _ _ => trivial⟩

/-- Another weight is in force; the matches are the same, and counted with it. -/
theorem setWeight_spec (h : Valid c v l) (weight : Score kind) (order : Arrangement TupleId)
    (hoverflow : ∀ site, E (.overflow site)) :
    Action.Ensures E (setWeight c weight order) l fun _ l' => l'.weight = weight ∧ Valid c v l' := by
  unfold setWeight
  simp only [Action.ensures_bind, Action.ensures_get, Action.ensures_lift, Action.ensures_set]
  refine ⟨fun l' hl' => ?_, fun e => underWeight_error hoverflow⟩
  have hset := underWeight_ok hl'
  refine ⟨hset.weight_eq, fun input => ?_, fun {input entry' facts} he hk => ?_, hset.balanced.charged,
    hset.balanced.total_eq⟩
  · have hsame := congrArg Option.isSome (hset.of_get? input)
    rw [Option.isSome_map, Option.isSome_map] at hsame
    rw [← h.held input, hsame]
  · have hsame := hset.of_get? input
    rw [he, Option.map_some] at hsame
    obtain ⟨entry, hl, hweight⟩ := Option.map_eq_some_iff.1 hsame.symm
    rw [← hweight]
    exact h.weighed hl hk

end Ledger

end ConstraintStreams
