import ConstraintStreams.Proofs.Constraint.Ledger
import ConstraintStreams.Proofs.Overflow

/-!
# Postings

What can be done to a ledger, as data. A posting that succeeds changes the match weights of the entries
and the weight in force, each on its own, and all else follows from the two: what an entry counts is
what the weight in force makes of its match weight, and the total is the exact sum of the entries. So it
does not matter when among the other postings the weight in force was changed.
-/

namespace ConstraintStreams

open ConstraintStreams.Action (KeepsUnless OverflowsIff)

variable {kind : ScoreKind}

/-- What can be done to a ledger. -/
inductive Posting (kind : ScoreKind)
  | insert (input : TupleId) (facts : Facts)
  | update (input : TupleId) (facts : Facts)
  | retract (input : TupleId)
  | reweigh (weight : Score kind) (order : Arrangement TupleId := .arrival)

namespace Posting

/-- Carries a posting out. -/
def post (c : Constraint kind) : Posting kind → Action (Ledger kind) Unit
  | insert input facts => Ledger.insert c input facts
  | update input facts => Ledger.update c input facts
  | retract input => Ledger.retract c input
  | reweigh weight order => Ledger.setWeight c weight order

/-- The posting changes the weight in force, and nothing else. -/
def reweighs : Posting kind → Bool
  | reweigh .. => true
  | _ => false

/-- The weight in force after a posting that succeeds. -/
def weightAfter (weight : Score kind) : Posting kind → Score kind
  | reweigh weight _ => weight
  | _ => weight

/-- The match weights with that of a tuple entered. -/
def enter (c : Constraint kind) (input : TupleId) (facts : Facts) (t : Table TupleId Int64) :
    Table TupleId Int64 :=
  match c.matchWeight facts with
  | .ok matchWeight => t.insert input matchWeight
  | .error _ => t

/-- The match weights after a posting that succeeds. -/
def weighingsAfter (c : Constraint kind) (t : Table TupleId Int64) : Posting kind → Table TupleId Int64
  | insert input facts => enter c input facts t
  | update input facts => enter c input facts (t.erase input)
  | retract input => t.erase input
  | reweigh .. => t

variable {c : Constraint kind}

/-- The other postings leave the weight in force. -/
theorem weight_reordered (postings : List (Posting kind)) (weight : Score kind) :
    (postings.filter fun p => !p.reweighs).foldl weightAfter weight = weight := by
  rw [List.foldl_filter]
  refine List.foldl_fixed' (fun p => ?_) postings
  cases p <;> rfl

/-- Another weight leaves the match weights. -/
theorem weighings_reordered (postings : List (Posting kind)) (t : Table TupleId Int64) :
    (postings.filter fun p => !p.reweighs).foldl (weighingsAfter c) t =
      postings.foldl (weighingsAfter c) t := by
  rw [List.foldl_filter]
  congr 1
  funext t p
  cases p <;> rfl

/-- Carries postings out, one after the other. -/
def postAll (c : Constraint kind) (postings : List (Posting kind)) : Action (Ledger kind) Unit :=
  postings.forM (post c)

end Posting

namespace Ledger

variable {c : Constraint kind} {l l' l₁ l₂ : Ledger kind} {input : TupleId} {facts : Facts}
  {entry : Entry kind} {matchWeight : Int64} {score : Score kind}

/-- The match weights of the tuples that match, in the order in which they were entered. -/
def weighings (l : Ledger kind) : Table TupleId Int64 := l.entries.mapValues fun _ => Entry.matchWeight

/-! ## When a posting overflows -/

/-- How entering a match ends, once its match weight and charge are known. -/
theorem insert_eq (hnew : l.entries.get? input = none) (hweight : c.matchWeight facts = .ok matchWeight)
    (hcharge : c.charge l.weight matchWeight = .ok score) :
    insert c input facts l = match l.total.checkedAdd score with
      | some total => .ok () { l with total, entries := l.entries.insert input ⟨matchWeight, score⟩ }
      | none => .error (.overflow (.total c.id)) l := by
  have habsent : l.entries.contains input = false := by rw [Table.contains, hnew]; rfl
  unfold insert
  rw [Action.bind_ok (Action.lift_eq_ok.2 ⟨hweight, rfl⟩), Action.bind_ok (Action.get_eq l),
    Action.bind_ok (Action.lift_eq_ok.2 ⟨hcharge, rfl⟩), habsent]
  cases htotal : l.total.checkedAdd score <;> rfl

/-- Entering a match overflows where the sum of all entries does afterwards. -/
theorem insert_overflowsIff (h : Balanced c l) (hnew : l.entries.get? input = none)
    (hweight : c.matchWeight facts = .ok matchWeight)
    (hcharge : c.charge l.weight matchWeight = .ok score) :
    OverflowsIff (Exceeds (l.entries.insert input ⟨matchWeight, score⟩)) (insert c input facts) l := by
  have heq := insert_eq hnew hweight hcharge
  rw [← checkedAdd_eq_none_iff h hnew]
  cases htotal : l.total.checkedAdd score with
  | some total =>
    rw [htotal] at heq
    exact .ok heq (by simp)
  | none =>
    rw [htotal] at heq
    exact .error heq rfl

/-- Striking a match out overflows where the sum of the other entries does. -/
theorem retract_overflowsIff (h : Balanced c l) (hentry : l.entries.get? input = some entry) :
    OverflowsIff (Exceeds (l.entries.erase input)) (retract c input) l := by
  have heq := retract_eq (c := c) hentry
  rw [← checkedSub_eq_none_iff h hentry]
  cases htotal : l.total.checkedSub entry.score with
  | some total =>
    rw [htotal] at heq
    exact .ok heq (by simp)
  | none =>
    rw [htotal] at heq
    exact .error heq rfl

/-- Entering a match anew overflows where the sum does with the match struck out, or afterwards. -/
theorem update_overflowsIff (h : Balanced c l) (hentry : l.entries.get? input = some entry)
    (hweight : c.matchWeight facts = .ok matchWeight)
    (hcharge : c.charge l.weight matchWeight = .ok score) :
    OverflowsIff (Exceeds (l.entries.erase input) ∨
      Exceeds ((l.entries.erase input).insert input ⟨matchWeight, score⟩)) (update c input facts) l := by
  refine (retract_overflowsIff h hentry).bind fun _ l' hretract => ?_
  rw [retract_eq hentry] at hretract
  cases htotal : l.total.checkedSub entry.score with
  | none => rw [htotal] at hretract; cases hretract
  | some total =>
    rw [htotal] at hretract
    cases hretract
    refine insert_overflowsIff (h.erase hentry htotal) ?_ hweight hcharge
    rw [Table.get?_erase, if_pos rfl]

/-- A posting overflows exactly where a sum of entries is out of range. An entry that is brought up to
date is struck out first, and the sum of the others has to be a score, too. -/
structure OverflowsExactly (c : Constraint kind) (l : Ledger kind) : Prop where
  insert : ∀ {input facts matchWeight score}, l.entries.get? input = none →
    c.matchWeight facts = .ok matchWeight → c.charge l.weight matchWeight = .ok score →
    OverflowsIff (Exceeds (l.entries.insert input ⟨matchWeight, score⟩)) (Ledger.insert c input facts) l
  retract : ∀ {input entry}, l.entries.get? input = some entry →
    OverflowsIff (Exceeds (l.entries.erase input)) (Ledger.retract c input) l
  update : ∀ {input entry facts matchWeight score}, l.entries.get? input = some entry →
    c.matchWeight facts = .ok matchWeight → c.charge l.weight matchWeight = .ok score →
    OverflowsIff (Exceeds (l.entries.erase input) ∨
      Exceeds ((l.entries.erase input).insert input ⟨matchWeight, score⟩)) (Ledger.update c input facts) l

theorem Balanced.overflowsExactly (h : Balanced c l) : OverflowsExactly c l :=
  ⟨insert_overflowsIff h, retract_overflowsIff h, update_overflowsIff h⟩

/-! ## What postings make of a ledger -/

/-- A weight is in force, and every entry counts what it makes of its match weight. -/
structure Priced (c : Constraint kind) (weight : Score kind) (l : Ledger kind) : Prop
    extends Charged c weight l.entries where
  weight_eq : l.weight = weight

theorem keepsPriced_insert (c : Constraint kind) (weight : Score kind) (input : TupleId) (facts : Facts) :
    Action.Keeps (Priced c weight) (insert c input facts) := by
  refine .lift_bind fun matchWeight _ => .get_bind fun l h => .lift_bind fun score hcharge => ?_
  split
  · exact .throw _
  · rw [h.weight_eq] at hcharge
    exact .lift_bind fun total _ => .set ⟨h.toCharged.insert hcharge, h.weight_eq⟩

/-- The entry is struck out also where the total is given up. -/
theorem keepsPriced_retract (c : Constraint kind) (weight : Score kind) (input : TupleId) :
    Action.Keeps (Priced c weight) (retract c input) := by
  refine .get_bind fun l h => ?_
  split
  · exact .throw _
  · exact .bind (.set ⟨h.toCharged.erase input, h.weight_eq⟩) fun _ => .lift_bind fun total _ =>
      .modify fun _ h' => ⟨h'.toCharged, h'.weight_eq⟩

/-- Whichever way a posting ends, every entry is counted with the weight in force. -/
theorem keepsPriced_post (c : Constraint kind) (weight : Score kind) {p : Posting kind}
    (hp : p.reweighs = false) : Action.Keeps (Priced c weight) (p.post c) := by
  cases p with
  | insert input facts => exact keepsPriced_insert c weight input facts
  | update input facts =>
    exact .bind (keepsPriced_retract c weight input) fun _ => keepsPriced_insert c weight input facts
  | retract input => exact keepsPriced_retract c weight input
  | reweigh => cases hp

/-- What a posting that succeeds makes of the weight in force and of the match weights. -/
structure Posts (c : Constraint kind) (p : Posting kind) (l l' : Ledger kind) : Prop where
  weight_eq : l'.weight = p.weightAfter l.weight
  weighings_eq : l'.weighings = p.weighingsAfter c l.weighings

theorem insert_posts (c : Constraint kind) (input : TupleId) (facts : Facts) (l : Ledger kind) :
    Action.Ensures (fun _ => True) (insert c input facts) l fun _ l' =>
      l'.weight = l.weight ∧ l'.weighings = Posting.enter c input facts l.weighings := by
  unfold insert
  simp only [Action.ensures_bind, Action.ensures_get, Action.ensures_lift]
  refine ⟨fun matchWeight hweight => ⟨fun score _ => ?_, fun _ _ => trivial⟩, fun _ _ => trivial⟩
  split
  · trivial
  · simp only [Action.ensures_bind, Action.ensures_lift, Action.ensures_set]
    refine ⟨fun total _ => ⟨trivial, ?_⟩, fun _ _ => trivial⟩
    rw [Posting.enter, hweight]
    exact Table.mapValues_insert l.entries Entry.matchWeight input ⟨matchWeight, score⟩

theorem retract_posts (c : Constraint kind) (input : TupleId) (l : Ledger kind) :
    Action.Ensures (fun _ => True) (retract c input) l fun _ l' =>
      l'.weight = l.weight ∧ l'.weighings = l.weighings.erase input := by
  unfold retract
  rw [Action.ensures_bind, Action.ensures_get]
  split
  · trivial
  · simp only [Action.ensures_bind, Action.ensures_set, Action.ensures_lift, Action.ensures_modify]
    exact ⟨fun total _ => ⟨trivial, Table.mapValues_erase l.entries Entry.matchWeight input⟩,
      fun _ _ => trivial⟩

theorem post_posts (c : Constraint kind) (p : Posting kind) (l : Ledger kind) :
    Action.Ensures (fun _ => True) (p.post c) l fun _ l' => Posts c p l l' := by
  cases p with
  | insert input facts => exact (insert_posts c input facts l).mono fun _ _ h => ⟨h.1, h.2⟩
  | update input facts =>
    show Action.Ensures _ (update c input facts) l _
    unfold update
    rw [Action.ensures_bind]
    refine (retract_posts c input l).mono fun _ l' h => ?_
    refine (insert_posts c input facts l').mono fun _ l'' h' => ⟨h'.1.trans h.1, ?_⟩
    rw [h'.2, h.2]
    rfl
  | retract input => exact (retract_posts c input l).mono fun _ _ h => ⟨h.1, h.2⟩
  | reweigh weight order =>
    exact (setWeight_ends c weight order l).ensures.mono fun _ _ h => ⟨h.weight_eq, h.matchWeights_eq⟩

/-- A ledger stays balanced, whichever way a posting ends, unless the ledger is given up. -/
theorem keepsBalanced_post (c : Constraint kind) (p : Posting kind) :
    KeepsUnless (GivenUp c) (Balanced c) (p.post c) := by
  cases p with
  | insert input facts => exact .of_keeps (keepsBalanced_insert c input facts)
  | update input facts => exact keepsBalanced_update c input facts
  | retract input => exact keepsBalanced_retract c input
  | reweigh weight order =>
    refine .of_keeps fun l h => (setWeight_ends c weight order l).mono (fun _ _ h' => h'.balanced) ?_
    rintro _ rfl
    exact h

/-- The ledgers that postings lead to, beginning with a new one. One is given up when striking out a match
takes the total out of range: the entry is gone by then, and no total can be the sum of the others. -/
inductive Kept (c : Constraint kind) : Ledger kind → Prop
  | opened (weight : Score kind) : Kept c (.new weight)
  | posted {l l' : Ledger kind} (p : Posting kind) (h : Kept c l) (hpost : p.post c l = .ok () l') : Kept c l'
  | refused {l l' : Ledger kind} {e : Error} (p : Posting kind) (h : Kept c l) (hpost : p.post c l = .error e l')
    (hleft : ¬ Exceeds l'.entries) : Kept c l'

theorem Kept.balanced (h : Kept c l) : Balanced c l := by
  induction h with
  | opened weight => exact .new weight
  | posted p _ hpost ih => exact (keepsBalanced_post c p _ ih).of_ok hpost
  | refused p _ hpost hleft ih =>
    exact ((keepsBalanced_post c p _ ih).of_error hpost).resolve_left fun hgone => hleft hgone.2

theorem Kept.postAll {postings : List (Posting kind)} (h : Kept c l)
    (hrun : Posting.postAll c postings l = .ok () l') : Kept c l' := by
  refine (Action.Ensures.forM (E := fun _ => True) (fun _ l => Kept c l) ?_ h).of_ok hrun
  intro p _ l h
  unfold Action.Ensures
  cases hpost : p.post c l with
  | ok _ l' => exact h.posted p hpost
  | error e l' => trivial

/-- What postings that succeed make of the weight in force and of the match weights. -/
theorem postAll_posts {postings : List (Posting kind)} (h : Balanced c l)
    (hrun : Posting.postAll c postings l = .ok () l') : Balanced c l' ∧
      l'.weight = postings.foldl Posting.weightAfter l.weight ∧
      l'.weighings = postings.foldl (Posting.weighingsAfter c) l.weighings := by
  -- What the postings that are left make of the two stays the same.
  refine (Action.Ensures.forM (E := fun _ => True) (fun rest m => Balanced c m ∧
    rest.foldl Posting.weightAfter m.weight = postings.foldl Posting.weightAfter l.weight ∧
    rest.foldl (Posting.weighingsAfter c) m.weighings =
      postings.foldl (Posting.weighingsAfter c) l.weighings) ?_ ⟨h, rfl, rfl⟩).of_ok hrun
  rintro p rest m ⟨hm, hweight, hweighings⟩
  have hkeeps := keepsBalanced_post c p m hm
  unfold Action.Ensures
  cases hp : p.post c m with
  | error e m' => trivial
  | ok _ m' =>
    obtain ⟨hw, ht⟩ := (post_posts c p m).of_ok hp
    refine ⟨hkeeps.of_ok hp, ?_, ?_⟩
    · rw [hw]
      exact hweight
    · rw [ht]
      exact hweighings

/-! ## The order of the weights -/

/-- What a match counts where it is not refused. -/
def countOf (c : Constraint kind) (weight : Score kind) (matchWeight : Int64) : Score kind :=
  match c.charge weight matchWeight with
  | .ok score => score
  | .error _ => .zero

/-- The entries of a ledger that balances follow from the weight in force and the match weights. -/
theorem Balanced.entries_eq (h : Balanced c l) :
    l.entries = l.weighings.mapValues fun _ m => ⟨m, countOf c l.weight m⟩ := by
  refine Table.ext ?_
  show l.entries.entries = (l.entries.entries.map _).map _
  rw [List.map_map]
  refine (List.map_id _).symm.trans (List.map_congr_left fun e he => ?_)
  have hcharge := h.charged (Table.get?_eq_some_iff.2 he)
  simp [countOf, hcharge]

/-- There is one balanced ledger with given match weights and weight in force. -/
theorem Balanced.unique (h : Balanced c l) (h' : Balanced c l') (hweight : l.weight = l'.weight)
    (hweighings : l.weighings = l'.weighings) : l = l' := by
  have hentries : l.entries = l'.entries := by
    rw [h.entries_eq, h'.entries_eq, hweight, hweighings]
  have htotal : l.total = l'.total := Score.ext fun i => by
    rw [h.total_eq, h'.total_eq, hentries]
  cases l
  cases l'
  cases hweight
  cases hentries
  cases htotal
  rfl

/-- Postings that all succeed lead to the ledger to which they lead when the weight that is in force in
the end is put in force first, if they succeed then as well. -/
theorem postAll_reordered {postings : List (Posting kind)} {order : Arrangement TupleId}
    (h : Balanced c l) (hrun : Posting.postAll c postings l = .ok () l₁)
    (hset : setWeight c l₁.weight order l = .ok () l')
    (hreplay : Posting.postAll c (postings.filter fun p => !p.reweighs) l' = .ok () l₂) : l₂ = l₁ := by
  have hreweighed := (setWeight_ends c l₁.weight order l).of_ok hset
  have hsame : l'.weighings = l.weighings := hreweighed.matchWeights_eq
  obtain ⟨h₁, hw₁, ht₁⟩ := postAll_posts h hrun
  obtain ⟨h₂, hw₂, ht₂⟩ := postAll_posts hreweighed.balanced hreplay
  refine h₂.unique h₁ ?_ ?_
  · rw [hw₂, hreweighed.weight_eq]
    exact Posting.weight_reordered postings l₁.weight
  · rw [ht₂, ht₁, hsame, Posting.weighings_reordered]

end Ledger

end ConstraintStreams
