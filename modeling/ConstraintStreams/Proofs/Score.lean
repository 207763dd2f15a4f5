import Mathlib.Algebra.Order.Ring.Int
import Mathlib.Algebra.BigOperators.Group.List.Basic
import Mathlib.Data.List.OfFn
import ConstraintStreams.Score
import ConstraintStreams.Proofs.Action

/-!
# Scores as an ordered group

Adding and subtracting scores goes through lists: the levels of both are listed and paired, each pair
is added as words, and a score is read off the list of the results, if there is a result for each pair.
Comparing them goes by the fields of their records. Both are laws about the exact integer levels, where
they fit together: the order is the lexicographic one, a sum is there if all its levels are words, and
adding the same score on both sides keeps the order. As far as words reach, scores are therefore an
ordered group, and the order in which some scores are added up makes no difference.
-/

namespace ConstraintStreams

/-! ## Records -/

/-- The record of a score of one level. -/
structure SimpleRecord where
  simpleValue : Int64
  deriving Ord

/-- The record of a score of two levels. Records are compared field by field, as the fields stand. -/
structure HardSoftRecord where
  hardScore : Int64
  softScore : Int64
  deriving Ord

/-- The record of a score of three levels. -/
structure HardMediumSoftRecord where
  hardScore : Int64
  mediumScore : Int64
  softScore : Int64
  deriving Ord

namespace ScoreKind

/-- What a score of the kind is recorded as. -/
def Record : ScoreKind → Type
  | simple => SimpleRecord
  | hardSoft => HardSoftRecord
  | hardMediumSoft => HardMediumSoftRecord

instance : (kind : ScoreKind) → Ord kind.Record
  | simple => inferInstanceAs (Ord SimpleRecord)
  | hardSoft => inferInstanceAs (Ord HardSoftRecord)
  | hardMediumSoft => inferInstanceAs (Ord HardMediumSoftRecord)

/-- The fields of a record as a list, most significant first. -/
def Record.toList : {kind : ScoreKind} → kind.Record → List Int64
  | simple, (r : SimpleRecord) => [r.simpleValue]
  | hardSoft, (r : HardSoftRecord) => [r.hardScore, r.softScore]
  | hardMediumSoft, (r : HardMediumSoftRecord) => [r.hardScore, r.mediumScore, r.softScore]

theorem Record.toList_injective {kind : ScoreKind} {r r' : kind.Record} (h : r.toList = r'.toList) :
    r = r' := by
  cases kind <;> cases r <;> cases r' <;> cases h <;> rfl

end ScoreKind

/-! ## Lists of words -/

theorem mapM_id_eq_some {α : Type} {words : List (Option α)} {ns : List α} :
    words.mapM id = some ns ↔ words = ns.map some := by
  induction words generalizing ns with
  | nil => cases ns <;> simp
  | cons word words ih =>
    rw [List.mapM_cons]
    cases word with
    | none => cases ns <;> simp
    | some n =>
      cases ns with
      | nil => simp [Option.bind_eq_some_iff]
      | cons m ns => simp [Option.bind_eq_some_iff, ih, and_comm]

theorem compare_list_eq_lt (ms ns : List Int64) : compare ms ns = .lt ↔ ms < ns := by
  rw [List.compare_eq_compareLex]
  induction ms generalizing ns with
  | nil => cases ns <;> simp [List.compareLex_nil_nil, List.compareLex_nil_cons]
  | cons m ms ih =>
    cases ns with
    | nil => simp [List.compareLex_cons_nil]
    | cons n ns =>
      rw [List.compareLex_cons_cons, Ordering.then_eq_lt, ih, Std.compare_eq_lt, Std.compare_eq_iff_eq,
        List.cons_lt_cons_iff]

namespace Score

variable {kind : ScoreKind} {a b c s t : Score kind}

/-- The score that is recorded so. -/
def ofRecord : {kind : ScoreKind} → kind.Record → Score kind
  | .simple, (r : SimpleRecord) => simple r.simpleValue
  | .hardSoft, (r : HardSoftRecord) => hardSoft r.hardScore r.softScore
  | .hardMediumSoft, (r : HardMediumSoftRecord) => hardMediumSoft r.hardScore r.mediumScore r.softScore

/-! ## Lists of levels -/

@[simp] theorem length_toList (a : Score kind) : a.toList.length = kind.depth := Vector.length_toList

theorem toInt_getElem_toList (a : Score kind) (i : Fin kind.depth) (hi : i.val < a.toList.length) :
    a.toList[i.val].toInt = a.level i := by
  simp [toList, level]

theorem toList_injective (h : a.toList = b.toList) : a = b := by
  obtain ⟨u⟩ := a
  obtain ⟨v⟩ := b
  exact congrArg mk (Vector.toList_inj.1 h)

theorem level_ofList {ns : List Int64} (h : ns.length = kind.depth) (i : Fin kind.depth) :
    (ofList ns : Score kind).level i = (ns.get (i.cast h.symm)).toInt := by
  have hi : i.val < ns.length := by omega
  rw [ofList, level_ofFn, List.getElem?_eq_getElem hi]
  rfl

/-- A score can be read off the list of its levels. -/
theorem ofList_toList (a : Score kind) : ofList a.toList = a := by
  ext i
  rw [level_ofList a.length_toList]
  exact a.toInt_getElem_toList i _

theorem toList_ofList {ns : List Int64} (h : ns.length = kind.depth) :
    (ofList ns : Score kind).toList = ns := by
  refine List.ext_getElem (by simp [h]) fun i hi _ => Int64.toInt_inj.1 ?_
  have hi' : i < kind.depth := by simpa using hi
  rw [toInt_getElem_toList _ ⟨i, hi'⟩, level_ofList h]
  rfl

theorem toList_ofRecord (r : kind.Record) : (ofRecord r).toList = r.toList := by
  cases kind <;> exact toList_ofList rfl

theorem exists_record (a : Score kind) : ∃ r : kind.Record, r.toList = a.toList := by
  have hlength := a.length_toList
  cases kind with
  | simple =>
    obtain ⟨n, hn⟩ := List.length_eq_one_iff.1 hlength
    exact ⟨⟨n⟩, hn.symm⟩
  | hardSoft =>
    obtain ⟨hard, soft, hn⟩ := List.length_eq_two.1 hlength
    exact ⟨⟨hard, soft⟩, hn.symm⟩
  | hardMediumSoft =>
    obtain ⟨hard, medium, soft, hn⟩ := List.length_eq_three.1 hlength
    exact ⟨⟨hard, medium, soft⟩, hn.symm⟩

/-- Every score has exactly one record. -/
theorem ofRecord_bijective : (ofRecord : kind.Record → Score kind).Bijective := by
  constructor
  · intro r r' h
    have hlist := congrArg toList h
    rw [toList_ofRecord, toList_ofRecord] at hlist
    exact ScoreKind.Record.toList_injective hlist
  · intro a
    obtain ⟨r, hr⟩ := a.exists_record
    exact ⟨r, toList_injective ((toList_ofRecord r).trans hr)⟩

/-! ## The order -/

/-- Scores compare as the lists of their levels do. -/
theorem compare_eq_toList (a b : Score kind) : compare a b = compare a.toList b.toList := by
  show (if a < b then Ordering.lt else if a = b then .eq else .gt) = _
  cases h : compare a.toList b.toList with
  | lt => exact if_pos ((compare_list_eq_lt _ _).1 h)
  | eq =>
    obtain rfl := toList_injective (Std.compare_eq_iff_eq.1 h)
    have haa : ¬ a < a := List.lt_irrefl a.toList
    rw [if_neg haa, if_pos rfl]
  | gt =>
    have hba : b < a := (compare_list_eq_lt _ _).1 (Std.OrientedCmp.lt_of_gt h)
    have hab : ¬ a < b := List.lt_asymm hba
    have hne : a ≠ b := by
      rintro rfl
      exact hab hba
    rw [if_neg hab, if_neg hne]

/-- Scores compare as their records do, field by field. -/
theorem compare_ofRecord (r r' : kind.Record) : compare (ofRecord r) (ofRecord r') = compare r r' := by
  rw [compare_eq_toList, toList_ofRecord, toList_ofRecord, List.compare_eq_compareLex]
  cases kind <;> cases r <;> cases r' <;>
    simp only [ScoreKind.Record.toList, List.compareLex_cons_cons, List.compareLex_nil_nil] <;> rfl

-- A hard level outweighs any soft one.
example : compare (hardSoft (-1) 100) (hardSoft 0 (-100)) = .lt := by decide +kernel

theorem compare_eq_lt : compare a b = .lt ↔ a < b := by
  rw [compare_eq_toList]
  exact compare_list_eq_lt _ _

theorem compare_eq_eq : compare a b = .eq ↔ a = b := by
  rw [compare_eq_toList, Std.compare_eq_iff_eq]
  exact ⟨toList_injective, congrArg toList⟩

/-- The order of scores is lexicographic: the first level that differs decides. -/
theorem lt_iff : a < b ↔ ∃ i, (∀ j < i, a.level j = b.level j) ∧ a.level i < b.level i := by
  show a.toList < b.toList ↔ _
  rw [List.lt_iff_exists]
  constructor
  · rintro (⟨-, hlength⟩ | ⟨i, hia, hib, hbefore, hi⟩)
    · simp at hlength
    · have hi' : i < kind.depth := by simpa using hia
      refine ⟨⟨i, hi'⟩, fun j hj => ?_, ?_⟩
      · rw [← a.toInt_getElem_toList j (by simp), hbefore j hj, toInt_getElem_toList]
      · rw [← a.toInt_getElem_toList _ hia, ← b.toInt_getElem_toList _ hib]
        exact Int64.lt_iff_toInt_lt.1 hi
  · rintro ⟨i, hbefore, hi⟩
    refine .inr ⟨i, by simp, by simp, fun j hj => Int64.toInt_inj.1 ?_, ?_⟩
    · have hj' : j < kind.depth := hj.trans i.isLt
      rw [a.toInt_getElem_toList ⟨j, hj'⟩, b.toInt_getElem_toList ⟨j, hj'⟩]
      exact hbefore ⟨j, hj'⟩ hj
    · rwa [Int64.lt_iff_toInt_lt, toInt_getElem_toList, toInt_getElem_toList]

/-! ## The checked operations -/

/-- The score read off some words, if each of them is there. -/
def collect (words : List (Option Int64)) : Option (Score kind) := (words.mapM id).map ofList

theorem ofFn_narrow?_eq_iff {f : Fin kind.depth → Int} :
    (List.ofFn fun i => narrow? (f i)) = s.toList.map some ↔ ∀ i, s.level i = f i := by
  have hlist : s.toList.map some = List.ofFn fun i => some s.levels[i] := by
    refine List.ext_getElem (by simp) fun i hi _ => ?_
    simp [toList]
  rw [hlist, List.ofFn_inj, funext_iff]
  exact forall_congr' fun i => narrow?_eq_some_iff

/-- Words with some exact values are collected to the score with these levels. -/
theorem collect_ofFn (f : Fin kind.depth → Int) :
    collect (List.ofFn fun i => narrow? (f i)) = ofLevels? f := by
  ext s
  rw [ofLevels?_eq_some_iff, collect, Option.map_eq_some_iff, ← ofFn_narrow?_eq_iff]
  simp only [mapM_id_eq_some]
  constructor
  · rintro ⟨ns, hns, rfl⟩
    have hlength : ns.length = kind.depth := by simpa using (congrArg List.length hns).symm
    rwa [toList_ofList hlength]
  · intro h
    exact ⟨s.toList, h, s.ofList_toList⟩

/-- What is computed level by level through lists is the exact result if all its levels are words, and
nothing otherwise. -/
structure Exact (result : Option (Score kind)) (words : List (Option Int64))
    (levels : Fin kind.depth → Int) : Prop where
  collected : result = collect words
  isSome_iff : result.isSome ↔ ∀ i, Fits (levels i)
  eq_some_iff : ∀ s, result = some s ↔ ∀ i, s.level i = levels i

theorem Exact.of_words {f : Fin kind.depth → Int} {words : List (Option Int64)}
    (h : words = List.ofFn fun i => narrow? (f i)) : Exact (ofLevels? f) words f where
  collected := by rw [h, collect_ofFn]
  isSome_iff := by
    rw [Option.isSome_iff_ne_none, ne_eq, ofLevels?_eq_none_iff]
    push Not
    rfl
  eq_some_iff _ := ofLevels?_eq_some_iff

theorem zipWith_levels (op : Int → Int → Int) (a b : Score kind) :
    List.zipWith (fun m n => narrow? (op m.toInt n.toInt)) a.toList b.toList =
      List.ofFn fun i => narrow? (op (a.level i) (b.level i)) := by
  refine List.ext_getElem (by simp) fun i hi _ => ?_
  simp [toList, level]

theorem exact_checkedAdd (a b : Score kind) : Exact (a.checkedAdd b)
    (List.zipWith ConstraintStreams.checkedAdd a.toList b.toList) fun i => a.level i + b.level i :=
  .of_words (zipWith_levels (· + ·) a b)

-- The greatest word is still a level, its successor is none.
example : (simple (Int64.maxValue - 1)).checkedAdd (simple 1) = some (simple Int64.maxValue) ∧
    (simple Int64.maxValue).checkedAdd (simple 1) = none := by
  decide +kernel

theorem exact_checkedSub (a b : Score kind) : Exact (a.checkedSub b)
    (List.zipWith ConstraintStreams.checkedSub a.toList b.toList) fun i => a.level i - b.level i :=
  .of_words (zipWith_levels (· - ·) a b)

theorem exact_checkedScale (a : Score kind) (n : Int64) : Exact (a.checkedScale n)
    (a.toList.map fun m => checkedMul m n) fun i => a.level i * n.toInt := by
  refine .of_words (List.ext_getElem (by simp) fun i hi _ => ?_)
  simp [toList, level, checkedMul]

/-! ## The laws of the group -/

theorem orTrap_eq_ok {α : Type} {trap : Trap} {a? : Option α} {a : α} :
    orTrap trap a? = .ok a ↔ a? = some a := by
  cases a? <;> simp [orTrap]

theorem checkedAdd_comm (a b : Score kind) : a.checkedAdd b = b.checkedAdd a := by
  unfold checkedAdd
  simp only [Int.add_comm]

/-- What was added can be taken away again. -/
theorem checkedSub_of_checkedAdd (h : a.checkedAdd b = some s) : s.checkedSub b = some a := by
  have hs := ofLevels?_eq_some_iff.1 h
  refine ofLevels?_eq_some_iff.2 fun i => ?_
  rw [hs, Int.add_sub_cancel]

/-- Adding the same score on both sides keeps the order. -/
theorem lt_iff_of_checkedAdd (ha : a.checkedAdd c = some s) (hb : b.checkedAdd c = some t) :
    a < b ↔ s < t := by
  have hs := ofLevels?_eq_some_iff.1 ha
  have ht := ofLevels?_eq_some_iff.1 hb
  simp only [lt_iff, hs, ht, Int.add_left_inj, Int.add_lt_add_iff_right]

/-! ## Adding up -/

/-- Some scores added to a score, one by one, if every sum on the way is a score. -/
def addUp (start : Score kind) (scores : List (Score kind)) : Option (Score kind) :=
  scores.foldlM checkedAdd start

theorem addUp_append (start : Score kind) (xs ys : List (Score kind)) :
    addUp start (xs ++ ys) = (addUp start xs).bind fun sum => addUp sum ys :=
  List.foldlM_append

/-- Scores that are added up one by one can be added up. -/
theorem addUp_of_foldlM {ε α : Type} {f : Score kind → α → Except ε (Score kind)} {score : α → Score kind}
    {as : List α} {start total : Score kind}
    (hf : ∀ sum a next, f sum a = .ok next → sum.checkedAdd (score a) = some next)
    (h : as.foldlM f start = .ok total) : addUp start (as.map score) = some total := by
  induction as generalizing start with
  | nil =>
    cases h
    rfl
  | cons a rest ih =>
    rw [List.foldlM_cons] at h
    obtain ⟨next, hnext, hrest⟩ := except_bind_eq_ok.1 h
    show (start.checkedAdd (score a)).bind (addUp · (rest.map score)) = some total
    rw [hf start a next hnext]
    exact ih hrest

/-- What scores add up to is their exact sum. -/
theorem level_addUp {scores : List (Score kind)} {start total : Score kind}
    (h : addUp start scores = some total) (i : Fin kind.depth) :
    total.level i = start.level i + (scores.map (·.level i)).sum := by
  induction scores generalizing start with
  | nil =>
    cases h
    simp
  | cons score rest ih =>
    obtain ⟨next, hnext, hrest⟩ := Option.bind_eq_some_iff.1 h
    rw [ih hrest, ofLevels?_eq_some_iff.1 hnext i, List.map_cons, List.sum_cons]
    omega

/-- The order in which scores are added up makes no difference, whichever comes first. -/
theorem addUp_perm {xs ys : List (Score kind)} (h : (a :: xs).Perm (b :: ys))
    (hs : addUp a xs = some s) (ht : addUp b ys = some t) : s = t := by
  ext i
  have hsum := (h.map fun score => score.level i).sum_eq
  rw [level_addUp hs, level_addUp ht]
  simpa using hsum

/-- What makes the scores of a kind an ordered group, as far as words reach. -/
structure OrderedGroup (kind : ScoreKind) : Prop where
  /-- Every score has exactly one record. -/
  recorded : (ofRecord : kind.Record → Score kind).Bijective
  /-- A score lists the fields of its record. -/
  listed : ∀ r : kind.Record, (ofRecord r).toList = r.toList
  /-- Scores are compared field by field. -/
  compare_record : ∀ r r' : kind.Record, compare (ofRecord r) (ofRecord r') = compare r r'
  /-- This is the lexicographic order of the lists of their levels. -/
  compare_toList : ∀ a b : Score kind, compare a b = compare a.toList b.toList
  compare_lt : ∀ a b : Score kind, compare a b = .lt ↔ a < b
  compare_eq : ∀ a b : Score kind, compare a b = .eq ↔ a = b
  /-- The most significant level in which two scores differ decides. -/
  lt_iff : ∀ a b : Score kind,
    a < b ↔ ∃ i, (∀ j < i, a.level j = b.level j) ∧ a.level i < b.level i
  add : ∀ a b : Score kind, Exact (a.checkedAdd b)
    (List.zipWith ConstraintStreams.checkedAdd a.toList b.toList) fun i => a.level i + b.level i
  sub : ∀ a b : Score kind, Exact (a.checkedSub b)
    (List.zipWith ConstraintStreams.checkedSub a.toList b.toList) fun i => a.level i - b.level i
  scale : ∀ (a : Score kind) (n : Int64), Exact (a.checkedScale n)
    (a.toList.map fun m => checkedMul m n) fun i => a.level i * n.toInt
  /-- The operations that trap have the same results. -/
  trapping : ∀ a b s : Score kind, (a.trappingAdd b = .ok s ↔ a.checkedAdd b = some s) ∧
    (a.trappingSub b = .ok s ↔ a.checkedSub b = some s)
  comm : ∀ a b : Score kind, a.checkedAdd b = b.checkedAdd a
  undo : ∀ a b s : Score kind, a.checkedAdd b = some s → s.checkedSub b = some a
  mono : ∀ a b c s t : Score kind, a.checkedAdd c = some s → b.checkedAdd c = some t →
    (a < b ↔ s < t)
  fold : ∀ (a b s t : Score kind) (xs ys : List (Score kind)), (a :: xs).Perm (b :: ys) →
    addUp a xs = some s → addUp b ys = some t → s = t

/-- Scores of each kind are an ordered group, as far as words reach: the comparison by fields is the
lexicographic one of the lists of levels; sums and differences, which are computed through these lists,
are there if they are words at every level, and then exact; a sum does not depend on the order of what is
added, can be undone, and keeps the order of scores. -/
theorem orderedGroup (kind : ScoreKind) : OrderedGroup kind where
  recorded := ofRecord_bijective
  listed := toList_ofRecord
  compare_record := compare_ofRecord
  compare_toList := compare_eq_toList
  compare_lt _ _ := compare_eq_lt
  compare_eq _ _ := compare_eq_eq
  lt_iff _ _ := Score.lt_iff
  add := exact_checkedAdd
  sub := exact_checkedSub
  scale := exact_checkedScale
  trapping _ _ _ := ⟨orTrap_eq_ok, orTrap_eq_ok⟩
  comm := checkedAdd_comm
  undo _ _ _ := checkedSub_of_checkedAdd
  mono _ _ _ _ _ := lt_iff_of_checkedAdd
  fold _ _ _ _ _ _ := addUp_perm

end Score

end ConstraintStreams
