import Mathlib.Data.List.Perm.Basic
import Mathlib.Tactic.Push
import ConstraintStreams.Session.Explanation
import ConstraintStreams.Proofs.Constraint.Ledger

/-!
# What indictments say

The matches of a score are regrouped by the facts they are blamed on. Match by match, and for each fact
that a match names, once however often it is named, the match is added to the indictment of the fact.
What a table of indictments records of the matches taken so far is `Records`; it holds of the empty
table, and every match that can be added keeps it. The regrouping breaks off exactly if the scores of
the matches that blame some fact cannot be added up.
-/

namespace ConstraintStreams

variable {kind : ScoreKind}

/-! ## Accusations -/

/-- A fact is left exactly once for each key that has not been seen. -/
theorem filter_dedupKeys (key : Fact.Key) (as : List Fact) (seen : List Fact.Key) :
    (dedupKeys as seen).filter (fun a => a.key = key) =
      if key ∈ seen then [] else (as.find? fun a => a.key = key).toList := by
  induction as generalizing seen with
  | nil => simp [dedupKeys]
  | cons a rest ih =>
    unfold dedupKeys
    by_cases hseen : a.key ∈ seen
    · rw [if_pos hseen, ih]
      by_cases hkey : a.key = key
      · rw [← hkey, if_pos hseen, if_pos hseen]
      · simp [hkey]
    · rw [if_neg hseen, List.filter_cons, ih]
      by_cases hkey : a.key = key
      · subst hkey
        simp [hseen]
      · simp [hkey, Ne.symm hkey]

namespace Match

/-- Each match with each fact it is blamed on; a fact that is named twice counts once. -/
def accusations (ms : List (Match kind)) : List (Match kind × Fact) :=
  ms.flatMap fun m => (dedupKeys m.indicted []).map (Prod.mk m)

/-- The matches of the accusations against the fact with a key. -/
def against (key : Fact.Key) (accusations : List (Match kind × Fact)) : List (Match kind) :=
  (accusations.filter fun a => a.2.key = key).map Prod.fst

theorem against_append (key : Fact.Key) (as bs : List (Match kind × Fact)) :
    against key (as ++ bs) = against key as ++ against key bs := by
  simp [against]

theorem against_self (m : Match kind) (fact : Fact) : against fact.key [(m, fact)] = [m] := by
  simp [against]

theorem against_of_ne {key : Fact.Key} {fact : Fact} (h : fact.key ≠ key) (m : Match kind) :
    against key [(m, fact)] = [] := by
  simp [against, h]

/-- The accusations against a fact come from the matches that blame it, one from each. -/
theorem against_accusations (key : Fact.Key) (ms : List (Match kind)) :
    against key (accusations ms) = ms.filter fun m => m.blames key := by
  induction ms with
  | nil => rfl
  | cons m rest ih =>
    have hmine : against key ((dedupKeys m.indicted []).map (Prod.mk m)) =
        if m.blames key then [m] else [] := by
      have hfilter := filter_dedupKeys key m.indicted []
      rw [if_neg List.not_mem_nil] at hfilter
      unfold against
      rw [List.filter_map, List.map_map]
      show ((dedupKeys m.indicted []).filter fun a => a.key = key).map (fun _ => m) = _
      rw [hfilter]
      cases hfound : m.indicted.find? fun a => a.key = key with
      | none =>
        have hblames : ¬ m.blames key = true := by simpa [blames] using hfound
        rw [if_neg hblames]
        rfl
      | some a =>
        have hblames : m.blames key = true :=
          List.any_eq_true.2 ⟨a, List.mem_of_find?_eq_some hfound, by simpa using List.find?_some hfound⟩
        rw [if_pos hblames]
        rfl
    show against key (_ ++ accusations rest) = _
    rw [against_append, hmine, ih, List.filter_cons]
    split <;> rfl

/-- What the scores of the matches that blame the fact with a key add up to, if they do. -/
def blameSum (key : Fact.Key) (ms : List (Match kind)) : Option (Score kind) :=
  Score.addUp .zero ((ms.filter fun m => m.blames key).map Match.score)

end Match

open Match

/-! ## Taking accusations down -/

/-- The indictment of the fact with a key for some matches. -/
structure Indictment.Of (key : Fact.Key) (ms : List (Match kind)) (i : Indictment kind) : Prop where
  key_eq : i.fact.key = key
  matches_eq : i.matches = ms
  score_eq : Score.addUp .zero (ms.map Match.score) = some i.score

/-- What a table holds once some accusations have been taken down. -/
structure Records (done : List (Match kind × Fact)) (table : Table Fact.Key (Indictment kind)) :
    Prop where
  none_iff : ∀ key, table.get? key = none ↔ against key done = []
  indicts : ∀ {key i}, table.get? key = some i → i.Of key (against key done)

namespace Records

variable {done : List (Match kind × Fact)} {table : Table Fact.Key (Indictment kind)}

theorem empty : Records ([] : List (Match kind × Fact)) ∅ where
  none_iff _ := ⟨fun _ => rfl, fun _ => rfl⟩
  indicts h := by simp [EmptyCollection.emptyCollection] at h

/-- What was taken down against a fact so far, be it nothing. -/
theorem prior (h : Records done table) (fact : Fact) :
    ((table.get? fact.key).getD ⟨fact, .zero, []⟩).Of fact.key (against fact.key done) := by
  cases hi : table.get? fact.key with
  | none =>
    rw [(h.none_iff fact.key).1 hi]
    exact ⟨rfl, rfl, rfl⟩
  | some i => exact h.indicts hi

theorem summable (h : Records done table) (key : Fact.Key) :
    (Score.addUp .zero ((against key done).map Match.score)).isSome := by
  cases hi : table.get? key with
  | none =>
    rw [(h.none_iff key).1 hi]
    rfl
  | some i =>
    rw [(h.indicts hi).score_eq]
    rfl

/-- An accusation is taken down if its score can be added to the earlier ones against the fact. -/
theorem blame (h : Records done table) (m : Match kind) (fact : Fact) :
    match Score.addUp .zero ((against fact.key (done ++ [(m, fact)])).map Match.score) with
    | some _ => ∃ table', ConstraintStreams.blame m table fact = .ok table' ∧
        Records (done ++ [(m, fact)]) table'
    | none => ConstraintStreams.blame m table fact = .error .addition := by
  have hprior := h.prior fact
  have hsum : Score.addUp .zero ((against fact.key (done ++ [(m, fact)])).map Match.score) =
      ((table.get? fact.key).getD ⟨fact, .zero, []⟩).score.checkedAdd m.score := by
    rw [against_append, against_self, List.map_append, Score.addUp_append, hprior.score_eq]
    simp [Score.addUp]
  rw [hsum]
  unfold ConstraintStreams.blame Score.trappingAdd
  cases hscore : ((table.get? fact.key).getD ⟨fact, .zero, []⟩).score.checkedAdd m.score with
  | none => simp only [hscore]; rfl
  | some score =>
    refine ⟨_, by simp only [hscore]; rfl, fun key => ?_, fun {key i} hi => ?_⟩
    · rw [Table.get?_insert, against_append]
      split
      · next hkey => simp [← hkey, against_self]
      · next hkey => rw [against_of_ne hkey, List.append_nil]; exact h.none_iff key
    · rw [Table.get?_insert] at hi
      split at hi
      · next hkey =>
        subst hkey
        cases hi
        refine ⟨hprior.key_eq, ?_, hsum.trans hscore⟩
        rw [against_append, against_self, ← hprior.matches_eq]
      · next hkey =>
        rw [against_append, against_of_ne hkey, List.append_nil]
        exact h.indicts hi

/-- Accusations are taken down one after the other unless, for some fact, the scores of those against
it cannot be added up. -/
theorem run (h : Records done table) (as : List (Match kind × Fact)) :
    ((∃ table', as.foldlM (fun table a => ConstraintStreams.blame a.1 table a.2) table = .ok table' ∧
        Records (done ++ as) table') ∧
      ∀ key, (Score.addUp .zero ((against key (done ++ as)).map Match.score)).isSome) ∨
    (as.foldlM (fun table a => ConstraintStreams.blame a.1 table a.2) table = .error .addition ∧
      ∃ key, Score.addUp .zero ((against key (done ++ as)).map Match.score) = none) := by
  induction as generalizing done table with
  | nil =>
    rw [List.append_nil]
    exact .inl ⟨⟨table, rfl, h⟩, h.summable⟩
  | cons a rest ih =>
    obtain ⟨m, fact⟩ := a
    have hstep := h.blame m fact
    rw [List.append_cons]
    cases hsum : Score.addUp .zero ((against fact.key (done ++ [(m, fact)])).map Match.score) with
    | none =>
      rw [hsum] at hstep
      refine .inr ⟨by rw [List.foldlM_cons, hstep]; rfl, fact.key, ?_⟩
      rw [against_append, List.map_append, Score.addUp_append, hsum]
      rfl
    | some score =>
      rw [hsum] at hstep
      obtain ⟨table', hblame, hrecords⟩ := hstep
      rw [List.foldlM_cons, hblame]
      exact ih hrecords

/-- Every indictment in the table is of its key, so no two are of one. -/
theorem keys_eq (h : Records done table) : table.values.map (·.fact.key) = table.keys := by
  rw [Table.values, Table.keys, List.map_map]
  refine List.map_congr_left fun e he => ?_
  exact (h.indicts (Table.get?_eq_some_iff.2 he)).key_eq

end Records

/-! ## The order of matches -/

theorem Match.sort_perm (ms : List (Match kind)) : (Match.sort ms).Perm ms := by
  unfold Match.sort
  split
  · exact List.mergeSort_perm _ _
  · exact List.mergeSort_perm _ _

/-- Sorting constraint by constraint loses no match and doubles none. -/
theorem sortByConstraint_perm (ms : List (Match kind)) : (sortByConstraint ms).Perm ms := by
  -- The first constraint takes its matches out; what it leaves is sorted in the same way.
  induction hlength : ms.length using Nat.strong_induction_on generalizing ms with
  | _ length ih =>
    cases ms with
    | nil => exact .nil
    | cons m rest =>
      let others := rest.filter fun x => !decide (x.constraint = m.constraint)
      have hothers : (m :: rest).filter (fun x => !decide (x.constraint = m.constraint)) = others := by
        simp [others]
      have hids : ((m :: rest).map (·.constraint)).eraseDups =
          m.constraint :: (others.map (·.constraint)).eraseDups := by
        rw [List.map_cons, List.eraseDups_cons, List.filter_map]
        rfl
      have htail : (others.map (·.constraint)).eraseDups.flatMap (fun id =>
          Match.sort ((m :: rest).filter fun x => x.constraint = id)) = sortByConstraint others := by
        refine List.flatMap_congr fun id hid => ?_
        obtain ⟨x, hx, rfl⟩ := List.mem_map.1 (List.mem_eraseDups.1 hid)
        have hne : x.constraint ≠ m.constraint := by simpa using (List.mem_filter.1 hx).2
        rw [← hothers, List.filter_filter]
        congr 2
        funext y
        by_cases hy : y.constraint = x.constraint
        · simp [hy, hne]
        · simp [hy]
      have hshorter : others.length < length := by
        rw [← hlength, List.length_cons]
        exact Nat.lt_succ_of_le (List.length_filter_le _ _)
      unfold sortByConstraint
      rw [hids, List.flatMap_cons, htail]
      refine ((Match.sort_perm _).append (ih _ hshorter others rfl)).trans ?_
      rw [← hothers]
      exact List.filter_append_perm _ _

/-! ## The order of indictments -/

instance : Std.TransOrd (Score kind) := by
  have htrans : ∀ {a b c : Score kind}, a.toList < b.toList → b.toList < c.toList →
      a.toList < c.toList := List.lt_trans
  refine .compareOfLessAndEq_of_irrefl_of_trans_of_antisymm (fun a => List.lt_irrefl a.toList)
    htrans fun {a b} hab hba => ?_
  exact Score.toList_injective (List.le_antisymm (List.not_lt.1 hba) (List.not_lt.1 hab))

namespace Indictment

/-- Indictments of equal scores and types in the order of their facts' ids or texts. -/
def orderFacts (a b : Indictment kind) : Ordering :=
  if a.fact.isDigested ∧ b.fact.isDigested then compareOfLessAndEq a.fact.text b.fact.text
  else a.fact.id.order b.fact.id

theorem orderFacts_eq (a b : Indictment kind) : a.orderFacts b =
    match a.fact.id, b.fact.id with
    | .number m, .number n => compare m n
    | .number _, .digest _ => .lt
    | .digest _, .number _ => .gt
    | .digest _, .digest _ => compare a.fact.text b.fact.text := by
  unfold orderFacts Fact.isDigested
  cases a.fact.id <;> cases b.fact.id <;> rfl

instance : Std.TransCmp (@orderFacts kind) where
  eq_swap {a b} := by
    rw [orderFacts_eq, orderFacts_eq]
    cases a.fact.id <;> cases b.fact.id
    case number.number => exact Std.OrientedOrd.eq_swap
    case digest.digest => exact Std.OrientedOrd.eq_swap
    all_goals rfl
  isLE_trans {a b c} := by
    rw [orderFacts_eq, orderFacts_eq, orderFacts_eq]
    cases a.fact.id <;> cases b.fact.id <;> cases c.fact.id
    case number.number.number => exact Std.TransOrd.isLE_trans
    case digest.digest.digest => exact Std.TransOrd.isLE_trans
    all_goals simp

instance : Std.TransCmp (@order kind) :=
  inferInstanceAs (Std.TransCmp (compareLex (compareOn Indictment.score)
    (compareLex (compareOn fun i : Indictment kind => i.fact.type.name) orderFacts)))

/-- By score, then by the name of the facts' types, then by the number of the facts. -/
def Before (a b : Indictment kind) : Prop :=
  a.score < b.score ∨ a.score = b.score ∧
    (a.fact.type.name < b.fact.type.name ∨ a.fact.type.name = b.fact.type.name ∧
      a.fact.id.toNumber ≤ b.fact.id.toNumber)

/-- Indictments of facts with numbers for ids come by score, type and number. -/
theorem before_of_order {a b : Indictment kind} (ha : a.fact.isDigested = false)
    (hb : b.fact.isDigested = false) (h : (a.order b).isLE) : a.Before b := by
  have hfacts : (a.orderFacts b).isLE → a.fact.id.toNumber ≤ b.fact.id.toNumber := by
    rw [orderFacts_eq]
    unfold Fact.isDigested at ha hb
    cases hida : a.fact.id with
    | digest d => rw [hida] at ha; cases ha
    | number m =>
      cases hidb : b.fact.id with
      | digest d => rw [hidb] at hb; cases hb
      | number n => exact Std.isLE_compare.1
  have h : ((compare a.score b.score).then
      ((compare a.fact.type.name b.fact.type.name).then (a.orderFacts b))).isLE := h
  rw [Ordering.isLE_then_iff_or, Ordering.isLE_then_iff_or] at h
  rcases h with hscore | ⟨hscore, hname | ⟨hname, hid⟩⟩
  · exact .inl (Score.compare_eq_lt.1 hscore)
  · exact .inr ⟨Score.compare_eq_eq.1 hscore, .inl (Batteries.compareOfLessAndEq_eq_lt.1 hname)⟩
  · exact .inr ⟨Score.compare_eq_eq.1 hscore, .inr ⟨Std.LawfulEqOrd.eq_of_compare hname, hfacts hid⟩⟩

end Indictment

/-! ## The list of indictments -/

/-- What a list of indictments says of some matches: there is one for each fact that is blamed, with the
matches that blame it and what their scores add up to, and the list is in order. -/
structure Indicts (ms : List (Match kind)) (is : List (Indictment kind)) : Prop where
  once : (is.map (·.fact.key)).Nodup
  blamed : ∀ key, key ∈ is.map (·.fact.key) ↔ ∃ m ∈ ms, m.blames key = true
  matches_perm : ∀ i ∈ is, i.matches.Perm (ms.filter fun m => m.blames i.fact.key)
  score_eq : ∀ i ∈ is, Match.blameSum i.fact.key ms = some i.score
  sorted : is.Pairwise fun a b => (a.order b).isLE

theorem foldlM_accusations (ms : List (Match kind)) (table : Table Fact.Key (Indictment kind)) :
    ms.foldlM (fun table m => (dedupKeys m.indicted []).foldlM (blame m) table) table =
      (accusations ms).foldlM (fun table a => blame a.1 table a.2) table := by
  induction ms generalizing table with
  | nil => rfl
  | cons m rest ih =>
    have hsplit : accusations (m :: rest) = (dedupKeys m.indicted []).map (Prod.mk m) ++ accusations rest :=
      List.flatMap_cons
    rw [hsplit, List.foldlM_cons, List.foldlM_append, List.foldlM_map]
    exact bind_congr fun table' => ih table'

/-- The indictment with its matches in order. -/
def Indictment.arranged (i : Indictment kind) : Indictment kind :=
  { i with «matches» := sortByConstraint i.matches }

/-- The indictments in a table, each arranged, in order. -/
def arrangedValues (table : Table Fact.Key (Indictment kind)) : List (Indictment kind) :=
  (table.values.map Indictment.arranged).mergeSort fun a b => (a.order b).isLE

theorem arrangedValues_perm (table : Table Fact.Key (Indictment kind)) :
    (arrangedValues table).Perm (table.values.map Indictment.arranged) :=
  List.mergeSort_perm _ _

/-- The indictments that a table of all accusations comes to. -/
theorem Records.indictments {ms : List (Match kind)} {table : Table Fact.Key (Indictment kind)}
    (h : Records (accusations ms) table) : Indicts ms (arrangedValues table) := by
  have hkeys : ((arrangedValues table).map (·.fact.key)).Perm table.keys := by
    have hmap := (arrangedValues_perm table).map (·.fact.key)
    rw [List.map_map] at hmap
    rwa [← h.keys_eq]
  have hvalue : ∀ i ∈ arrangedValues table,
      ∃ j : Indictment kind, i = j.arranged ∧ j.Of i.fact.key (ms.filter fun m => m.blames i.fact.key) := by
    intro i hi
    obtain ⟨j, hj, rfl⟩ := List.mem_map.1 ((arrangedValues_perm table).mem_iff.1 hi)
    obtain ⟨key, hkey⟩ := Table.mem_values.1 hj
    have hof := h.indicts hkey
    rw [against_accusations, ← hof.key_eq] at hof
    exact ⟨j, rfl, hof⟩
  refine ⟨hkeys.nodup_iff.2 table.keys_nodup, fun key => ?_, fun i hi => ?_, fun i hi => ?_, ?_⟩
  · rw [hkeys.mem_iff, ← not_iff_not, ← Table.get?_eq_none_iff, h.none_iff, against_accusations,
      List.filter_eq_nil_iff]
    push Not
    rfl
  · obtain ⟨j, rfl, hof⟩ := hvalue i hi
    exact (sortByConstraint_perm _).trans (.of_eq hof.matches_eq)
  · obtain ⟨j, rfl, hof⟩ := hvalue i hi
    exact hof.score_eq
  · refine List.pairwise_mergeSort (fun a b c => Std.TransCmp.isLE_trans) (fun a b => ?_) _
    have hswap : b.order a = (a.order b).swap := Std.OrientedCmp.eq_swap
    rw [hswap]
    cases a.order b <;> rfl

/-- The breakdown by fact succeeds exactly if the scores of the matches that blame any one fact can be
added up, and stops the program otherwise. -/
theorem indict_spec (totals : List (MatchTotal kind)) :
    ((∃ is, indict totals = .ok is ∧ Indicts (totals.flatMap (·.matches)) is) ∧
      ∀ key, (Match.blameSum key (totals.flatMap (·.matches))).isSome) ∨
    (indict totals = .error .addition ∧
      ∃ key, Match.blameSum key (totals.flatMap (·.matches)) = none) := by
  have hrun := Records.empty.run (accusations (totals.flatMap (·.matches)))
  simp only [List.nil_append, against_accusations] at hrun
  unfold indict
  rw [foldlM_accusations]
  rcases hrun with ⟨⟨table, hfold, hrecords⟩, hsums⟩ | ⟨hfold, hsums⟩
  · rw [hfold]
    exact .inl ⟨⟨_, rfl, hrecords.indictments⟩, hsums⟩
  · rw [hfold]
    exact .inr ⟨rfl, hsums⟩

end ConstraintStreams
