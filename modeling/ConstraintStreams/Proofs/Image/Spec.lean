import Mathlib.Algebra.BigOperators.Group.Multiset.Basic
import Mathlib.Data.Multiset.Bind
import Mathlib.Data.Multiset.Dedup
import ConstraintStreams.Graph.Node
import ConstraintStreams.Operator.Flatten
import ConstraintStreams.Operator.Group
import ConstraintStreams.Proofs.Collector.Tally
import ConstraintStreams.Proofs.Fact.Data

/-!
# What operators are to show

`Operator.Image` says which rows an operator is to have, given the rows it gets from each side,
without regard to how it came to get them. For the functions that `Operator.Lawful` admits there is
one such multiset of rows only.
-/

namespace ConstraintStreams

/-! ## Functions that see data only -/

/-- The functions of a joiner see the data of facts only. -/
def Joiner.Lawful : Joiner → Prop
  | indexed left right => ReadsData id left.run ∧ ReadsData id right.run
  | test _ accepts => ∀ l r, accepts.run (Facts.data l) (Facts.data r) = accepts.run l r

/-- The functions of an accumulator see the data of facts only, what it sums up does not depend on the
order in which its members came, and members that are ranked alike have the same data. -/
def Accumulator.Lawful : Accumulator → Prop
  | count _ => True
  | sum of .. => ReadsData id of
  | extremum _ of order .. => ReadsData Fact.data of ∧ Std.TransCmp order ∧
      (∀ a b, order a.data b.data = order a b) ∧
      ∀ facts facts' a b, of facts = .ok a → of facts' = .ok b → order a b = .eq → a.data = b.data
  | distinct of .. => ReadsData Fact.identity of
  | list .. | custom .. => False

/-- The functions of an operator see the data of facts only, its groups have values for keys, and its
collector counts, adds up, averages, finds an extremum or counts different things. -/
def Operator.Lawful {kind : ScoreKind} : Operator kind → Prop
  | .source .. | .distinct | .concat => True
  | .filter predicate => ReadsData id predicate.run
  | .join joiners | .semijoin _ joiners => ∀ j ∈ joiners, j.Lawful
  | .group key collector =>
    (∀ f, key = some f → ReadsData Fact.data f.run ∧ ∀ facts k, f.run facts = .ok k → k.IsValue) ∧
      ∀ c, collector = some c → c.start.Lawful
  | .map mapper => ReadsData Facts.data mapper.run
  | .flatten items => ∀ a, Facts.data <$> items.run a = Facts.data <$> items.run a.data
  | .constraint c => ∀ weigher, c.weigher = some weigher → ReadsData id weigher

/-! ## Images -/

/-- A left and a right row belong together. -/
def Joiner.Matches (joiners : List Joiner) (l r : Facts) : Prop :=
  ∃ key, leftKey joiners l = .ok key ∧ rightKey joiners r = .ok key ∧ accept joiners l r = .ok true

/-- What an answer comes to, where there is one. -/
def amount (r : Except Error Int64) : Int :=
  match r with
  | .ok n => n.toInt
  | .error _ => 0

/-- What an accumulator is to report of some rows. -/
def Accumulator.Report (start : Accumulator) (rows : Multiset Facts) (value : Option Fact) : Prop :=
  match start with
  | count _ => value = some (.size rows.card)
  | sum of mean _ _ => ∃ total : Int64, total.toInt = (rows.map fun r => amount (of r)).sum ∧
      value = (sum of mean total rows.card).value?
  | extremum greatest of order _ _ =>
    match value with
    | none => rows = 0
    | some a => (∃ r ∈ rows, ∃ b, of r = .ok b ∧ b.data = a) ∧
      ∀ r ∈ rows, ∀ b, of r = .ok b → order a b ≠ if greatest then .lt else .gt
  | distinct of _ _ =>
    ∃ things : Multiset Fact, rows.map (fun r => Fact.identity <$> of r) = things.map .ok ∧
      value = some (.size things.dedup.card)
  | list .. | custom .. => True

namespace GroupMemory

/-- The group that a row belongs to. -/
def groupOf (key : Option (Facts → Except Error Fact)) (r : Facts) : GroupId :=
  match key with
  | none => none
  | some f => (f r).toOption.map Fact.identity

/-- The row of a group of rows: the key, and what the collector reports if there is one. -/
def Shows (collector : Option Collector) (id : GroupId) (rows : Multiset Facts)
    (row : Option Facts) : Prop :=
  match collector with
  | none => row = some id.toList
  | some c => ∃ value, c.start.Report rows value ∧ row = value.map fun a => id.toList ++ [a]

/-- One row for each group that has something to show. -/
def Image (key : Option (Facts → Except Error Fact)) (collector : Option Collector)
    (ins rows : Multiset Facts) : Prop :=
  ∃ row : GroupId → Option Facts,
    (∀ id ∈ ins.map (groupOf key), Shows collector id (ins.filter (groupOf key · = id)) (row id)) ∧
      rows = (ins.map (groupOf key)).dedup.filterMap row

end GroupMemory

/-- The rows that a row is expanded into. -/
def FlattenMemory.expansion (items : Fact → Except Error (List Fact)) (r : Facts) : Multiset Facts :=
  match r.last? >>= items with
  | .ok expanded => Multiset.ofList (expanded.map fun item => r.dropLast ++ [item.data])
  | .error _ => 0

open Classical in
/-- The rows that an operator is to have, by the rows that it gets from each side. -/
def Operator.Image {kind : ScoreKind} (op : Operator kind) (ins : Side → Multiset Facts)
    (rows : Multiset Facts) : Prop :=
  match op with
  | .source .. | .constraint _ => True
  | .filter predicate => rows = (ins .only).filter fun r => predicate.run r = .ok true
  | .join joiners =>
    rows = ((ins .left ×ˢ ins .right).filter fun p => Joiner.Matches joiners p.1 p.2).map
      fun p => p.1 ++ p.2
  | .semijoin expected joiners =>
    rows = (ins .left).filter fun l => (∃ r ∈ ins .right, Joiner.Matches joiners l r) ↔ expected = true
  | .group key collector => GroupMemory.Image (key.map (·.run)) collector (ins .only) rows
  | .map mapper => rows = (ins .only).filterMap fun r => (mapper.run r).toOption.map Facts.data
  | .flatten items => rows = (ins .only).bind (FlattenMemory.expansion items.run)
  | .distinct => rows = (ins .only).dedup
  | .concat => rows = ins .left + ins .right

/-! ## There is one image only -/

theorem Accumulator.Report.unique {start : Accumulator} {rows : Multiset Facts}
    {value value' : Option Fact} (hlaw : start.Lawful) (h : start.Report rows value)
    (h' : start.Report rows value') : value = value' := by
  cases start with
  | count => exact Eq.trans h (Eq.symm h')
  | sum of mean _ _ =>
    obtain ⟨total, htotal, rfl⟩ := h
    obtain ⟨total', htotal', rfl⟩ := h'
    rw [Int64.toInt_inj.1 (htotal.trans htotal'.symm)]
  | extremum greatest of order _ _ =>
    obtain ⟨-, htrans, hdata, hsep⟩ := hlaw
    cases value with
    | none =>
      cases value' with
      | none => rfl
      | some a' =>
        obtain ⟨⟨r, hr, -⟩, -⟩ := h'
        rw [show rows = 0 from h] at hr
        cases hr
    | some a =>
      cases value' with
      | none =>
        obtain ⟨⟨r, hr, -⟩, -⟩ := h
        rw [show rows = 0 from h'] at hr
        cases hr
      | some a' =>
        obtain ⟨⟨r, hr, b, hb, rfl⟩, hbest⟩ := h
        obtain ⟨⟨r', hr', b', hb', rfl⟩, hbest'⟩ := h'
        have hle := hbest r' hr' b' hb'
        have hge := hbest' r hr b hb
        rw [← hdata, Fact.data_data, hdata] at hle hge
        have hswap : order b' b = (order b b').swap := htrans.eq_swap
        have heq : order b b' = .eq := by
          cases hcmp : order b b' <;> cases greatest <;> simp_all
        rw [hsep r r' b b' hb hb' heq]
  | distinct of _ _ =>
    obtain ⟨things, hthings, rfl⟩ := h
    obtain ⟨things', hthings', rfl⟩ := h'
    have hmap : things.map (Except.ok (ε := Error)) = things'.map .ok := hthings.symm.trans hthings'
    rw [Multiset.map_injective (fun _ _ he => Except.ok.inj he) hmap]
  | list => exact hlaw.elim
  | custom => exact hlaw.elim

/-- Equal answers on all items make equal lists of answers. -/
theorem filterMap_congr {α β : Type} {f g : α → Option β} {s : Multiset α}
    (h : ∀ a ∈ s, f a = g a) : s.filterMap f = s.filterMap g := by
  induction s using Quot.inductionOn with
  | _ l => exact congrArg Multiset.ofList (List.filterMap_congr h)

theorem Operator.Image.unique {kind : ScoreKind} {op : Operator kind} {ins : Side → Multiset Facts}
    {rows rows' : Multiset Facts} (hlaw : op.Lawful) (howns : op.constraint? = none)
    (hsource : ∀ type includeUnassigned visibility, op ≠ .source type includeUnassigned visibility)
    (h : op.Image ins rows) (h' : op.Image ins rows') : rows = rows' := by
  cases op with
  | source type includeUnassigned visibility => exact absurd rfl (hsource type includeUnassigned visibility)
  | constraint c => cases howns
  | group key collector =>
    obtain ⟨row, hrow, rfl⟩ := h
    obtain ⟨row', hrow', rfl⟩ := h'
    refine filterMap_congr fun id hid => ?_
    have hshows := hrow id (Multiset.mem_dedup.1 hid)
    have hshows' := hrow' id (Multiset.mem_dedup.1 hid)
    cases collector with
    | none => exact Eq.trans hshows (Eq.symm hshows')
    | some c =>
      obtain ⟨value, hvalue, hr⟩ := hshows
      obtain ⟨value', hvalue', hr'⟩ := hshows'
      rw [hr, hr', Accumulator.Report.unique (hlaw.2 c rfl) hvalue hvalue']
  | _ => exact Eq.trans h (Eq.symm h')

end ConstraintStreams
