import ConstraintStreams.Arithmetic
import ConstraintStreams.Collector.Ranking
import ConstraintStreams.Table
import ConstraintStreams.Tuple.Basic
import ConstraintStreams.Fact.Text

/-!
# Collectors

A collector sums up the members of a group: how many there are, their sum, the least of them. Its
`Accumulator` takes members in and gives them back one by one, in any order: each insertion
answers a receipt, and the receipt undoes exactly that insertion. A refused insertion leaves the
accumulator as it was.
-/

namespace ConstraintStreams

/-- Undoes one insertion. -/
inductive Receipt
  /-- The members are alike. -/
  | unit
  /-- The member counted this much. -/
  | value (n : Int64)
  /-- The member is kept under this number. -/
  | slot (n : Nat)
  deriving DecidableEq

/-- A receipt in messages. -/
def Receipt.text : Receipt → String
  | unit => "Unit"
  | value n => "Value(" ++ toString n ++ ")"
  | slot n => "Slot(" ++ toString n ++ ")"

/-- Members kept under numbers, which grow in the order of arrival. -/
structure Slots where
  members : Table Nat Fact := ∅
  next : Nat := 0

namespace Slots

instance : EmptyCollection Slots := ⟨{ members := ∅ }⟩

/-- The members by order of arrival. -/
def toList (s : Slots) : List Fact := s.members.values

def size (s : Slots) : Nat := s.members.size

/-- Keeps a member under a new number. -/
def insert (s : Slots) (a : Fact) : Slots × Receipt :=
  (⟨s.members.insert s.next a, s.next + 1⟩, .slot s.next)

/-- Gives up the member that a receipt names, if it names one, and answers it with its number. -/
def take? (s : Slots) : Receipt → Option ((Nat × Fact) × Slots)
  | .slot n => (s.members.get? n).map fun a => ((n, a), { s with members := s.members.erase n })
  | _ => none

end Slots

/-- What an accumulator was told. -/
inductive CollectorEvent
  | inserted (facts : Facts) (receipt : Receipt)
  | retracted (receipt : Receipt)

/-- A collector of the user's own, given by what it answers after a history of accepted calls. -/
structure CustomCollector where
  insert : List CollectorEvent → Facts → Except Error Receipt
  retract : List CollectorEvent → Receipt → Except Error Unit
  value : List CollectorEvent → Option Fact
  isEmpty : List CollectorEvent → Bool
  describe : List CollectorEvent → String

/-- The members of a group, as far as its collector remembers them. -/
inductive Accumulator
  /-- How many members there are. -/
  | count (members : Nat)
  /-- The sum of the members, or their mean. -/
  | sum (of : Facts → Except Error Int64) (mean : Bool) (total : Int64) (members : Nat)
  /-- The least or the greatest member. Members are plain values here. -/
  | extremum (greatest : Bool) (of : Facts → Except Error Fact) (order : Fact → Fact → Ordering)
      (ranking : Ranking) (members : Slots)
  /-- The members in order of arrival. -/
  | list (of : Facts → Except Error Fact) (members : Slots)
  /-- How many different members there are, from how often each identity occurs. -/
  | distinct (of : Facts → Except Error Fact) (counts : Table Fact Nat) (members : Slots)
  /-- What a rule of the user's makes of the members. -/
  | custom (rule : CustomCollector) (history : List CollectorEvent)

/-- Tells collectors apart. -/
inductive CollectorKey
  /-- All collectors that count are one. -/
  | count
  | given (n : Nat)
  deriving DecidableEq

namespace Accumulator

/-- The accumulator as it was before it took anything in. -/
def blank : Accumulator → Accumulator
  | count _ => count 0
  | sum of mean _ _ => sum of mean 0 0
  | extremum greatest of order _ _ => extremum greatest of order [] ∅
  | list of _ => list of ∅
  | distinct of _ _ => distinct of ∅ ∅
  | custom rule _ => custom rule []

/-- Takes in the tuple with the given facts. Entities that are kept and have just been built are
numbered from `version` on; the next free number is answered too. -/
def insert (version : Nat) (facts : Facts) :
    Accumulator → Except Error (Accumulator × Receipt × Nat)
  | count members => .ok (count (members + 1), .unit, version)
  | sum of mean total members => do
    let n ← of facts
    match checkedAdd total n with
    | none => throw (.overflow (.sum total n))
    | some total => pure (sum of mean total (members + 1), .value n, version)
  | extremum greatest of order ranking members => do
    let (a, version) := (← of facts).unboxFrom version
    let ranking := Ranking.insert order (members.next, a) ranking
    let (members, receipt) := members.insert a
    pure (extremum greatest of order ranking members, receipt, version)
  | list of members => do
    let (a, version) := (← of facts).numberFrom version
    let (members, receipt) := members.insert a
    pure (list of members, receipt, version)
  | distinct of counts members => do
    let key := (← of facts).identity
    let counts := counts.insert key ((counts.get? key).getD 0 + 1)
    let (members, receipt) := members.insert key
    pure (distinct of counts members, receipt, version)
  | custom rule history => do
    let receipt ← rule.insert history facts
    pure (custom rule (history ++ [.inserted facts receipt]), receipt, version)

/-- Gives back the member that the receipt was issued for. -/
def retract (receipt : Receipt) : Accumulator → Except Error Accumulator
  | count members =>
    if members = 0 then throw (.inconsistent (.belowZero "count"))
    else pure (count (members - 1))
  | sum of mean total members =>
    match receipt with
    | .value n =>
      if members = 0 then throw (.inconsistent (.belowZero "sum"))
      else match checkedSub total n with
        | none => throw (.overflow (.difference total n))
        | some total => pure (sum of mean total (members - 1))
    | _ => throw (.inconsistent (.wrongReceipt "sum" receipt.text))
  | extremum greatest of order ranking members =>
    match members.take? receipt with
    | none => throw (.inconsistent (.wrongReceipt "min/max" receipt.text))
    | some (member, members) =>
      match Ranking.erase? order member ranking with
      | none => throw (.inconsistent (.unranked member.1))
      | some ranking => pure (extremum greatest of order ranking members)
  | list of members =>
    match members.take? receipt with
    | none => throw (.inconsistent (.wrongReceipt "list" receipt.text))
    | some (_, members) => pure (list of members)
  | distinct of counts members =>
    match members.take? receipt with
    | none => throw (.inconsistent (.wrongReceipt "count_distinct" receipt.text))
    | some ((_, key), members) =>
      match counts.get? key with
      | none => pure (distinct of counts members)
      | some occurrences => do
        let rest ← countDown occurrences 1
        let counts := if rest = 0 then counts.erase key else counts.insert key rest
        pure (distinct of counts members)
  | custom rule history => do
    rule.retract history receipt
    pure (custom rule (history ++ [.retracted receipt]))

/-- The mean of members with a given sum. -/
def mean (total : Int64) (members : Nat) : Fact :=
  .scalar (.float (total.toFloat / (UInt64.ofNat members).toFloat).toBits)

/-- What the members come to, unless there is nothing to report. A least or greatest member that is an
entity is handed out in a new box each time. -/
def value? : Accumulator → Option Fact
  | count members => some (.size members)
  | sum _ false total _ => some (.int64 total)
  | sum _ true total members => if members = 0 then none else some (mean total members)
  | extremum false _ _ ranking _ => ranking.least?
  | extremum true _ _ ranking _ => ranking.greatest?
  | list _ members => some (.list members.toList)
  | distinct _ counts _ => some (.size counts.size)
  | custom rule history => rule.value history

def isEmpty : Accumulator → Bool
  | count members | sum _ _ _ members => members == 0
  | extremum _ _ _ _ members | list _ members | distinct _ _ members => members.size == 0
  | custom rule history => rule.isEmpty history

/-- The accumulator in one line. -/
def describe : Accumulator → String
  | count members => "CountCollector \x7b count: " ++ toString members ++ " \x7d"
  | sum _ mean total members =>
    "SumCollector \x7b total: " ++ toString total ++ ", count: " ++ toString members
      ++ ", average: " ++ toString mean ++ " \x7d"
  | acc@(extremum greatest _ _ _ members) =>
    let current := match acc.value? with
      | some a => "Some(" ++ a.describe ++ ")"
      | none => "None"
    (if greatest then "MaxCollector" else "MinCollector") ++ " \x7b members: "
      ++ toString members.size ++ ", current: " ++ current ++ " \x7d"
  | list _ members => "ListCollector \x7b items: " ++ toString members.size ++ " \x7d"
  | distinct _ counts members =>
    "CountDistinctCollector \x7b distinct: " ++ toString counts.size ++ ", members: "
      ++ toString members.size ++ " \x7d"
  | custom rule history => rule.describe history

end Accumulator

/-- A collector: its key, and the accumulator that each group starts with, which is blank. -/
structure Collector where
  key : CollectorKey
  start : Accumulator
  blank_start : start.blank = start

namespace Collector

/-- Counts the members. -/
def count : Collector := ⟨.count, .count 0, rfl⟩

/-- Adds up a number of each member. -/
def sum (key : Nat) (of : Facts → Except Error Int64) : Collector :=
  ⟨.given key, .sum of false 0 0, rfl⟩

/-- The mean of a number of each member. -/
def average (key : Nat) (of : Facts → Except Error Int64) : Collector :=
  ⟨.given key, .sum of true 0 0, rfl⟩

/-- The least of the facts that the members are mapped to; the first one among equals. -/
def least (key : Nat) (of : Facts → Except Error Fact) (order : Fact → Fact → Ordering) :
    Collector :=
  ⟨.given key, .extremum false of order [] ∅, rfl⟩

/-- The greatest of the facts that the members are mapped to; the last one among equals. -/
def greatest (key : Nat) (of : Facts → Except Error Fact) (order : Fact → Fact → Ordering) :
    Collector :=
  ⟨.given key, .extremum true of order [] ∅, rfl⟩

/-- The facts that the members are mapped to, in order of arrival. -/
def toList (key : Nat) (of : Facts → Except Error Fact) : Collector := ⟨.given key, .list of ∅, rfl⟩

/-- How many different things the members are mapped to. -/
def countDistinct (key : Nat) (of : Facts → Except Error Fact) : Collector :=
  ⟨.given key, .distinct of ∅ ∅, rfl⟩

/-- A collector of the user's own. -/
def custom (key : Nat) (rule : CustomCollector) : Collector := ⟨.given key, .custom rule [], rfl⟩

end Collector

end ConstraintStreams
