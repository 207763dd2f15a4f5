import ConstraintStreams.Collector.Basic
import ConstraintStreams.Operator.Workbench

/-!
# Groups

A grouping puts its inputs into groups by what their keys stand for, or all into one group, and
lets a collector sum up each group. Members enter and leave at once; the output of a group is
brought up to date once per flush, by `GroupMemory.refresh`.
-/

namespace ConstraintStreams

/-- What the members of a group have in common; nothing for the one group of a keyless stream. -/
abbrev GroupId := Option Fact

/-- A group: its key, its collector's state, the number of its members and its output. -/
structure Group where
  /-- The key of the member that came last. -/
  key : Option Fact := none
  accumulator : Option Accumulator
  size : Nat := 0
  output : Option TupleId := none

/-- A member: its group, and the receipt that takes it out again. -/
structure Member where
  group : GroupId
  receipt : Receipt
  deriving DecidableEq

/-- The groups, the members, and the groups that the next refresh looks at. -/
structure GroupMemory where
  groups : Table GroupId Group := ∅
  members : Table TupleId Member := ∅
  dirty : List GroupId := []

namespace GroupMemory

/-- The number of members, over all groups. -/
def size (m : GroupMemory) : Nat := m.members.size

def groupCount (m : GroupMemory) : Nat := m.groups.size

def hasDirty (m : GroupMemory) : Bool := !m.dirty.isEmpty

/-- Replaces a group. -/
def setGroup (id : GroupId) (group : Group) : Work GroupMemory Unit :=
  Work.modifyMemory fun m => { m with groups := m.groups.insert id group }

/-- Computes the key of an input and numbers it if it has just been built. -/
def keyOf (key : Option (Facts → Except Error Fact)) (facts : Facts) :
    Work GroupMemory (Option Fact) :=
  match key with
  | none => pure none
  | some f => do return (← Agenda.number [← f facts]).head?

/-- Takes an input into an accumulator, if the group has one. -/
def collect (facts : Facts) : Option Accumulator → Work GroupMemory (Option Accumulator × Receipt)
  | none => pure (none, .unit)
  | some accumulator => do
    let agenda := (← get).agenda
    let (accumulator, receipt, nextVersion) ← accumulator.insert agenda.nextVersion facts
    modify fun w => { w with agenda := { agenda with nextVersion } }
    pure (some accumulator, receipt)

/-- Puts a new input into its group. -/
def insert (key : Option (Facts → Except Error Fact)) (collector : Option Collector)
    (input : TupleId) : Work GroupMemory Unit := do
  let facts ← Work.facts input
  let keyFact ← keyOf key facts
  let id := keyFact.map Fact.identity
  let group := ((← Work.memory).groups.get? id).getD { accumulator := collector.map (·.start) }
  setGroup id group
  let (accumulator, receipt) ← collect facts group.accumulator
  setGroup id { group with
    accumulator
    size := group.size + 1
    key := keyFact.or group.key }
  Work.modifyMemory fun m =>
    { m with dirty := m.dirty.insert id, members := m.members.insert input ⟨id, receipt⟩ }

/-- Takes an input out of its group. -/
def retract (input : TupleId) : Work GroupMemory Unit := do
  let m ← Work.memory
  match m.members.get? input with
  | none => throw (.inconsistent (.noMember input))
  | some member =>
    Work.setMemory { m with members := m.members.erase input }
    match m.groups.get? member.group with
    | none => throw (.inconsistent (.noGroup input))
    | some group =>
      let accumulator ← group.accumulator.mapM fun a => a.retract member.receipt
      let size ← countDown group.size 1
      setGroup member.group { group with accumulator, size }
      Work.modifyMemory fun m => { m with dirty := m.dirty.insert member.group }

/-- Moves a changed input, which may belong to another group now. -/
def update (key : Option (Facts → Except Error Fact)) (collector : Option Collector)
    (input : TupleId) : Work GroupMemory Unit := do
  retract input
  insert key collector input

/-- The facts of a group's output: its key, then what its collector reports. There is no output
while the collector has nothing to report. -/
def outputFacts? (group : Group) : Option Facts :=
  match group.accumulator with
  | none => some group.key.toList
  | some accumulator => accumulator.value?.map fun value => group.key.toList ++ [value]

/-- Brings the output of a group up to date; a group without members is forgotten. -/
def settle (node : NodeId) (id : GroupId) : Work GroupMemory Unit := do
  match (← Work.memory).groups.get? id with
  | none => pure ()
  | some group =>
    if group.size = 0 then
      match group.output with
      | some output =>
        setGroup id { group with output := none }
        Agenda.retract output
      | none => pure ()
      Work.modifyMemory fun m => { m with groups := m.groups.erase id }
    else
      match outputFacts? group, group.output with
      | some facts, none =>
        let output ← Agenda.create node (← Agenda.number facts) .none
        setGroup id { group with output := some output }
      | some facts, some output => Work.refreshIfChanged output (← Agenda.number facts)
      | none, some output =>
        setGroup id { group with output := none }
        Agenda.retract output
      | none, none => pure ()

/-- Settles every group touched since the last refresh. -/
def refresh (node : NodeId) : Work GroupMemory Unit := do
  let dirty ← Work.inHashOrder (·.groups) (← Work.memory).dirty
  Work.modifyMemory fun m => { m with dirty := [] }
  dirty.forM (settle node)

end GroupMemory

end ConstraintStreams
