import ConstraintStreams.Joiner.Basic
import ConstraintStreams.Operator.Workbench

/-!
# Semijoins

A semijoin passes the left inputs that have a match on the right, or those that have none. Each
left input keeps the set of its matches. A change on the right only marks the left inputs it
touches as dirty; which of them pass is settled once per flush, by `SemijoinMemory.refresh`.
-/

namespace ConstraintStreams

/-- A left input: its matches on the right, and its output if it passes. -/
structure Counter where
  hits : List TupleId := []
  output : Option TupleId := none
  deriving DecidableEq

/-- The inputs of both sides and who matches whom. -/
structure SemijoinMemory where
  leftIndex : Index JoinKey TupleId := ∅
  rightIndex : Index JoinKey TupleId := ∅
  leftKeys : Table TupleId JoinKey := ∅
  rightKeys : Table TupleId JoinKey := ∅
  counters : Table TupleId Counter := ∅
  /-- For each right input that matches something, the left inputs it matches. -/
  leftsOf : Table TupleId (List TupleId) := ∅
  /-- The left inputs that the next refresh looks at. -/
  dirty : List TupleId := []

namespace SemijoinMemory

/-- The number of inputs held, on both sides. -/
def size (m : SemijoinMemory) : Nat := m.leftKeys.size + m.rightKeys.size

def hasDirty (m : SemijoinMemory) : Bool := !m.dirty.isEmpty

/-- Marks a left input as dirty. -/
def markDirty (m : SemijoinMemory) (left : TupleId) : SemijoinMemory :=
  { m with dirty := m.dirty.insert left }

/-- Notes that a right input matches a left one. -/
def link (left : TupleId) (m : SemijoinMemory) (right : TupleId) : SemijoinMemory :=
  { m with leftsOf := m.leftsOf.insert right (((m.leftsOf.get? right).getD []).insert left) }

/-- Strikes out that a right input matches a left one. -/
def unlink (left : TupleId) (m : SemijoinMemory) (right : TupleId) : SemijoinMemory :=
  match m.leftsOf.get? right with
  | none => m
  | some lefts =>
    match lefts.erase left with
    | [] => { m with leftsOf := m.leftsOf.erase right }
    | rest => { m with leftsOf := m.leftsOf.insert right rest }

/-- The candidates, in order, that a test accepts. -/
def accepted (test : TupleId → Work SemijoinMemory Bool) :
    List TupleId → Work SemijoinMemory (List TupleId)
  | [] => pure []
  | candidate :: rest => do
    if ← test candidate then return candidate :: (← accepted test rest) else accepted test rest

/-- Finds and notes the matches of a left input with a given key. -/
def findMatches (joiners : List Joiner) (left : TupleId) (key : JoinKey) :
    Work SemijoinMemory (List TupleId) := do
  let l ← Work.facts left
  let candidates ← Work.inHashOrder (·.tuples) ((← Work.memory).rightIndex.find key)
  let hits ← accepted (fun right => do Joiner.accept joiners l (← Work.facts right)) candidates
  Work.modifyMemory fun m => hits.foldl (link left) m
  pure hits

/-- Takes in a new left input. -/
def insertLeft (joiners : List Joiner) (left : TupleId) : Work SemijoinMemory Unit := do
  let key ← Joiner.leftKey joiners (← Work.facts left)
  let hits ← findMatches joiners left key
  Work.modifyMemory fun m =>
    { m with
      leftIndex := m.leftIndex.insert key left
      leftKeys := m.leftKeys.insert left key
      counters := m.counters.insert left ⟨hits, none⟩
      dirty := m.dirty.insert left }

/-- Replaces the matches of a left input. -/
def setHits (left : TupleId) (hits : List TupleId) (m : SemijoinMemory) : SemijoinMemory :=
  { m with counters := m.counters.modify left ({ · with hits }) }

/-- Finds the matches of a left input that is filed under a key anew, and gives its output its
facts. -/
def renewLeft (joiners : List Joiner) (left : TupleId) (key : JoinKey) (counter : Counter) :
    Work SemijoinMemory Unit := do
  Work.modifyMemory fun m => counter.hits.foldl (unlink left) (setHits left [] m)
  let hits ← findMatches joiners left key
  Work.modifyMemory (setHits left hits)
  match counter.output with
  | some output => Work.refreshTuple output (← Work.facts left)
  | none => pure ()
  Work.modifyMemory (·.markDirty left)

/-- Brings a changed left input, its matches and its output up to date. -/
def updateLeft (joiners : List Joiner) (left : TupleId) : Work SemijoinMemory Unit := do
  let key ← Joiner.leftKey joiners (← Work.facts left)
  let m ← Work.memory
  Work.setMemory { m with leftKeys := m.leftKeys.insert left key }
  match m.leftKeys.get? left, m.counters.get? left with
  | none, _ => throw (.inconsistent (.notHeld "Exists" left))
  | some oldKey, counter? =>
    if oldKey ≠ key then
      Work.modifyMemory fun m =>
        { m with leftIndex := (m.leftIndex.erase oldKey left).insert key left }
    match counter? with
    | none => throw (.inconsistent (.notHeld "Exists" left))
    | some counter => renewLeft joiners left key counter

/-- Withdraws a left input and its output. -/
def retractLeft (left : TupleId) : Work SemijoinMemory Unit := do
  let m ← Work.memory
  match m.leftKeys.get? left with
  | none => throw (.inconsistent (.notHeld "Exists" left))
  | some key =>
    let m := { m with
      leftKeys := m.leftKeys.erase left
      leftIndex := m.leftIndex.erase key left
      dirty := m.dirty.erase left }
    Work.setMemory m
    match m.counters.get? left with
    | none => pure ()
    | some counter =>
      Work.setMemory (counter.hits.foldl (unlink left) { m with counters := m.counters.erase left })
      match counter.output with
      | some output => Agenda.retract output
      | none => pure ()

/-- Adds a match to a left input and marks it as dirty. -/
def addHit (right : TupleId) (m : SemijoinMemory) (left : TupleId) : SemijoinMemory :=
  { m with counters := m.counters.modify left fun c => { c with hits := c.hits.insert right } }
    |>.markDirty left

/-- Removes a match from a left input and marks it as dirty. -/
def removeHit (right : TupleId) (m : SemijoinMemory) (left : TupleId) : SemijoinMemory :=
  { m with counters := m.counters.modify left fun c => { c with hits := c.hits.erase right } }
    |>.markDirty left

/-- Takes in a new right input. -/
def insertRight (joiners : List Joiner) (right : TupleId) : Work SemijoinMemory Unit := do
  let r ← Work.facts right
  let key ← Joiner.rightKey joiners r
  let candidates ← Work.inHashOrder (·.tuples) ((← Work.memory).leftIndex.find key)
  let lefts ← accepted (fun left => do Joiner.accept joiners (← Work.facts left) r) candidates
  Work.modifyMemory fun m =>
    let m := lefts.foldl (addHit right) m
    { m with
      leftsOf := if lefts.isEmpty then m.leftsOf else m.leftsOf.insert right lefts
      rightIndex := m.rightIndex.insert key right
      rightKeys := m.rightKeys.insert right key }

/-- Withdraws a right input. -/
def retractRight (right : TupleId) : Work SemijoinMemory Unit := do
  let m ← Work.memory
  match m.rightKeys.get? right with
  | none => throw (.inconsistent (.notHeld "Exists" right))
  | some key =>
    let lefts := (m.leftsOf.get? right).getD []
    Work.setMemory <| lefts.foldl (removeHit right)
      { m with
        rightKeys := m.rightKeys.erase right
        rightIndex := m.rightIndex.erase key right
        leftsOf := m.leftsOf.erase right }

/-- Brings a changed right input up to date. -/
def updateRight (joiners : List Joiner) (right : TupleId) : Work SemijoinMemory Unit := do
  retractRight right
  insertRight joiners right

/-- Makes or withdraws the output of a left input whose standing has changed. -/
def settle (node : NodeId) (expected : Bool) (left : TupleId) : Work SemijoinMemory Unit := do
  match (← Work.memory).counters.get? left with
  | none => pure ()
  | some counter =>
    let passes := (!counter.hits.isEmpty) == expected
    match passes, counter.output with
    | true, none =>
      let output ← Agenda.create node (← Work.facts left) (.single left)
      Work.modifyMemory fun m =>
        { m with counters := m.counters.insert left { counter with output := some output } }
    | false, some output =>
      Work.modifyMemory fun m =>
        { m with counters := m.counters.insert left { counter with output := none } }
      Agenda.retract output
    | _, _ => pure ()

/-- Settles every left input touched since the last refresh: it passes when its having a match is
as expected. -/
def refresh (node : NodeId) (expected : Bool) : Work SemijoinMemory Unit := do
  let dirty ← Work.inHashOrder (·.tuples) (← Work.memory).dirty
  Work.modifyMemory fun m => { m with dirty := [] }
  dirty.forM (settle node expected)

end SemijoinMemory

end ConstraintStreams
