import ConstraintStreams.Joiner.Basic
import ConstraintStreams.Operator.Workbench

/-!
# Joins

A join has one output for each pair of a left and a right input that its joiners accept. Each side
files its inputs under their join keys, so that an input only meets the candidates of the other
side with an equal key; each input remembers the outputs it takes part in.
-/

namespace ConstraintStreams

/-- One side of a join: its inputs filed under their keys, and the outputs of each input. -/
structure JoinSide where
  index : Index JoinKey TupleId := ∅
  keys : Table TupleId JoinKey := ∅
  outputs : Table TupleId (List TupleId) := ∅

namespace JoinSide

/-- The outputs that an input takes part in. -/
def outputsOf (s : JoinSide) (input : TupleId) : List TupleId := (s.outputs.get? input).getD []

/-- Notes an output of an input. -/
def addOutput (s : JoinSide) (input output : TupleId) : JoinSide :=
  { s with outputs := s.outputs.insert input ((s.outputsOf input).insert output) }

/-- Strikes out an output of an input. -/
def removeOutput (s : JoinSide) (input output : TupleId) : JoinSide :=
  { s with outputs := s.outputs.modify input (·.erase output) }

/-- Files an input under its key. -/
def file (s : JoinSide) (input : TupleId) (key : JoinKey) : JoinSide where
  index := s.index.insert key input
  keys := s.keys.insert input key
  outputs := s.outputs.insert input (s.outputsOf input)

end JoinSide

/-- Both sides of a join. -/
structure JoinMemory where
  left : JoinSide := {}
  right : JoinSide := {}

/-- The join key of a tuple that arrives on a side. -/
def Joiner.keyOn (joiners : List Joiner) (side : Side) (facts : Facts) : Except Error JoinKey :=
  match side with
  | .right => Joiner.rightKey joiners facts
  | _ => Joiner.leftKey joiners facts

namespace JoinMemory

/-- The side of the join that an input arrives on. -/
def own (m : JoinMemory) : Side → JoinSide
  | .right => m.right
  | _ => m.left

/-- The side of the join across from an input. -/
def other (m : JoinMemory) : Side → JoinSide
  | .right => m.left
  | _ => m.right

/-- Changes the side that an input arrives on. -/
def modifyOwn (m : JoinMemory) (side : Side) (f : JoinSide → JoinSide) : JoinMemory :=
  match side with
  | .right => { m with right := f m.right }
  | _ => { m with left := f m.left }

/-- Changes the side across from an input. -/
def modifyOther (m : JoinMemory) (side : Side) (f : JoinSide → JoinSide) : JoinMemory :=
  match side with
  | .right => { m with left := f m.left }
  | _ => { m with right := f m.right }

/-- An input and a candidate as left and right of a pair. -/
def orient (side : Side) (input candidate : TupleId) : TupleId × TupleId :=
  match side with
  | .right => (candidate, input)
  | _ => (input, candidate)

/-- The member of a pair across from the side given. -/
def partner? (side : Side) : Sources → Option TupleId
  | .pair left right => some (match side with | .right => left | _ => right)
  | _ => none

/-- The number of inputs held, on both sides. -/
def size (m : JoinMemory) : Nat := m.left.keys.size + m.right.keys.size

/-- The number of pairs. -/
def outputCount (m : JoinMemory) : Nat := m.left.outputs.values.flatten.length

/-- The facts of a pair, unless the joiners reject it. -/
def joinedFacts? (joiners : List Joiner) (pair : TupleId × TupleId) :
    Work JoinMemory (Option Facts) := do
  let l ← Work.facts pair.1
  let r ← Work.facts pair.2
  if ← Joiner.accept joiners l r then pure (some (l ++ r)) else pure none

/-- Makes the output of a pair. -/
def createPair (node : NodeId) (pair : TupleId × TupleId) (facts : Facts) :
    Work JoinMemory Unit := do
  let output ← Agenda.create node facts (.pair pair.1 pair.2)
  Work.modifyMemory fun m =>
    { left := m.left.addOutput pair.1 output, right := m.right.addOutput pair.2 output }

/-- Withdraws an output that an input of the side no longer lists. -/
def retractOutput (side : Side) (output : TupleId) : Work JoinMemory Unit := do
  let sources ← Work.sources output
  match partner? side sources with
  | none => throw (.inconsistent (.strayOutput output sources))
  | some partner =>
    Work.modifyMemory fun m => m.modifyOther side (·.removeOutput partner output)
    Agenda.retract output

/-- Strikes an output off an input's list and withdraws it. -/
def dropOutput (side : Side) (input output : TupleId) : Work JoinMemory Unit := do
  Work.modifyMemory fun m => m.modifyOwn side (·.removeOutput input output)
  retractOutput side output

/-- Files a new input and pairs it with every candidate that the joiners accept. -/
def insert (node : NodeId) (joiners : List Joiner) (side : Side) (input : TupleId) :
    Work JoinMemory Unit := do
  let key ← Joiner.keyOn joiners side (← Work.facts input)
  let candidates ← Work.inHashOrder (·.tuples) (((← Work.memory).other side).index.find key)
  Work.modifyMemory fun m => m.modifyOwn side (·.file input key)
  candidates.forM fun candidate => do
    let pair := orient side input candidate
    match ← joinedFacts? joiners pair with
    | some facts => createPair node pair facts
    | none => pure ()

/-- Withdraws an input and all outputs it takes part in. -/
def retract (side : Side) (input : TupleId) : Work JoinMemory Unit := do
  let m ← Work.memory
  match (m.own side).keys.get? input with
  | none => throw (.inconsistent (.notHeld "Join" input))
  | some key =>
    let outputs ← Work.inHashOrder (·.tuples) ((m.own side).outputsOf input)
    Work.setMemory <| m.modifyOwn side fun s => {
      index := s.index.erase key input
      keys := s.keys.erase input
      outputs := s.outputs.erase input }
    outputs.forM fun output => retractOutput side output

/-- The outputs of an input by the partner they join it with. -/
def outputsByPartner (side : Side) (outputs : List TupleId) :
    Work JoinMemory (Table TupleId TupleId) :=
  outputs.foldlM (fun (found : Table TupleId TupleId) output => do
    match partner? side (← Work.sources output) with
    | some partner => pure (found.insert partner output)
    | none => pure found) ∅

/-- Brings the pair of a changed input with a candidate up to date. -/
def updatePair (node : NodeId) (joiners : List Joiner) (side : Side) (input : TupleId)
    (existing : Table TupleId TupleId) (candidate : TupleId) : Work JoinMemory Unit := do
  let pair := orient side input candidate
  match ← joinedFacts? joiners pair, existing.get? candidate with
  | some facts, some output => Work.refreshTuple output facts
  | some facts, none => createPair node pair facts
  | none, some output => dropOutput side input output
  | none, none => pure ()

/-- Brings a changed input up to date. Under a new key it is withdrawn and filed again; under its
old key only the tests of the joiners can change which candidates it is paired with. -/
def update (node : NodeId) (joiners : List Joiner) (side : Side) (input : TupleId) :
    Work JoinMemory Unit := do
  let key ← Joiner.keyOn joiners side (← Work.facts input)
  let m ← Work.memory
  match (m.own side).keys.get? input with
  | none => throw (.inconsistent (.notHeld "Join" input))
  | some oldKey =>
    if oldKey ≠ key then
      retract side input
      insert node joiners side input
    else
      let outputs ← Work.inHashOrder (·.tuples) ((m.own side).outputsOf input)
      let existing ← outputsByPartner side outputs
      let candidates ← Work.inHashOrder (·.tuples) ((m.other side).index.find key)
      candidates.forM (updatePair node joiners side input existing)
      let unmatched := (existing.filter fun partner _ => !candidates.contains partner).values
      (← Work.inHashOrder (·.tuples) unmatched).forM (dropOutput side input)

end JoinMemory

end ConstraintStreams
