import ConstraintStreams.Operator.Workbench

/-!
# Filters

A filter owns no tuples: it passes signals on. It remembers which inputs passed its predicate, so
that its children see a tuple appear and disappear as it starts and stops satisfying it.
-/

namespace ConstraintStreams

/-- The inputs that pass. -/
structure FilterMemory where
  passed : List TupleId := []

namespace FilterMemory

/-- Takes in a signal about a tuple and answers the one to pass on, if any. -/
def accept (predicate : Facts → Except Error Bool) (signal : Signal) (input : TupleId) :
    Work FilterMemory (Option Signal) := do
  let m ← Work.memory
  match signal with
  | .insert =>
    if ← predicate (← Work.facts input) then
      Work.setMemory ⟨m.passed.insert input⟩
      pure (some .insert)
    else pure none
  | .update =>
    match m.passed.contains input, ← predicate (← Work.facts input) with
    | true, true => pure (some .update)
    | false, true =>
      Work.setMemory ⟨m.passed.insert input⟩
      pure (some .insert)
    | true, false =>
      Work.setMemory ⟨m.passed.erase input⟩
      pure (some .retract)
    | false, false => pure none
  | .retract =>
    if m.passed.contains input then
      Work.setMemory ⟨m.passed.erase input⟩
      pure (some .retract)
    else pure none

end FilterMemory

end ConstraintStreams
