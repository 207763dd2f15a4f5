import ConstraintStreams.Collector.Basic

/-!
# The even count

A collector that reports the number of its members while that is even and has nothing to report
while it is odd. All members are alike to it, and it gives back members that it never took in: its
count may be negative.
-/

namespace ConstraintStreams

/-- The number of members after a history, less than zero if more were given back than taken in. -/
def CollectorEvent.members (history : List CollectorEvent) : Int :=
  history.foldl (fun n e => match e with | .inserted .. => n + 1 | .retracted _ => n - 1) 0

/-- Reports even numbers of members only. -/
def CustomCollector.evenCount : CustomCollector where
  insert _ _ := .ok .unit
  retract _ _ := .ok ()
  value history :=
    let members := CollectorEvent.members history
    if members % 2 = 0 then some (.int64 (Int64.ofInt members)) else none
  isEmpty history := CollectorEvent.members history == 0
  describe history := "Even(" ++ toString (CollectorEvent.members history) ++ ")"

end ConstraintStreams
