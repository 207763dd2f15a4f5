import ConstraintStreams.Network.Basic

/-!
# Checks between flushes

What holds of every network after a flush, as checks that name what they find broken: no tuple is
queued, every tuple is settled, no node has outputs left to settle, and every ledger lists live
tuples and the sum of its entries.
-/

namespace ConstraintStreams

namespace Network

variable {kind : ScoreKind}

/-- Nothing is queued. -/
def checkQueues (net : Network kind) : Except Error Unit :=
  if net.pending = 0 then .ok () else .error (.inconsistent (.stillQueued net.pending))

/-- Every tuple is settled. -/
def checkStages (net : Network kind) : Except Error Unit :=
  match net.agenda.tuples.toList.find? (fun e => e.2.stage ≠ .settled) with
  | some (id, t) => .error (.inconsistent (.unsettled id t.stage))
  | none => .ok ()

/-- No node has outputs left to settle. -/
def checkRefreshed (net : Network kind) : Except Error Unit :=
  match net.memories.entries.find? (fun e => e.2.hasDirty) with
  | some (node, _) => .error (.inconsistent (.unrefreshed node))
  | none => .ok ()

/-- The sum of the entries of a ledger, each of which has to be of a live tuple. -/
def sumOfMatches (net : Network kind) (c : Constraint kind) :
    List (TupleId × Entry kind) → Score kind → Except Error (Score kind)
  | [], sum => .ok sum
  | (id, entry) :: rest, sum => do
    let stage ← net.agenda.stage id
    if !stage.isLive then throw (.inconsistent (.staleMatch c.id id stage))
    match sum.checkedAdd entry.score with
    | some sum => sumOfMatches net c rest sum
    | none => throw (.overflow .sumOfMatches)

/-- The total of a constraint is the sum of its entries. -/
def checkLedger (g : Graph kind) (net : Network kind) (node : NodeId) : Except Error Unit :=
  match net.ledger? node with
  | none => .ok ()
  | some l => do
    let c ← g.constraintAt node
    let sum ← sumOfMatches net c (l.entries.inOrder net.agenda.hashOrder.tuples) .zero
    if sum ≠ l.total then throw (.inconsistent (.wrongTotal c.id l.total.text sum.text))

/-- All checks, in order. -/
def validate (g : Graph kind) (net : Network kind) : Except Error Unit := do
  net.checkQueues
  net.checkStages
  net.checkRefreshed
  g.constraints.forM (net.checkLedger g)

end Network

end ConstraintStreams
