import ConstraintStreams.Arithmetic
import ConstraintStreams.Limits
import ConstraintStreams.Tuple.Id

/-!
# Errors

Everything that can go wrong, by cause. The wording of a cause is in one place, `Error.message`.
`Error.poisons` sorts the errors: those found before anything was changed leave a session usable,
all others may have left work half done.
-/

namespace ConstraintStreams

/-- The full name of a constraint. -/
structure ConstraintId where
  package : String
  name : String
  deriving DecidableEq

/-- A constraint's name in messages. -/
def ConstraintId.text (id : ConstraintId) : String := id.package ++ "/" ++ id.name

/-- Why a configuration was refused. -/
inductive ConfigError
  /-- The file could not be read. -/
  | unreadable
  /-- The text is not a configuration. -/
  | malformed
  /-- The configuration has values that no session accepts. -/
  | invalid (reason : String)
  deriving DecidableEq

/-- What a name failed to resolve to. -/
inductive Unresolved
  | tuple (id : TupleId)
  | node (id : NodeId)
  | constraint (node : NodeId)
  | described (reason : String)
  deriving DecidableEq

/-- Which internal agreement was found broken. -/
inductive Violation
  | noQueue (node : NodeId)
  | cannotUpdate (stage : Stage)
  | cannotRetract (stage : Stage)
  | notHeld (operator : String) (tuple : TupleId)
  | noState (operator : String) (tuple : TupleId)
  | noMember (tuple : TupleId)
  | noGroup (tuple : TupleId)
  | strayOutput (output : TupleId) (sources : Sources)
  | wrongReceipt (collector receipt : String)
  | unranked (slot : Nat)
  | belowZero (collector : String)
  | noMemory (node : NodeId)
  | misdelivered (operator : String) (node : NodeId)
  | tooDeep (node : NodeId)
  | matchedTwice (constraint : ConstraintId) (tuple : TupleId)
  | noMatch (constraint : ConstraintId) (tuple : TupleId)
  | noLedger (constraint : ConstraintId)
  | stillQueued (tuples : Nat)
  | unsettled (tuple : TupleId) (stage : Stage)
  | unrefreshed (node : NodeId)
  | staleMatch (constraint : ConstraintId) (tuple : TupleId) (stage : Stage)
  | wrongTotal (constraint : ConstraintId) (total sum : String)
  | described (details : String)
  deriving DecidableEq

/-- Which number left the range of words. -/
inductive Overflow
  | sum (total value : Int64)
  | difference (total value : Int64)
  | impact (constraint : ConstraintId) (weight : String) (matchWeight : Int64)
  | total (constraint : ConstraintId)
  | sumOfTotals
  | sumOfMatches
  | described (details : String)
  deriving DecidableEq

/-- Why a declaration was refused. -/
inductive Refusal
  | arity (operator : String) (arity most : Nat)
  | foreignParent (node : NodeId)
  | missingParent (operator : String) (position : Nat)
  | lateVisibility (type : String)
  | emptyGroup
  | unequalArities (left right : Nat)
  | described (details : String)
  deriving DecidableEq

/-- An error of the library. -/
inductive Error
  | duplicateFact (type : String) (id : Int64)
  | factNotFound (type : String) (id : Int64)
  | resourceLimit (limit details : String)
  | invalidIndex (what : Unresolved)
  | invalidArity (expected actual : Nat)
  | typeMismatch (expected actual : String)
  | declaration (why : Refusal)
  | incompatibleJoinArity (left right most : Nat)
  | childBeforeSharing
  | duplicateConstraint (id : String)
  | constraintNotFound (id : String)
  | alreadyBuilt
  | overflow (site : Overflow)
  | inconsistent (what : Violation)
  | scoreCorruption (incremental rebuilt : String)
  | sessionPoisoned
  | config (e : ConfigError)
  /-- The computation stopped the program. -/
  | stopped (trap : Trap)
  | other (message : String)
  deriving DecidableEq

/-- The name of the cause of a refusal. -/
def ConfigError.name : ConfigError → String
  | .unreadable => "Config.Io"
  | .malformed => "Config.Toml"
  | .invalid _ => "Config.Invalid"

def ConfigError.message : ConfigError → String
  | .unreadable => "IO error"
  | .malformed => "TOML parse error"
  | .invalid reason => "Invalid configuration: " ++ reason

def Unresolved.message : Unresolved → String
  | .tuple id => "stale or unknown tuple " ++ id.text
  | .node id => "unknown node " ++ id.text
  | .constraint leaf => "node " ++ leaf.text ++ " is not a constraint"
  | .described reason => reason

def Violation.message : Violation → String
  | .noQueue node => "node " ++ node.text ++ " has no dirty queue"
  | .cannotUpdate stage => "tuple cannot be updated in state " ++ stage.name
  | .cannotRetract stage => "tuple cannot be retracted in state " ++ stage.name
  | .notHeld operator tuple => operator ++ " node does not hold tuple " ++ tuple.text
  | .noState operator tuple => operator ++ " node holds no state for tuple " ++ tuple.text
  | .noMember tuple => "GroupBy node holds no member " ++ tuple.text
  | .noGroup tuple => "group of member " ++ tuple.text ++ " is missing"
  | .strayOutput output sources => "join output " ++ output.text ++ " has sources " ++ sources.text
  | .wrongReceipt collector receipt => collector ++ " cannot undo " ++ receipt
  | .unranked slot => "min/max slot " ++ toString slot ++ " missing from the ordered values"
  | .belowZero collector => collector ++ " collector retracted below zero"
  | .noMemory node => "node " ++ node.text ++ " has no memory"
  | .misdelivered operator node =>
    operator ++ " node " ++ node.text ++ " received a tuple it cannot process"
  | .tooDeep node => "node " ++ node.text ++ " lies above the highest layer"
  | .matchedTwice constraint tuple =>
    "constraint " ++ constraint.text ++ " matched tuple " ++ tuple.text ++ " twice"
  | .noMatch constraint tuple =>
    "constraint " ++ constraint.text ++ " has no match for tuple " ++ tuple.text
  | .noLedger constraint => "constraint " ++ constraint.text ++ " has no memory"
  | .stillQueued tuples => toString tuples ++ " tuples still queued after flush"
  | .unsettled tuple stage => "tuple " ++ tuple.text ++ " left in state " ++ stage.name
  | .unrefreshed node => "node " ++ node.text ++ " has unrefreshed state"
  | .staleMatch constraint tuple stage =>
    "constraint " ++ constraint.text ++ " matches tuple " ++ tuple.text ++ " in state " ++ stage.name
  | .wrongTotal constraint kept sum =>
    "constraint " ++ constraint.text ++ " total " ++ kept
      ++ " differs from the sum of its matches " ++ sum
  | .described details => details

def Overflow.message : Overflow → String
  | .sum before value => "sum " ++ toString before ++ " + " ++ toString value
  | .difference before value => "sum " ++ toString before ++ " - " ++ toString value
  | .impact constraint weight matchWeight =>
    "constraint " ++ constraint.text ++ ": weight " ++ weight ++ " times match weight "
      ++ toString matchWeight
  | .total constraint => "total of constraint " ++ constraint.text
  | .sumOfTotals => "sum of constraint totals"
  | .sumOfMatches => "sum of constraint matches"
  | .described details => details

def Refusal.message : Refusal → String
  | .arity operator facts most =>
    operator ++ " stream of arity " ++ toString facts ++ " is outside 1..=" ++ toString most
  | .foreignParent node => "parent " ++ node.text ++ " does not belong to this factory"
  | .missingParent operator position => operator ++ " node is missing parent " ++ toString position
  | .lateVisibility type =>
    "visibility for " ++ type ++ " registered after its source stream was built"
  | .emptyGroup => "group_by needs a key function, a collector or both"
  | .unequalArities left right =>
    "cannot concat streams of arity " ++ toString left ++ " and " ++ toString right
  | .described details => details

namespace Error

/-- The text of an error. -/
def message : Error → String
  | .duplicateFact type id => "Fact " ++ type ++ "#" ++ toString id ++ " already exists in the session"
  | .factNotFound type id => "Fact " ++ type ++ "#" ++ toString id ++ " not found in the session"
  | .resourceLimit limit details => "Resource limit exceeded: " ++ limit ++ " - " ++ details
  | .invalidIndex what => "Invalid tuple index: " ++ what.message
  | .invalidArity expected actual =>
    "Invalid tuple arity: expected " ++ toString expected ++ ", got " ++ toString actual
  | .typeMismatch expected actual => "Type mismatch: expected " ++ expected ++ ", found " ++ actual
  | .declaration why => "Constraint building error: " ++ why.message
  | .incompatibleJoinArity left right most =>
    "Incompatible join arities: " ++ toString left ++ " + " ++ toString right
      ++ " exceeds the maximum tuple arity " ++ toString most
  | .childBeforeSharing =>
    "Node definition already has children; it must be shared before children attach"
  | .duplicateConstraint id => "Constraint " ++ id ++ " is defined more than once"
  | .constraintNotFound id => "Constraint " ++ id ++ " not found"
  | .alreadyBuilt => "Constraint factory was already finalized by build()"
  | .overflow site => "Arithmetic overflow: " ++ site.message
  | .inconsistent what => "Consistency check failed: " ++ what.message
  | .scoreCorruption incremental rebuilt =>
    "Score corruption: incremental score " ++ incremental ++ " differs from rebuilt score " ++ rebuilt
  | .sessionPoisoned =>
    "Session was poisoned by an earlier propagation failure and must be discarded"
  | .config e => e.message
  | .stopped trap => trap.message
  | .other message => message

/-- The name of the cause of an error. -/
def name : Error → String
  | .duplicateFact .. => "DuplicateFact"
  | .factNotFound .. => "FactNotFound"
  | .resourceLimit .. => "ResourceLimit"
  | .invalidIndex _ => "InvalidIndex"
  | .invalidArity .. => "InvalidArity"
  | .typeMismatch .. => "TypeMismatch"
  | .declaration _ => "ConstraintBuilder"
  | .incompatibleJoinArity .. => "IncompatibleJoinArity"
  | .childBeforeSharing => "ChildAttachedBeforeSharing"
  | .duplicateConstraint _ => "DuplicateConstraint"
  | .constraintNotFound _ => "ConstraintNotFound"
  | .alreadyBuilt => "FactoryFinalized"
  | .overflow _ => "Overflow"
  | .inconsistent _ => "ConsistencyViolation"
  | .scoreCorruption .. => "ScoreCorruption"
  | .sessionPoisoned => "SessionPoisoned"
  | .config e => e.name
  | .stopped _ => "Panic"
  | .other _ => "Other"

/-- The error may have left a session half changed. Looking something up in vain, refusing a
configuration and refusing to work on a poisoned session change nothing. -/
def poisons : Error → Bool
  | .duplicateFact .. | .factNotFound .. | .constraintNotFound _ | .sessionPoisoned | .config _ =>
    false
  | _ => true

end Error

/-- Lowers a counter. One that would fall below zero stops the program. -/
def countDown (counter amount : Nat) : Except Error Nat :=
  if counter < amount then .error (.stopped .subtraction) else .ok (counter - amount)

/-- Checks a count against one of the limits. -/
def Limits.check (l : Limits) (limit : Limit) (current : Nat) : Except Error Unit :=
  if l.bound limit < current then
    .error (.resourceLimit limit.name
      ("Current: " ++ toString current ++ ", Limit: " ++ toString (l.bound limit)))
  else .ok ()

end ConstraintStreams
