import ConstraintStreams.Handle
import ConstraintStreams.Joiner.Index
import ConstraintStreams.Tuple.Basic

/-!
# Joiners

The conditions under which a left and a right tuple belong together. Equalities are indexed: both
sides compute a property, and only tuples whose properties agree meet at all. Every other
condition is a test on the pairs that met.
-/

namespace ConstraintStreams

/-- The conditions that a joiner can express. -/
inductive JoinerKind
  | equal
  | notEqual
  | lessThan
  | lessThanOrEqual
  | greaterThan
  | greaterThanOrEqual
  | filtering
  deriving DecidableEq

namespace JoinerKind

/-- All kinds, in order. -/
def all : List JoinerKind :=
  [equal, notEqual, lessThan, lessThanOrEqual, greaterThan, greaterThanOrEqual, filtering]

/-- The kind's name. -/
def name : JoinerKind → String
  | equal => "Equal"
  | notEqual => "NotEqual"
  | lessThan => "LessThan"
  | lessThanOrEqual => "LessThanOrEqual"
  | greaterThan => "GreaterThan"
  | greaterThanOrEqual => "GreaterThanOrEqual"
  | filtering => "Filtering"

/-- The kinds that compare two values without an index, by the words of their names. -/
def comparing : List (String × JoinerKind) :=
  [("not_equal", notEqual), ("less_than", lessThan), ("less_than_or_equal", lessThanOrEqual),
    ("greater_than", greaterThan), ("greater_than_or_equal", greaterThanOrEqual)]

/-- Whether two values satisfy the condition, given how the left one compares with the right. -/
def holds : JoinerKind → Ordering → Bool
  | equal, o => o.isEq
  | notEqual, o => o.isNe
  | lessThan, o => o.isLT
  | lessThanOrEqual, o => o.isLE
  | greaterThan, o => o.isGT
  | greaterThanOrEqual, o => o.isGE
  | filtering, _ => true

/-- Only equality is answered by an index. -/
def isIndexed (kind : JoinerKind) : Bool := kind == equal

end JoinerKind

/-- Computes a property of a tuple. -/
abbrev PropertyOf := Facts → Except Error Property

/-- Tests a left and a right tuple. -/
abbrev PairTest := Facts → Facts → Except Error Bool

/-- One condition between a left and a right tuple. -/
inductive Joiner
  | indexed (left right : Handle PropertyOf)
  | test (kind : JoinerKind) (accepts : Handle PairTest)

namespace Joiner

/-- The kind of a joiner. -/
def kind : Joiner → JoinerKind
  | indexed .. => .equal
  | test kind _ => kind

/-- What makes two joiners the same: their kind and their functions. -/
structure Key where
  kind : JoinerKind
  left : HandleKey
  right : Option HandleKey
  deriving DecidableEq

def key : Joiner → Key
  | indexed left right => ⟨.equal, left.key, some right.key⟩
  | test kind accepts => ⟨kind, accepts.key, none⟩

/-- Equality of a property of the left fact at a position and one of the first right fact. -/
def equalAt (i : Nat) (leftType rightType : FactType)
    (left right : Handle (Fact → Except Error Property)) : Joiner :=
  indexed
    ⟨left.key, fun l => do left.run (← l.typedAt? leftType i)⟩
    ⟨right.key, fun r => do right.run (← r.typedAt? rightType 0)⟩

/-- Equality of one property, computed by the same function on both sides. -/
def equalBy (type : FactType) (property : Handle (Fact → Except Error Property)) : Joiner :=
  let extract : Handle PropertyOf :=
    ⟨property.key, fun t => do property.run (← t.typedAt? type 0)⟩
  indexed extract extract

/-- A comparison of a value of the first left fact with one of the first right fact, which is looked
at only once the left value is known. -/
def comparing (kind : JoinerKind) (key : HandleKey) (leftType rightType : FactType)
    (left right : Fact → Except Error Value) : Joiner :=
  test kind ⟨key, fun l r => do
    let a ← left (← l.typedAt? leftType 0)
    let b ← right (← r.typedAt? rightType 0)
    pure (kind.holds (a.order b))⟩

/-- Any test of the first left fact and the first right fact. -/
def filtering (key : HandleKey) (leftType rightType : FactType)
    (accepts : Fact → Fact → Except Error Bool) : Joiner :=
  test .filtering ⟨key, fun l r => do accepts (← l.typedAt? leftType 0) (← r.typedAt? rightType 0)⟩

/-- Any test of the first two left facts and the first right fact. -/
def filteringPair (key : HandleKey) (firstType secondType rightType : FactType)
    (accepts : Fact → Fact → Fact → Except Error Bool) : Joiner :=
  test .filtering ⟨key, fun l r => do
    accepts (← l.typedAt? firstType 0) (← l.typedAt? secondType 1) (← r.typedAt? rightType 0)⟩

/-- Keeps a fact of a type from meeting itself. -/
def otherFact (type : FactType) : Joiner :=
  test .filtering ⟨.otherFact type, fun l r =>
    return !decide ((← l.at? 0).Same (← r.at? 0))⟩

/-- Keeps, of the two orders of a pair, the one with the lower id on the left. -/
def uniquePair (type : FactType) : Joiner :=
  test .filtering ⟨.uniquePair type, fun l r =>
    return ((← l.at? 0).id.order (← r.at? 0).id).isLT⟩

/-- The properties that the joiners ask of a left tuple. -/
def leftKey (joiners : List Joiner) (l : Facts) : Except Error JoinKey :=
  (joiners.filterMap fun | indexed left _ => some left | test .. => none).mapM fun h => h.run l

/-- The properties that the joiners ask of a right tuple. -/
def rightKey (joiners : List Joiner) (r : Facts) : Except Error JoinKey :=
  (joiners.filterMap fun | indexed _ right => some right | test .. => none).mapM fun h => h.run r

/-- The tests of the joiners, in order. -/
def tests (joiners : List Joiner) : List (Handle PairTest) :=
  joiners.filterMap fun | test _ accepts => some accepts | indexed .. => none

/-- Runs tests on a pair, up to the first that rejects it. -/
def passes : List (Handle PairTest) → Facts → Facts → Except Error Bool
  | [], _, _ => .ok true
  | h :: rest, l, r => do
    if ← h.run l r then passes rest l r else pure false

/-- Whether a pair whose keys agree is accepted. -/
def accept (joiners : List Joiner) (l r : Facts) : Except Error Bool :=
  passes (tests joiners) l r

end Joiner

end ConstraintStreams
