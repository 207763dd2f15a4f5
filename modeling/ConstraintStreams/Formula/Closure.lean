import ConstraintStreams.Collector.Parity
import ConstraintStreams.Formula.Basic
import ConstraintStreams.Joiner.Basic

/-!
# Functions from formulas

Two ways to make a function of a formula. A *tuple* function evaluates it over the facts of a tuple
and reports what goes wrong. A *typed* function first reads facts of given types, whose absence it
reports, and then computes a result that cannot fail: where the formula fails, the result is the
blank one of its kind. Only what stops the program is never passed over.
-/

namespace ConstraintStreams

/-- The first facts of a tuple, which have to be of the given types. -/
def Facts.typed? (facts : Facts) (types : List FactType) : Except Error Facts :=
  types.zipIdx.mapM fun (type, i) => facts.typedAt? type i

/-- The result of a computation, or a blank if it fails without stopping the program. -/
def orBlank (blank : α) : Except Error α → Except Error α
  | .ok a => .ok a
  | .error (.stopped trap) => .error (.stopped trap)
  | .error _ => .ok blank

namespace Formula

/-- A predicate on facts of given types; false where the formula fails. -/
def typedPredicate (e : Formula) (types : List FactType) (facts : Facts) : Except Error Bool :=
  do orBlank false (e.evalBool (← facts.typed? types))

/-- A number computed from facts of given types; zero where the formula fails. -/
def typedInt (e : Formula) (types : List FactType) (facts : Facts) : Except Error Int64 :=
  do orBlank 0 (e.evalInt (← facts.typed? types))

/-- A one-fact mapper on facts of given types. -/
def typedMapper (e : Formula) (types : List FactType) (facts : Facts) : Except Error Facts :=
  return [.int64 (← e.typedInt types facts)]

/-- The one fact of a type that a function is given. -/
def onlyFact (type : FactType) (a : Fact) : Except Error Fact :=
  if a.type = type then .ok a else .error (.typeMismatch type.name a.type.name)

/-- A predicate on a fact of a type; false where the formula fails. -/
def factPredicate (e : Formula) (type : FactType) (a : Fact) : Except Error Bool :=
  do orBlank false (e.evalBool [← onlyFact type a])

/-- The words that a formula makes of a fact of a type; none where the formula fails. -/
def typedItems (e : Formula) (type : FactType) (a : Fact) : Except Error (List Fact) :=
  return (← orBlank [] (e.evalList [← onlyFact type a])).map Fact.int64

/-- A value computed from one fact; nothing where the formula fails. -/
def factValue (e : Formula) (a : Fact) : Except Error Value := orBlank .none (e.eval [a] none)

/-- A join property computed from one fact. -/
def factProperty (e : Formula) (a : Fact) : Except Error Property :=
  return .value (← e.factValue a)

/-- A join property computed from a tuple. -/
def tupleProperty (e : Formula) (facts : Facts) : Except Error Property :=
  return .value (← e.eval facts none)

/-- A word of a tuple as a join property of its own type. -/
def wordProperty (e : Formula) (facts : Facts) : Except Error Property :=
  return .int64 (← e.evalInt facts)

/-- A word of a tuple, cut to 32 bits, as a join property of its own type. -/
def halfWordProperty (e : Formula) (facts : Facts) : Except Error Property :=
  return .int32 (← e.evalInt facts).toInt32

/-- A test of two facts; false where the formula fails. -/
def accepts₂ (e : Formula) (a b : Fact) : Except Error Bool := orBlank false (e.evalBool [a, b])

/-- A test of three facts; false where the formula fails. -/
def accepts₃ (e : Formula) (a b c : Fact) : Except Error Bool :=
  orBlank false (e.evalBool [a, b, c])

/-- A word as a fact, computed from a tuple. -/
def wordFact (e : Formula) (facts : Facts) : Except Error Fact := return .int64 (← e.evalInt facts)

/-- A text as a fact, computed from a fact of a type; empty where the formula fails. -/
def typedTextFact (e : Formula) (type : FactType) (facts : Facts) : Except Error Fact :=
  return .scalar (.string (← orBlank "" (e.evalText (← facts.typed? [type]))))

/-- A word as a fact, computed from a fact of a type; zero where the formula fails. -/
def typedWordFact (e : Formula) (type : FactType) (facts : Facts) : Except Error Fact :=
  return .int64 (← e.typedInt [type] facts)

end Formula

/-! ## Orders on words -/

/-- The word of a fact; zero for any other fact. -/
def Fact.word : Fact → Int64
  | .scalar (.int64 n) => n
  | _ => 0

/-- Ways to order the words that a collector compares. -/
inductive WordOrder
  | natural
  | reversed
  /-- By distance from zero. -/
  | distance
  /-- By the last decimal digit of the remainder. -/
  | lastDigit
  /-- All words are equal. -/
  | indifferent
  deriving DecidableEq

/-- The orders by name; every other name means that all words are equal. -/
def WordOrder.ofName (name : String) : WordOrder :=
  match name with
  | "nat" => natural
  | "rev" => reversed
  | "abs" => distance
  | "mod10" => lastDigit
  | _ => indifferent

/-- How two facts compare in a way to order words. -/
def WordOrder.compare (order : WordOrder) (a b : Fact) : Ordering :=
  let a := a.word.toInt
  let b := b.word.toInt
  match order with
  | natural => Ord.compare a b
  | reversed => Ord.compare b a
  | distance => Ord.compare a.natAbs b.natAbs
  | lastDigit => Ord.compare (a % 10) (b % 10)
  | indifferent => .eq

/-- Facts that are words or texts in their natural order. -/
def naturalOrder : Fact → Fact → Ordering
  | .scalar a, .scalar b => Fact.orderScalars a b
  | a, b => a.order b

end ConstraintStreams
