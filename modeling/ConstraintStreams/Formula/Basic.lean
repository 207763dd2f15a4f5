import ConstraintStreams.Tuple.Basic

/-!
# Formulas

A small language for the functions that a graph needs: predicates, keys, weights, mappers. A formula
is evaluated over the facts of a tuple, or of a left and a right tuple, and gives a value. Operands
are evaluated from left to right, each being checked for its kind before the next is looked at;
arithmetic on words wraps around.
-/

namespace ConstraintStreams

/-- Comparisons of values. -/
inductive Comparison
  | eq
  | ne
  | lt
  | le
  | gt
  | ge
  deriving DecidableEq

/-- Whether a comparison holds, given how the left value compares with the right. -/
def Comparison.holds : Comparison → Ordering → Bool
  | eq, o => o.isEq
  | ne, o => o.isNe
  | lt, o => o.isLT
  | le, o => o.isLE
  | gt, o => o.isGT
  | ge, o => o.isGE

/-- Operations on words. -/
inductive WordOperation
  | add
  | sub
  | mul
  | mod
  deriving DecidableEq

/-- The result of an operation on words; the remainder is never negative. -/
def WordOperation.apply : WordOperation → Int64 → Int64 → Except Error Int64
  | add, a, b => .ok (a + b)
  | sub, a, b => .ok (a - b)
  | mul, a, b => .ok (a * b)
  | mod, a, b =>
    if b = 0 then .error (.other "mod by zero") else .ok (Int64.ofInt (a.toInt % b.toInt))

/-- A formula over the facts of a tuple. -/
inductive Formula
  | literal (v : Value)
  /-- An attribute of the entity at a position. -/
  | attr (type : EntityType) (name : String) (i : Nat)
  /-- The id of the entity at a position. -/
  | entityId (type : EntityType) (i : Nat)
  /-- The scalar at a position. -/
  | scalar (type : ScalarType) (i : Nat)
  /-- The float at a position times a factor, cut to a word. -/
  | scaled (i : Nat) (factor : Int64)
  /-- The length of the list at a position. -/
  | listLength (i : Nat)
  /-- The words in the list at a position. -/
  | listInts (i : Nat)
  /-- The id of the fact at a position. -/
  | factId (i : Nat)
  /-- The number of facts. -/
  | arity
  /-- A formula over the right tuple. -/
  | right (e : Formula)
  | list (es : List Formula)
  | size (e : Formula)
  | word (op : WordOperation) (a b : Formula)
  | comparison (op : Comparison) (a b : Formula)
  | and (a b : Formula)
  | or (a b : Formula)
  | not (a : Formula)
  | cond (c a b : Formula)
  | fail (e : Error)

namespace Value

/-- The word that a value has to be. -/
def asInt : Value → Except Error Int64
  | int n => .ok n
  | v => .error (.typeMismatch "int" v.kindName)

/-- The truth value that a value has to be. -/
def asBool : Value → Except Error Bool
  | bool b => .ok b
  | v => .error (.typeMismatch "bool" v.kindName)

/-- The text that a value has to be. -/
def asText : Value → Except Error String
  | text s => .ok s
  | v => .error (.typeMismatch "str" v.kindName)

/-- The list that a value has to be. -/
def asInts : Value → Except Error (List Int64)
  | ints ns => .ok ns
  | v => .error (.typeMismatch "list" v.kindName)

end Value

/-- A scalar as a value of a formula: numbers as words, a character as its code. -/
def Scalar.value : Scalar → Value
  | .int64 n => .int n
  | .int32 n => .int n.toInt64
  | .uint32 n => .int n.toUInt64.toInt64
  | .uint64 n | .size n | .float n => .int n.toInt64
  | .bool b => .bool b
  | .char c => .int c.val.toUInt64.toInt64
  | .string s | .literal s => .text s

/-- A float given by its bits, times a factor, cut to a word: toward zero, at most the greatest and
at least the least word, and zero for what is not a number. -/
def scaleFloat (bits : UInt64) (factor : Int64) : Int64 :=
  (Float.ofBits bits * factor.toFloat).toInt64

namespace Facts

/-- The entity of a type at a position. -/
def entityAt? (facts : Facts) (type : EntityType) (i : Nat) : Except Error Entity := do
  match ← facts.typedAt? (.entity type) i with
  | .entity e => pure e
  | a => throw (.typeMismatch type.name a.type.name)

/-- The scalar of a type at a position. -/
def scalarAt? (facts : Facts) (type : ScalarType) (i : Nat) : Except Error Scalar := do
  match ← facts.typedAt? (.scalar type) i with
  | .scalar s => pure s
  | a => throw (.typeMismatch type.name a.type.name)

/-- The items of the list at a position. -/
def listAt? (facts : Facts) (i : Nat) : Except Error (List Fact) :=
  return (← facts.typedAt? .list i).items

end Facts

/-- The words among some facts. -/
def wordsOf (facts : List Fact) : List Int64 :=
  facts.filterMap fun | .scalar (.int64 n) => some n | _ => none

namespace Formula

mutual
/-- The value of a formula over a left tuple and, where there is one, a right tuple. -/
def eval (left : Facts) (right? : Option Facts) : Formula → Except Error Value
  | literal v => .ok v
  | attr type name i => return (← left.entityAt? type i).read name
  | entityId type i => return .int (← left.entityAt? type i).id
  | scalar type i => return (← left.scalarAt? type i).value
  | scaled i factor => do
    match ← left.scalarAt? .float i with
    | .float bits => return .int (scaleFloat bits factor)
    | s => throw (.typeMismatch ScalarType.float.name s.type.name)
  | listLength i => return .int (Int64.ofNat (← left.listAt? i).length)
  | listInts i => return .ints (wordsOf (← left.listAt? i))
  | factId i => return .int (← left.at? i).id.toNumber
  | arity => return .int (Int64.ofNat left.length)
  | right e =>
    match right? with
    | some facts => eval facts (some facts) e
    | none => throw (.other "no right tuple")
  | list es => return .ints (← evalInts left right? es)
  | size e => return .int (Int64.ofNat (← (← eval left right? e).asInts).length)
  | word op a b => do
    let x ← (← eval left right? a).asInt
    let y ← (← eval left right? b).asInt
    return .int (← op.apply x y)
  | comparison op a b => do
    let x ← eval left right? a
    let y ← eval left right? b
    return .bool (op.holds (x.order y))
  | and a b => do
    if ← (← eval left right? a).asBool then
      return .bool (← (← eval left right? b).asBool)
    else return .bool false
  | or a b => do
    if ← (← eval left right? a).asBool then return .bool true
    else return .bool (← (← eval left right? b).asBool)
  | not a => return .bool (!(← (← eval left right? a).asBool))
  | cond c a b => do
    if ← (← eval left right? c).asBool then eval left right? a else eval left right? b
  | fail e => throw e
/-- The words that several formulas give. -/
def evalInts (left : Facts) (right? : Option Facts) : List Formula → Except Error (List Int64)
  | [] => .ok []
  | e :: es => do
    let n ← (← eval left right? e).asInt
    return n :: (← evalInts left right? es)
end

/-- The word that a formula gives. -/
def evalInt (e : Formula) (facts : Facts) : Except Error Int64 := do (← e.eval facts none).asInt

/-- The truth value that a formula gives. -/
def evalBool (e : Formula) (facts : Facts) : Except Error Bool := do (← e.eval facts none).asBool

/-- The text that a formula gives. -/
def evalText (e : Formula) (facts : Facts) : Except Error String := do (← e.eval facts none).asText

/-- The list of words that a formula gives. -/
def evalList (e : Formula) (facts : Facts) : Except Error (List Int64) := do
  (← e.eval facts none).asInts

/-- The truth value that a formula gives for a pair of tuples. -/
def evalPair (e : Formula) (left right : Facts) : Except Error Bool := do
  (← e.eval left (some right)).asBool

end Formula

/-! ## Formulas for facts -/

/-- The types that a value can be turned into. -/
inductive Target
  | scalar (type : ScalarType)
  /-- An entity with the value as its id and all attributes blank. -/
  | entity (type : EntityType)

/-- A formula that gives a fact. -/
inductive FactFormula
  /-- The fact at a position. -/
  | fact (i : Nat)
  /-- The last fact. -/
  | last
  /-- A value turned into a type. -/
  | convert (target : Target) (e : Formula)
  /-- A new entity with some attributes set to words. -/
  | entity (type : EntityType) (id : Formula) (attributes : List (String × Formula))
  /-- A value as the fact of its kind. -/
  | value (e : Formula)

/-- A formula that gives several facts for one. -/
inductive ItemsFormula
  | facts (es : List FactFormula)
  /-- The items of the fact, which has to be a list. -/
  | items
  /-- The words of a list. -/
  | ints (e : Formula)

/-- A word as a fact of a scalar type: cut to its width, or read as a code. -/
def ScalarType.ofInt : ScalarType → Int64 → Fact
  | .int32, n => .scalar (.int32 n.toInt32)
  | .uint32, n => .scalar (.uint32 n.toUInt64.toUInt32)
  | .uint64, n => .scalar (.uint64 n.toUInt64)
  | .size, n => .scalar (.size n.toUInt64)
  | .char, n =>
    let code := n.toUInt64.toUInt32
    .scalar (.char (if h : code.isValidChar then ⟨code, h⟩ else '?'))
  | .float, n => .scalar (.float n.toFloat.toBits)
  | _, n => .int64 n

/-- A value as the fact of its kind. -/
def Value.toFact : Value → Except Error Fact
  | .none => .error (.typeMismatch "fact" "none")
  | .bool b => .ok (.scalar (.bool b))
  | .int n => .ok (.int64 n)
  | .text s => .ok (.scalar (.string s))
  | .ints ns => .ok (.list (ns.map Fact.int64))

/-- Turns a value into a fact of a given type. -/
def Target.convert (v : Value) : Target → Except Error Fact
  | scalar .bool => return .scalar (.bool (← v.asBool))
  | scalar .string => return .scalar (.string (← v.asText))
  | scalar .literal => return .scalar (.literal (← v.asText))
  | scalar type => return type.ofInt (← v.asInt)
  | entity type => return .entity (.build type (← v.asInt) [])

namespace FactFormula

/-- The fact that a formula gives. -/
def eval (facts : Facts) : FactFormula → Except Error Fact
  | fact i => facts.at? i
  | last => facts.last?
  | convert target e => do target.convert (← e.eval facts none)
  | entity type id attributes => do
    let id ← id.evalInt facts
    let attributes ← attributes.mapM fun (name, e) => return (name, Value.int (← e.evalInt facts))
    return .entity (.build type id attributes)
  | value e => do (← e.eval facts none).toFact

end FactFormula

/-- The facts that a formula gives for one. -/
def ItemsFormula.eval (a : Fact) : ItemsFormula → Except Error (List Fact)
  | facts es => es.mapM (FactFormula.eval [a])
  | items => Facts.listAt? [a] 0
  | ints e => return (← e.evalList [a]).map Fact.int64

end ConstraintStreams
