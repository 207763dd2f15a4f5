import ConstraintStreams.Fact.Value

/-!
# Facts

A fact is an entity of the user's domain, a scalar, or a list of facts. Two questions are asked of
a pair of facts. *Content*: are they exactly the same? That is equality of `Fact`, for every
entity carries the number of its version. *Identity*: do they stand for the same thing? Two
versions of one entity do, and values stand for themselves. `Fact.identity` forgets everything
but identity, and `Fact.Same` compares what is left.

Sessions find facts by `Fact.key`, the type and the id. A text or a list has no number, so its id
is the digest of its identity; digests are compared, and ordered, by what they digest.
-/

namespace ConstraintStreams

/-- A type of entities: its qualified name, its short label and the attributes of a blank one. -/
structure EntityType where
  name : String
  label : String
  blank : List (String × Value)
  deriving DecidableEq

/-- Tells versions of entities apart. A version given by the caller and one numbered by the
network never coincide; a `fresh` one has just been built and is not numbered yet. -/
inductive Version
  | fresh
  | given (n : Nat)
  | numbered (n : Nat)
  deriving DecidableEq

/-- One version of an object of the user's domain. -/
structure Entity where
  type : EntityType
  id : Int64
  version : Version
  attributes : List (String × Value)
  deriving DecidableEq

namespace Entity

/-- A new entity with some attributes set and all others blank. -/
def build (type : EntityType) (id : Int64) (changes : List (String × Value)) : Entity where
  type := type
  id := id
  version := .fresh
  attributes := type.blank.map fun (name, value) => (name, (changes.lookup name).getD value)

/-- The value of an attribute; an attribute that the type lacks is nothing. -/
def read (e : Entity) (name : String) : Value := (e.attributes.lookup name).getD .none

/-- The entity as text: its label and id, then its attributes. -/
def text (e : Entity) : String :=
  e.type.label ++ "#" ++ toString e.id ++ "("
    ++ ",".intercalate (e.attributes.map fun a => a.2.write) ++ ")"

end Entity

/-- A plain value of one of the built-in types. A float is its bit pattern, so that a value that
is not a number is still equal to itself and the two zeros differ. -/
inductive Scalar
  | int64 (n : Int64)
  | int32 (n : Int32)
  | uint32 (n : UInt32)
  | uint64 (n : UInt64)
  | size (n : UInt64)
  | bool (b : Bool)
  | char (c : Char)
  | float (bits : UInt64)
  | string (s : String)
  | literal (s : String)
  deriving DecidableEq

/-- The type of a scalar. -/
inductive ScalarType
  | int64
  | int32
  | uint32
  | uint64
  | size
  | bool
  | char
  | float
  | string
  | literal
  deriving DecidableEq

/-- The short label of a scalar type. -/
def ScalarType.label : ScalarType → String
  | .int64 => "i64"
  | .int32 => "i32"
  | .uint32 => "u32"
  | .uint64 => "u64"
  | .size => "usize"
  | .bool => "bool"
  | .char => "char"
  | .float => "f64"
  | .string => "String"
  | .literal => "str"

/-- All scalar types. -/
def ScalarType.all : List ScalarType :=
  [.int64, .int32, .uint32, .uint64, .size, .bool, .char, .float, .string, .literal]

/-- The scalar type with a label. -/
def ScalarType.ofLabel? (label : String) : Option ScalarType := all.find? fun t => t.label = label

/-- The qualified name of a scalar type. -/
def ScalarType.name : ScalarType → String
  | .string => "alloc::string::String"
  | .literal => "&str"
  | type => type.label

def Scalar.type : Scalar → ScalarType
  | .int64 _ => .int64
  | .int32 _ => .int32
  | .uint32 _ => .uint32
  | .uint64 _ => .uint64
  | .size _ => .size
  | .bool _ => .bool
  | .char _ => .char
  | .float _ => .float
  | .string _ => .string
  | .literal _ => .literal

/-- A fact: an entity, a scalar, or a list of facts. -/
inductive Fact
  | entity (e : Entity)
  | scalar (s : Scalar)
  | list (items : List Fact)

/-- The type of a fact. -/
inductive FactType
  | entity (type : EntityType)
  | scalar (type : ScalarType)
  | list
  deriving DecidableEq

/-- The qualified name of a type, as messages show it. -/
def FactType.name : FactType → String
  | .entity type => type.name
  | .scalar type => type.name
  | .list => "greystream::fact_impls::FactList"

namespace Fact

mutual
/-- Decides equality of facts. -/
def decEq : (a b : Fact) → Decidable (a = b)
  | entity a, entity b => decidable_of_iff (a = b) (by simp)
  | scalar a, scalar b => decidable_of_iff (a = b) (by simp)
  | list a, list b => @decidable_of_iff _ (a = b) (by simp) (decEqItems a b)
  | entity _, scalar _ | entity _, list _ | scalar _, entity _ | scalar _, list _
  | list _, entity _ | list _, scalar _ => isFalse nofun
/-- Decides equality of lists of facts. -/
def decEqItems : (as bs : List Fact) → Decidable (as = bs)
  | [], [] => isTrue rfl
  | [], _ :: _ => isFalse nofun
  | _ :: _, [] => isFalse nofun
  | a :: as, b :: bs =>
    match decEq a b, decEqItems as bs with
    | isTrue h, isTrue hs => isTrue (by rw [h, hs])
    | isFalse h, _ => isFalse fun e => h (List.cons.inj e).1
    | _, isFalse hs => isFalse fun e => hs (List.cons.inj e).2
end

instance : DecidableEq Fact := decEq

/-- A word as a fact. -/
abbrev int64 (n : Int64) : Fact := scalar (.int64 n)

/-- A number of things as a fact. -/
abbrev size (n : Nat) : Fact := scalar (.size (UInt64.ofNat n))

def type : Fact → FactType
  | entity e => .entity e.type
  | scalar s => .scalar s.type
  | list _ => .list

/-- The items of a list; any other fact has none. -/
def items : Fact → List Fact
  | list items => items
  | _ => []

mutual
/-- What a fact stands for: an entity of its type and id, whatever its version and attributes; a
scalar for itself; a list for what its items stand for. -/
def identity : Fact → Fact
  | entity e => entity { e with version := .fresh, attributes := [] }
  | scalar s => scalar s
  | list items => list (identities items)
/-- What the facts of a list stand for. -/
def identities : List Fact → List Fact
  | [] => []
  | a :: as => identity a :: identities as
end

/-- Two facts stand for the same thing. -/
def Same (a b : Fact) : Prop := a.identity = b.identity

instance (a b : Fact) : Decidable (a.Same b) := inferInstanceAs (Decidable (_ = _))

theorem identities_eq_map (as : List Fact) : identities as = as.map identity := by
  induction as with
  | nil => rfl
  | cons a as ih => simp [identities, ih]

mutual
/-- What hashing sees of an identity: a float is seen as the word of its bits. -/
def blur : Fact → Fact
  | scalar (.float bits) => scalar (.uint64 bits)
  | list items => list (blurItems items)
  | a => a
/-- What hashing sees of a list of identities. -/
def blurItems : List Fact → List Fact
  | [] => []
  | a :: as => blur a :: blurItems as
end

/-- The digest of a fact, equal for any two facts that stand for the same thing. -/
def digest (a : Fact) : Fact := a.identity.blur

/-- The id of a fact within its type: a word, or the digest of a fact without a number. -/
inductive Id
  | number (n : Int64)
  | digest (d : Fact)
  deriving DecidableEq

/-- The id of a scalar: its number or code, or its digest when it is a text. -/
def scalarId : Scalar → Id
  | .int64 n => .number n
  | .int32 n => .number n.toInt64
  | .uint32 n => .number n.toUInt64.toInt64
  | .uint64 n => .number n.toInt64
  | .size n => .number n.toInt64
  | .bool b => .number (if b then 1 else 0)
  | .char c => .number c.val.toUInt64.toInt64
  | .float bits => .number bits.toInt64
  | .string s => .digest (scalar (.string s))
  | .literal s => .digest (scalar (.literal s))

/-- The id of a fact within its type. -/
def id : Fact → Id
  | entity e => .number e.id
  | scalar s => scalarId s
  | list items => .digest (digest (list items))

/-- The number of an id. A digest has none of its own and counts as zero. -/
def Id.toNumber : Id → Int64
  | .number n => n
  | .digest _ => 0

/-- Scalars in order: by type, then by content. -/
def orderScalars : Scalar → Scalar → Ordering
  | .int64 a, .int64 b => compareOfLessAndEq a b
  | .int32 a, .int32 b => compareOfLessAndEq a b
  | .uint32 a, .uint32 b => compareOfLessAndEq a b
  | .uint64 a, .uint64 b | .size a, .size b | .float a, .float b => compareOfLessAndEq a b
  | .bool a, .bool b => compare a b
  | .char a, .char b => compareOfLessAndEq a b
  | .string a, .string b | .literal a, .literal b => compareOfLessAndEq a b
  | a, b => compare a.type.ctorIdx b.type.ctorIdx

mutual
/-- Facts in order of what digests see of them: entities by type and id, then scalars, then
lists item by item. -/
def order : Fact → Fact → Ordering
  | entity a, entity b => (compareOfLessAndEq a.type.name b.type.name).then (compareOfLessAndEq a.id b.id)
  | entity _, _ => .lt
  | scalar _, entity _ => .gt
  | scalar a, scalar b => orderScalars a b
  | scalar _, list _ => .lt
  | list as, list bs => orderItems as bs
  | list _, _ => .gt
/-- Lists of facts in lexicographic order. -/
def orderItems : List Fact → List Fact → Ordering
  | [], [] => .eq
  | [], _ :: _ => .lt
  | _ :: _, [] => .gt
  | a :: as, b :: bs => (order a b).then (orderItems as bs)
end

/-- Ids in order: numbers as integers, then digests. -/
def Id.order : Id → Id → Ordering
  | .number a, .number b => compareOfLessAndEq a b
  | .number _, .digest _ => .lt
  | .digest _, .number _ => .gt
  | .digest a, .digest b => a.order b

/-- What a session knows a fact by. -/
structure Key where
  type : FactType
  id : Id
  deriving DecidableEq

/-- The key of a fact: its type and its id. -/
def key (a : Fact) : Key := ⟨a.type, a.id⟩

mutual
/-- Numbers the fresh entities of a fact from a given number on; answers the next free number. -/
def numberFrom (n : Nat) : Fact → Fact × Nat
  | entity e =>
    match e.version with
    | .fresh => (entity { e with version := .numbered n }, n + 1)
    | _ => (entity e, n)
  | scalar s => (scalar s, n)
  | list items =>
    let (items, n) := numberItemsFrom n items
    (list items, n)
/-- Numbers the fresh entities of several facts. -/
def numberItemsFrom (n : Nat) : List Fact → List Fact × Nat
  | [] => ([], n)
  | a :: as =>
    let (a, n) := numberFrom n a
    let (as, n) := numberItemsFrom n as
    (a :: as, n)
end

/-- A fact taken in as a plain value. An entity has no version then, for it is boxed anew wherever it
is handed out; a list keeps its items, and those that are fresh are numbered from a number on. -/
def unboxFrom (n : Nat) : Fact → Fact × Nat
  | entity e => (entity { e with version := .fresh }, n)
  | a => a.numberFrom n

end Fact

end ConstraintStreams
