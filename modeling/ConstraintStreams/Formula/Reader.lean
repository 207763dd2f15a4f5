import ConstraintStreams.Form
import ConstraintStreams.Formula.Basic

/-!
# Reading formulas

A formula is written as a literal, or as a list of the name of an operation and its operands. The
types of entities that it may mention are given to the reader. A position is a literal number, and an
attribute is written as the label of a type and a name with a dot between them.
-/

namespace ConstraintStreams

/-- The comparisons by name. -/
def Comparison.names : List (String × Comparison) :=
  [("eq", eq), ("ne", ne), ("lt", lt), ("le", le), ("gt", gt), ("ge", ge)]

/-- The operations on words by name. -/
def WordOperation.names : List (String × WordOperation) :=
  [("add", add), ("sub", sub), ("mul", mul), ("mod", mod)]

/-- The error that a formula raises under a name. -/
def Error.raised (name message : String) : Error :=
  match name with
  | "FactNotFound" => .factNotFound message 0
  | "DuplicateFact" => .duplicateFact message 0
  | "InvalidIndex" => .invalidIndex (.described message)
  | "Overflow" => .overflow (.described message)
  | _ => .other message

namespace Formula

/-- The formula that reads an entity: `label.id` or `label.name`. -/
def readEntity? (types : List EntityType) (op : String) (i : Nat) : Option Formula :=
  match op.splitOn "." with
  | [label, name] => do
    let type ← types.find? fun t => t.label = label
    if name = "id" then pure (.entityId type i)
    else if (type.blank.lookup name).isSome then pure (.attr type name i)
    else none
  | _ => none

/-- The formula of an operation that reads the fact at a position. -/
def readFact? (types : List EntityType) (op : String) (i : Nat) : Option Formula :=
  match op with
  | "len" => some (.listLength i)
  | "ints" => some (.listInts i)
  | "fid" => some (.factId i)
  | _ => ((ScalarType.ofLabel? op).map fun type => .scalar type i) <|> readEntity? types op i

/-- The formula of an operation on two formulas. -/
def binary? (op : String) (a b : Formula) : Option Formula :=
  match op with
  | "and" => some (.and a b)
  | "or" => some (.or a b)
  | _ =>
    ((Comparison.names.lookup op).map fun c => .comparison c a b)
      <|> (WordOperation.names.lookup op).map fun w => .word w a b

/-- The formula of an operation with its operands. -/
def operation? (op : String) (operands : List Formula) : Option Formula :=
  match op, operands with
  | "list", es => some (.list es)
  | "arity", [] => some .arity
  | "fail", [.literal (.text name), .literal (.text message)] =>
    some (.fail (Error.raised name message))
  | "r", [e] => some (.right e)
  | "size", [e] => some (.size e)
  | "not", [e] => some (.not e)
  | "if", [c, a, b] => some (.cond c a b)
  | op, [a, b] => binary? op a b
  | _, _ => none

/-- The formula of an operation on the fact at a position. -/
def positional? (types : List EntityType) (op : String) : List Form → Option Formula
  | [.int i] => readFact? types op i.toNat
  | [.int i, .int factor] =>
    if op = "f64" then some (.scaled i.toNat (Int64.ofInt factor)) else none
  | _ => none

mutual
/-- Reads a formula. -/
def ofForm? (types : List EntityType) : Form → Option Formula
  | .list (.text op :: operands) =>
    positional? types op operands <|> do operation? op (← ofForms? types operands)
  | .list _ => none
  | form => form.value?.map .literal
/-- Reads several formulas. -/
def ofForms? (types : List EntityType) : List Form → Option (List Formula)
  | [] => some []
  | e :: es => do
    let e ← ofForm? types e
    let es ← ofForms? types es
    pure (e :: es)
end

end Formula

/-- The target with a name: the label of a scalar type or of one of the given entity types. -/
def Target.ofName? (types : List EntityType) (name : String) : Option Target :=
  ((ScalarType.ofLabel? name).map .scalar)
    <|> (types.find? fun t => t.label = name).map .entity

/-- Reads a formula for a fact. `new` and the label of a type stand for a new entity, whose id and
first attributes follow. -/
def FactFormula.ofForm? (types : List EntityType) (form : Form) : Option FactFormula :=
  match form with
  | .list [.text "fact", .int i] => some (.fact i.toNat)
  | .list [.text "last"] => some .last
  | .list [.text "as", .text name, e] => do
    pure (.convert (← Target.ofName? types name) (← Formula.ofForm? types e))
  | .list (.text op :: id :: attributes) =>
    match types.find? fun t => op = "new" ++ t.label with
    | some type => do
      let id ← Formula.ofForm? types id
      let attributes ← Formula.ofForms? types attributes
      pure (.entity type id ((type.blank.map Prod.fst).zip attributes))
    | none => (Formula.ofForm? types form).map .value
  | _ => (Formula.ofForm? types form).map .value

/-- Reads a formula for several facts. -/
def ItemsFormula.ofForm? (types : List EntityType) (form : Form) : Option ItemsFormula :=
  match form with
  | .list [.text "items"] => some .items
  | .list (.text "facts" :: es) => (es.mapM (FactFormula.ofForm? types)).map .facts
  | _ => (Formula.ofForm? types form).map .ints

end ConstraintStreams
