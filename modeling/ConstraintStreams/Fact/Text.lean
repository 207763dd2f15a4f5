import ConstraintStreams.Fact.Basic
import ConstraintStreams.Decimal.Notation
import ConstraintStreams.Hexadecimal
import ConstraintStreams.Quoted

/-!
# Facts as text

Two written forms of a fact. `Fact.text` names the type of every scalar and shows a float by the
digits of its bits, so that nothing is lost. `Fact.describe` is the form that reports use: plain
numbers, quoted texts.
-/

namespace ConstraintStreams

/-- A scalar without its type. -/
def Scalar.write : Scalar → String
  | .int64 n => toString n
  | .int32 n => toString n
  | .uint32 n => toString n
  | .uint64 n | .size n => toString n
  | .bool b => toString b
  | .char c => c.toString
  | .float bits => hexDigits bits
  | .string s | .literal s => s

/-- A scalar with the label of its type. -/
def Scalar.text (s : Scalar) : String := s.type.label ++ ":" ++ s.write

/-- A scalar as reports show it: characters and texts between quotes, floats in decimal. -/
def Scalar.describe : Scalar → String
  | .float bits => floatText bits
  | .char c => quoted '\x27' c.toString
  | .string s | .literal s => quoted '"' s
  | s => s.write

namespace Fact

mutual
/-- A fact with the types of its scalars. -/
def text : Fact → String
  | entity e => e.text
  | scalar s => s.text
  | list items => "list[" ++ ",".intercalate (texts items) ++ "]"
/-- Several facts with the types of their scalars. -/
def texts : List Fact → List String
  | [] => []
  | a :: as => text a :: texts as
end

mutual
/-- A fact as reports show it. -/
def describe : Fact → String
  | entity e => e.text
  | scalar s => s.describe
  | list items => "FactList([" ++ ", ".intercalate (descriptions items) ++ "])"
/-- Several facts as reports show them. -/
def descriptions : List Fact → List String
  | [] => []
  | a :: as => describe a :: descriptions as
end

end Fact

end ConstraintStreams
