/-!
# Attribute values

The values that attributes of entities hold and that formulas compute: nothing, a truth value, a
64-bit word, a text or a list of words. They are ordered by kind first (`Value.rank`) and within
a kind by their content.
-/

namespace ConstraintStreams

/-- A value of an attribute or of a formula. -/
inductive Value
  | none
  | bool (b : Bool)
  | int (n : Int64)
  | text (s : String)
  | ints (ns : List Int64)
  deriving DecidableEq

namespace Value

/-- The name of the kind of a value. -/
def kindName : Value → String
  | none => "none"
  | bool _ => "bool"
  | int _ => "int"
  | text _ => "str"
  | ints _ => "list"

/-- The place of a kind in the order of values. -/
def rank : Value → Nat
  | none => 0
  | bool _ => 1
  | int _ => 2
  | text _ => 3
  | ints _ => 4

/-- Words compare as integers. -/
def compareInts (a b : Int64) : Ordering := compareOfLessAndEq a b

/-- Texts compare character by character, a proper beginning being smaller. -/
def compareTexts (a b : String) : Ordering := compareOfLessAndEq a b

/-- Values compare by kind, then by content; lists compare lexicographically. -/
def order : Value → Value → Ordering
  | bool a, bool b => compare a b
  | int a, int b => compareInts a b
  | text a, text b => compareTexts a b
  | ints a, ints b => compareOfLessAndEq a b
  | a, b => compare a.rank b.rank

/-- A value inside an entity's text: nothing is a dash, a list stands in brackets. -/
def write : Value → String
  | none => "-"
  | bool b => toString b
  | int n => toString n
  | text s => s
  | ints ns => "[" ++ " ".intercalate (ns.map toString) ++ "]"

end Value

end ConstraintStreams
