import ConstraintStreams.Fact.Basic
import ConstraintStreams.Form
import ConstraintStreams.Hexadecimal

/-!
# Reading facts

Scalars are written as words, truth values and texts; a float is written as the hexadecimal digits of
its bits, so that every one of them has a written form.
-/

namespace ConstraintStreams

/-- The scalar of a type that a form is. -/
def Scalar.ofForm? : ScalarType → Form → Option Scalar
  | .int64, .int n => some (.int64 (Int64.ofInt n))
  | .int32, .int n => some (.int32 (Int32.ofInt n))
  | .uint32, .int n => some (.uint32 (UInt32.ofInt n))
  | .uint64, .int n => some (.uint64 (UInt64.ofInt n))
  | .size, .int n => some (.size (UInt64.ofInt n))
  | .bool, .bool b => some (.bool b)
  | .char, .text s => s.toList.head?.map .char
  | .float, .text s => (ofHexDigits? s).map .float
  | .string, .text s => some (.string s)
  | .literal, .text s => some (.literal s)
  | _, _ => none

/-- The entity of a type with an id and with the attributes that are written; those written as
nothing stay blank. -/
def Entity.ofForms (type : EntityType) (id : Int64) (attributes : List (String × Form)) : Entity :=
  Entity.build type id <| attributes.filterMap fun (name, form) =>
    match form with
    | .none => none
    | form => form.value?.map fun v => (name, v)

end ConstraintStreams
