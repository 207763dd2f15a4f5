import ConstraintStreams.Fact.Value

/-!
# Written trees

Facts and formulas can be written down as trees of words, texts and lists. `Form` is such a tree;
what it means is up to the reader that is asked.
-/

namespace ConstraintStreams

/-- A written tree. -/
inductive Form
  | none
  | bool (b : Bool)
  | int (n : Int)
  | text (s : String)
  | list (items : List Form)

namespace Form

/-- The word that a form is; integers outside the range of words wrap around. -/
def word? : Form → Option Int64
  | int n => some (Int64.ofInt n)
  | _ => Option.none

/-- The attribute value that a form is; of lists, only those of words are values. -/
def value? : Form → Option Value
  | none => some .none
  | bool b => some (.bool b)
  | int n => some (.int (Int64.ofInt n))
  | text s => some (.text s)
  | list items => (items.mapM word?).map .ints

end Form

end ConstraintStreams
