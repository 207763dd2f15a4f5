import ConstraintStreams.Quoted.Hidden

/-!
# Quoted text

Texts and characters as reports show them, between quotes. The quote itself, the backslash and
hidden characters are escaped, so that a quoted text is one line and ends where its quote does.
-/

namespace ConstraintStreams

/-- A character inside quotes. -/
def escape (quote c : Char) : String :=
  if c = quote ∨ c = '\\' then "\\" ++ c.toString
  else if c = '\n' then "\\n"
  else if c = '\r' then "\\r"
  else if c = '\t' then "\\t"
  else if c.toNat = 0 then "\\0"
  else if isHidden c then
    "\\u\x7b" ++ String.ofList (Nat.toDigits 16 c.toNat) ++ "\x7d"
  else c.toString

/-- A text between quotes. -/
def quoted (quote : Char) (s : String) : String :=
  quote.toString ++ String.join (s.toList.map (escape quote)) ++ quote.toString

end ConstraintStreams
