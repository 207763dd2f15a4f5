/-!
# Hexadecimal digits

Words written with sixteen hexadecimal digits, and digits read back.
-/

namespace ConstraintStreams

/-- The sixteen hexadecimal digits of a word, most significant first. -/
def hexDigits (bits : UInt64) : String :=
  String.ofList ((List.range 16).map fun i =>
    Nat.digitChar (bits.toNat >>> (4 * (15 - i)) % 16))

/-- The value of a hexadecimal digit. -/
def hexValue? (c : Char) : Option Nat :=
  if c.isDigit then some (c.toNat - 48)
  else if 'a' ≤ c ∧ c ≤ 'f' then some (c.toNat - 87)
  else if 'A' ≤ c ∧ c ≤ 'F' then some (c.toNat - 55)
  else none

/-- The word with the given hexadecimal digits. -/
def ofHexDigits? (s : String) : Option UInt64 := do
  let digits ← s.toList.mapM hexValue?
  pure (UInt64.ofNat (digits.foldl (fun n d => 16 * n + d) 0))

end ConstraintStreams
