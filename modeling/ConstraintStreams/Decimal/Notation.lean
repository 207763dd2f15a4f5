import ConstraintStreams.Decimal.Shortest

/-!
# Floats as text

A float is written with the fewest digits that read back as the same float. A number from `10 ^ (-4)`
and below `10 ^ 16` is written out, with at least one digit on each side of the point; other numbers
have one digit before the point and an exponent, without a point if there is no further digit.
-/

namespace ConstraintStreams

namespace Decimal

/-- The digits written out around a point, of which the first stands for `10 ^ exponent`. -/
def writePlain (ds : List Char) (exponent : Int) : List Char :=
  if exponent < 0 then
    '0' :: '.' :: List.replicate (-exponent - 1).toNat '0' ++ ds
  else
    let places := exponent.toNat + 1
    if ds.length ≤ places then ds ++ List.replicate (places - ds.length) '0' ++ ['.', '0']
    else ds.take places ++ '.' :: ds.drop places

/-- The digits with a point after the first and an exponent. -/
def writeScientific (ds : List Char) (exponent : Int) : List Char :=
  let point := if ds.length ≤ 1 then [] else ['.']
  ds.take 1 ++ point ++ ds.drop 1 ++ 'e' :: (toString exponent).toList

/-- A decimal, written out unless it is very large or very small. -/
def write (d : Decimal) : String :=
  let exponent := d.leadingExponent
  if -4 ≤ exponent ∧ exponent < 16 then String.ofList (writePlain d.numerals exponent)
  else String.ofList (writeScientific d.numerals exponent)

end Decimal

/-- The text of a float given by its bits, without the sign. Eleven bits hold the exponent, and
fifty-two the fraction, which has a leading one in front of it unless the exponent is zero. -/
def magnitudeText (bits : UInt64) : String :=
  let exponent := (bits.toNat >>> 52) % 0x800
  let fraction := bits.toNat % 0x10000000000000
  if exponent = 0x7ff then if fraction = 0 then "inf" else "NaN"
  else if exponent = 0 then
    if fraction = 0 then Decimal.write ⟨0, 0⟩
    else (Rounding.ofParts fraction (-1074) false).shortest.write
  else
    (Rounding.ofParts (0x10000000000000 + fraction) (exponent - 1075)
      (fraction = 0 ∧ 1 < exponent)).shortest.write

/-- The text of a float given by its bits. A float that is not a number has no sign. -/
def floatText (bits : UInt64) : String :=
  let magnitude := magnitudeText bits
  if 0x8000000000000000 ≤ bits.toNat ∧ magnitude ≠ "NaN" then "-" ++ magnitude else magnitude

end ConstraintStreams
