/-!
# Decimal and binary numbers

Two exact forms of a number that is not negative: `digits · 10 ^ scale` and
`significand · 2 ^ scale`. One is compared with the other without dividing, since the powers with a
negative scale are moved to the other side.
-/

namespace ConstraintStreams

/-- The number `digits · 10 ^ scale`. -/
structure Decimal where
  digits : Nat
  scale : Int
  deriving DecidableEq

/-- The number `significand · 2 ^ scale`. -/
structure Binary where
  significand : Nat
  scale : Int
  deriving DecidableEq

/-- Twice a number. -/
def Binary.double (x : Binary) : Binary := ⟨x.significand, x.scale + 1⟩

/-- How many of the units `10 ^ scale` fit into a number. -/
def Binary.floorAt (x : Binary) (scale : Int) : Nat :=
  x.significand * Nat.pow 2 x.scale.toNat * Nat.pow 10 (-scale).toNat
    / (Nat.pow 2 (-x.scale).toNat * Nat.pow 10 scale.toNat)

namespace Decimal

/-- A decimal and a binary number, both times the same positive number that makes them whole. -/
def whole (d : Decimal) (x : Binary) : Nat × Nat :=
  (d.digits * Nat.pow 10 d.scale.toNat * Nat.pow 2 (-x.scale).toNat,
    x.significand * Nat.pow 2 x.scale.toNat * Nat.pow 10 (-d.scale).toNat)

/-- The decimal is less than the binary number. -/
def isBelow (d : Decimal) (x : Binary) : Bool := (d.whole x).1 < (d.whole x).2

/-- The decimal is greater than the binary number. -/
def isAbove (d : Decimal) (x : Binary) : Bool := (d.whole x).2 < (d.whole x).1

/-- The written digits, most significant first. -/
def numerals (d : Decimal) : List Char := Nat.toDigits 10 d.digits

/-- The exponent of ten at the first digit. -/
def leadingExponent (d : Decimal) : Int := d.scale + d.numerals.length - 1

/-- The same number without zeros at the end, of which at most `fuel` are dropped. -/
def dropZeros : (fuel : Nat) → Decimal → Decimal
  | 0, d => d
  | fuel + 1, d =>
    if d.digits ≠ 0 ∧ d.digits % 10 = 0 then dropZeros fuel ⟨d.digits / 10, d.scale + 1⟩ else d

/-- The same number without zeros at the end: a number has fewer of them than digits. -/
def reduced (d : Decimal) : Decimal := d.dropZeros d.numerals.length

end Decimal

end ConstraintStreams
