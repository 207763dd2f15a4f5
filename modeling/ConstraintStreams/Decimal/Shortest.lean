import ConstraintStreams.Decimal.Basic

/-!
# The shortest decimal of a float

Many decimals round to the same float. `Rounding.shortest` selects one with the fewest digits, and of
those the nearest to the float. The decimals that round to a float form an interval from halfway to
the value below to halfway to the value above; both ends belong to it exactly when the significand is
even, since a number halfway between two floats rounds to the even one.
-/

namespace ConstraintStreams

/-- A positive finite float with the interval of numbers that round to it. -/
structure Rounding where
  value : Binary
  low : Binary
  high : Binary
  /-- The ends of the interval belong to it. -/
  closed : Bool

namespace Rounding

/-- The float with the given significand and scale. The value below is half as far away as the value
above when `narrow` holds, which is so at a power of two. -/
def ofParts (significand : Nat) (scale : Int) (narrow : Bool) : Rounding where
  value := ⟨significand, scale⟩
  low := ⟨4 * significand - (if narrow then 1 else 2), scale - 2⟩
  high := ⟨4 * significand + 2, scale - 2⟩
  closed := significand % 2 == 0

/-- A decimal rounds to the float. -/
def contains (r : Rounding) (d : Decimal) : Bool :=
  if r.closed then !d.isBelow r.low && !d.isAbove r.high
  else d.isAbove r.low && d.isBelow r.high

/-- The multiple of `10 ^ scale` that rounds to the float, if one does. Only the two multiples around
the float come into question; if both round to it, the nearer is taken, and the greater if they are
equally near. -/
def candidate? (r : Rounding) (scale : Int) : Option Decimal :=
  let n := r.value.floorAt scale
  match r.contains ⟨n, scale⟩, r.contains ⟨n + 1, scale⟩ with
  | false, false => none
  | true, false => some ⟨n, scale⟩
  | false, true => some ⟨n + 1, scale⟩
  | true, true =>
    if Decimal.isAbove ⟨2 * n + 1, scale⟩ r.value.double then some ⟨n, scale⟩
    else some ⟨n + 1, scale⟩

/-- The least exponent of ten whose power is greater than the float. No positive float is below
`10 ^ (-400)`, so the multiples of that number in the float have a digit for each exponent between. -/
def topExponent (r : Rounding) : Int :=
  (Nat.toDigits 10 (r.value.floorAt (-400))).length - 400

/-- The exact value of the float as a decimal. -/
def exact (r : Rounding) : Decimal :=
  let places := (-r.value.scale).toNat
  ⟨r.value.significand * Nat.pow 2 r.value.scale.toNat * Nat.pow 5 places, -places⟩

/-- The decimal with the fewest digits that rounds to the float. One, two and up to seventeen digits
are tried in turn, which is enough for every float. -/
def shortest (r : Rounding) : Decimal :=
  let found := (List.range 17).findSome? fun (i : Nat) => r.candidate? (r.topExponent - 1 - i)
  (found.getD r.exact).reduced

end Rounding

end ConstraintStreams
