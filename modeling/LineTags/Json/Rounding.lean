import LineTags.Json.Decimal

/-!
# Rounded decimals

A floating-point number is exactly a whole number over a power of ten, for `2 ^ -k` is `5 ^ k / 10 ^ k`. Rounding it to so many places behind the point, or to so many digits, is one division of whole numbers, with ties to even; asking for more places than the number has changes nothing.
-/

namespace LineTags.Decimal

open Binary

/-- A finite number without its sign as `n / 10 ^ places`. -/
def exactly (x : Float) : Nat × Nat :=
  let e := exponentOf x
  ((mantissaOf x * Nat.pow 5 (-e).toNat) <<< e.toNat, (-e).toNat)

/-- The digits of a number rounded to a number of places behind the point; fewer than none reach before it. -/
def toPlaces (x : Float) (places : Int) : Digits :=
  let (n, exact) := exactly x
  if (exact : Int) ≤ places then Digits.ofFraction n exact
  else Digits.ofFraction (roundedQuotient n (Nat.pow 10 (exact - places).toNat)) places

/-- The digits of a number rounded to a positive number of digits. -/
def toDigits (x : Float) (count : Nat) : Digits :=
  let (n, exact) := exactly x
  toPlaces x ((count : Int) + exact - (Text.ofInt n).length)

end LineTags.Decimal
