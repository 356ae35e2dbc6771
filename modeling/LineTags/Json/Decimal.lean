import LineTags.Json.Binary
import LineTags.Json.Digits

/-!
# Floating-point numbers in decimal

The text of a floating-point number is the shortest decimal that reads back as the same number, and of the shortest ones the nearest. The number is taken apart into `mantissa · 2 ^ exponent`; the reals that read back as it form an interval around it, and the digits are found by trying ever finer decimal grids on that interval in exact arithmetic.
-/

namespace LineTags

/-- A positive number as a fraction, with the ends of the interval of numbers that round to it. All four share the denominator; the ends belong to the interval when `closed` holds. -/
structure RoundingInterval where
  low : Nat
  value : Nat
  high : Nat
  denominator : Nat
  closed : Bool

namespace RoundingInterval

/-- The interval of `mantissa · 2 ^ exponent`. Below a power of two the numbers lie twice as dense, so the interval is half as wide on that side. -/
def ofBinary (mantissa : Nat) (exponent : Int) (narrowBelow : Bool) : RoundingInterval :=
  let up := 1 <<< exponent.toNat
  let low := 4 * mantissa - (if narrowBelow then 1 else 2)
  ⟨low * up, 4 * mantissa * up, (4 * mantissa + 2) * up, 4 <<< (-exponent).toNat, mantissa % 2 == 0⟩

def holds (i : RoundingInterval) (numerator denominator : Nat) : Bool :=
  let n := numerator * i.denominator
  let low := i.low * denominator
  let high := i.high * denominator
  (low < n && n < high) || (i.closed && (n == low || n == high))

/-- Ten to the power of an integer as a fraction. -/
def tenTo (k : Int) : Nat × Nat := (Nat.pow 10 k.toNat, Nat.pow 10 (-k).toNat)

/-- The multiple of `10 ^ place` in the interval that is nearest to the value, an even one on a tie. -/
def onGrid? (i : RoundingInterval) (place : Int) : Option Nat :=
  let (up, down) := tenTo place
  let below := i.value * down / (i.denominator * up)
  let fits (n : Nat) : Bool := i.holds (n * up) down
  let nearer := Binary.roundedQuotient (i.value * down) (i.denominator * up)
  let farther := if nearer = below then below + 1 else below
  if fits nearer then some nearer else if fits farther then some farther else none

/-- The exponent of the least power of ten above the value, found from a start below it. -/
def magnitude (i : RoundingInterval) : Nat → Int → Int
  | 0, k => k
  | steps + 1, k =>
    let (up, down) := tenTo k
    if i.value * down < i.denominator * up then k else magnitude i steps (k + 1)

/-- The first grid with a hit, from one digit to as many as are left. -/
def shortest (i : RoundingInterval) (magnitude : Int) : Nat → Nat → Digits
  | 0, _ => ⟨['0'], 1⟩
  | left + 1, count =>
    match i.onGrid? (magnitude - count) with
    | some n => Digits.ofFraction n (count - magnitude)
    | none => shortest i magnitude left (count + 1)

end RoundingInterval

namespace Decimal

open Binary

/-- The fewest digits that read back as a finite number. -/
def shortestDigits (x : Float) : Digits :=
  if mantissaOf x = 0 then ⟨['0'], 1⟩
  else
    let interval := RoundingInterval.ofBinary (mantissaOf x) (exponentOf x) (fractionOf x == 0 && 1 < biasedOf x)
    let start := ((((mantissaOf x).log2 : Int) + exponentOf x) * 30103 / 100000) - 1
    interval.shortest (interval.magnitude 4 start) 17 1

/-- Positional notation where the point lies near the digits; a whole number keeps one zero behind the point. -/
def shortestStyle (d : Digits) : DigitStyle := ⟨d.point ≤ -4 || 16 < d.point, 0, true, false, 'e'⟩

/-- The word for a number that is not finite, without its sign. -/
def wordOf (x : Float) : Text := if fractionOf x = 0 then "inf".toList else "nan".toList

/-- Whether a minus sign belongs in front of a number. What is no number has no sign. -/
def showsMinus (x : Float) : Bool := isNegative x && (isFinite x || fractionOf x == 0)

/-- The text of a floating-point number. -/
def ofFloat (x : Float) : Text :=
  let sign : Text := if showsMinus x then ['-'] else []
  if isFinite x then
    let (whole, rest) := (shortestDigits x).write (shortestStyle (shortestDigits x))
    sign ++ whole ++ rest
  else sign ++ wordOf x

/-- The number that `digits · 10 ^ exponent` rounds to. Beyond the range of floating-point numbers it is infinite or zero. -/
def toFloat (negative : Bool) (digits : Nat) (exponent : Int) : Float :=
  let size := ((Text.ofInt digits).length : Int) + exponent
  let x :=
    if digits = 0 ∨ size < -400 then 0.0
    else if 400 < size then 1.0 / 0.0
    else ofFraction (digits * Nat.pow 10 exponent.toNat) (Nat.pow 10 (-exponent).toNat)
  if negative then -x else x

/-- The floating-point number nearest to a whole number; none if the number is beyond their range. -/
def ofWhole? (n : Int) : Option Float :=
  let x := toFloat (n < 0) n.natAbs 0
  if isFinite x then some x else none

/-- The whole part of a number, toward zero; none if the number is infinite or no number. -/
def truncate? (x : Float) : Option Int :=
  if !isFinite x then none
  else
    let size : Nat := (mantissaOf x <<< (exponentOf x).toNat) >>> (-exponentOf x).toNat
    some (if isNegative x then -size else size)

end Decimal

end LineTags
