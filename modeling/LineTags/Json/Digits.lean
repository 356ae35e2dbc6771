import LineTags.Text.Basic

/-!
# Decimal digits of a number

The same digits can be written in two ways: in positional notation, or with the point behind the first digit and an exponent. The part before the point is kept apart from what follows it, because it alone is grouped and filled up with zeros.
-/

namespace LineTags

/-- The digits of a positive number or zero, and the place of the decimal point: the value is `0.digits · 10 ^ point`. -/
structure Digits where
  digits : Text
  point : Int

/-- How digits are written. There are at least `least` of them, counted from the first; a whole number in positional notation may keep one zero behind the point, and a point with nothing behind it may stay. -/
structure DigitStyle where
  scientific : Bool
  least : Int
  keepsZero : Bool
  keepsPoint : Bool
  mark : Char

namespace Digits

/-- The digits of `n / 10 ^ places`, without the zeros at the end. -/
def ofFraction (n : Nat) (places : Int) : Digits :=
  if n = 0 then ⟨['0'], 1⟩
  else
    let shown := Text.ofInt n
    ⟨(shown.reverse.dropWhile (· == '0')).reverse, shown.length - places⟩

def isZero (d : Digits) : Bool := d.digits == ['0']

/-- An exponent of at least two digits behind its mark. -/
def exponentText (mark : Char) (exponent : Int) : Text :=
  let shown := Text.ofInt exponent.natAbs
  mark :: (if exponent < 0 then '-' else '+') :: (if shown.length < 2 then '0' :: shown else shown)

/-- What stands before the point and what follows. -/
def write (style : DigitStyle) (d : Digits) : Text × Text :=
  let point := if style.scientific then 1 else d.point
  let count : Int := d.digits.length
  let last := max style.least (if style.keepsZero && !style.scientific then point + 1 else point)
  let whole :=
    if point ≤ 0 then ['0'] else d.digits.take point.toNat ++ List.replicate (point - count).toNat '0'
  let behind := List.replicate (-point).toNat '0' ++ d.digits.drop point.toNat
    ++ List.replicate (last - max count point).toNat '0'
  (whole, (if behind.isEmpty && !style.keepsPoint then [] else ['.']) ++ behind
    ++ if style.scientific then exponentText style.mark (d.point - 1) else [])

end Digits

end LineTags
