/-!
# Floating-point numbers in binary

A finite floating-point number is `mantissa · 2 ^ exponent` with a sign, taken from the three fields of its 64 bits: the sign, eleven bits of exponent and a fraction. The other way, a fraction of whole numbers goes to the floating-point number nearest to it, in exact arithmetic.
-/

namespace LineTags

namespace Binary

/-- A quotient rounded to the nearest whole number, to the even one on a tie. -/
def roundedQuotient (n d : Nat) : Nat :=
  let below := n / d
  let rest := 2 * (n % d)
  if rest < d ∨ (rest = d ∧ below % 2 = 0) then below else below + 1

/-- Rounding moves a quotient by at most a half. -/
theorem roundedQuotient_near {n d : Nat} (h : 0 < d) :
    2 * n ≤ 2 * (roundedQuotient n d * d) + d ∧ 2 * (roundedQuotient n d * d) ≤ 2 * n + d := by
  have hn := Nat.div_add_mod n d
  have hd : n % d < d := Nat.mod_lt n h
  rw [Nat.mul_comm] at hn
  unfold roundedQuotient
  dsimp only
  split
  · omega
  · rw [Nat.add_mul, Nat.one_mul]
    omega

def fractionSize : Nat := 4503599627370496
def exponentSize : Nat := 2048

def isNegative (x : Float) : Bool := x.toBits.toNat / (fractionSize * exponentSize) == 1
def biasedOf (x : Float) : Nat := x.toBits.toNat / fractionSize % exponentSize
def fractionOf (x : Float) : Nat := x.toBits.toNat % fractionSize

def isFinite (x : Float) : Bool := biasedOf x != exponentSize - 1

/-- The mantissa of a finite number. The smallest numbers have no leading bit. -/
def mantissaOf (x : Float) : Nat := if biasedOf x = 0 then fractionOf x else fractionSize + fractionOf x

/-- The exponent that goes with the mantissa. -/
def exponentOf (x : Float) : Int := (if biasedOf x = 0 then 1 else (biasedOf x : Int)) - 1075

/-- The exponent of the greatest power of two that a positive fraction reaches. -/
def magnitude (n d : Nat) : Int :=
  let guess := (n.log2 : Int) - d.log2
  if d <<< guess.toNat ≤ n <<< (-guess).toNat then guess else guess - 1

/-- The number nearest to a positive fraction. Its last bit is worth `2 ^ place`; a mantissa that rounding has made one bit longer carries into the exponent field, and so does the leading bit. What is beyond the range of floating-point numbers is infinite. -/
def ofFraction (n d : Nat) : Float :=
  let place := max (-1074) (magnitude n d - 52)
  let mantissa := roundedQuotient (n <<< (-place).toNat) (d <<< place.toNat)
  let bits := (place + 1074).toNat * fractionSize + mantissa
  Float.ofBits (min bits ((exponentSize - 1) * fractionSize)).toUInt64

end Binary

end LineTags
