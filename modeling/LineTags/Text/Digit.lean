import LineTags.Text.Basic

/-!
# Decimal digits

Unicode 14 has the ten decimal digits in many writing systems, each time as ten consecutive code points. A whole number may be written in any of them, with a sign in front, blanks around it, and single underscores between its digits. The ASCII information separators count as blanks only in a text that has other characters than ASCII ones.
-/

namespace LineTags.Text

/-- The code points of the digits zero. -/
def digitZeros : List Nat := [
  48, 1632, 1776, 1984, 2406, 2534, 2662, 2790, 2918, 3046, 3174, 3302, 3430, 3558, 3664, 3792, 3872, 4160, 4240,
  6112, 6160, 6470, 6608, 6784, 6800, 6992, 7088, 7232, 7248, 42528, 43216, 43264, 43472, 43504, 43600, 44016,
  65296, 66720, 68912, 69734, 69872, 69942, 70096, 70384, 70736, 70864, 71248, 71360, 71472, 71904, 72016, 72784,
  73040, 73120, 92768, 92864, 93008, 120782, 120792, 120802, 120812, 120822, 123200, 123632, 125264, 130032]

def digitValue? (c : Char) : Option Nat :=
  (digitZeros.find? fun first => first ≤ c.toNat && c.toNat < first + 10).map (c.toNat - ·)

/-- Reads digits, single underscores between them allowed; `value` is what was read so far. -/
def readDigits (value : Nat) : Text → Option Nat
  | [] => some value
  | '_' :: c :: r => (digitValue? c).bind fun d => readDigits (10 * value + d) r
  | c :: r => (digitValue? c).bind fun d => readDigits (10 * value + d) r

/-- The number that one or more digits spell. -/
def toNat? : Text → Option Nat
  | [] => none
  | c :: r => (digitValue? c).bind fun d => readDigits d r

def isDecimalDigit (c : Char) : Bool := (digitValue? c).isSome

def isAscii (t : Text) : Bool := t.all fun c => c.val < 128

/-- The blanks that may surround a number, in a text that is ASCII or not. -/
def isNumberBlank (ascii : Bool) (c : Char) : Bool := isBlank c && !(ascii && 28 ≤ c.val && c.val ≤ 31)

/-- Whether a minus sign stands in front of the number in a text, and the text without blanks around it and without its sign. -/
def splitSign (t : Text) : Bool × Text :=
  let isOutside := isNumberBlank (isAscii t)
  match ((t.dropWhile isOutside).reverse.dropWhile isOutside).reverse with
  | '-' :: r => (true, r)
  | '+' :: r => (false, r)
  | r => (false, r)

/-- The whole number that a text spells. -/
def toInt? (t : Text) : Option Int :=
  let (negative, r) := splitSign t
  (toNat? r).map fun n => if negative then -n else n

/-- How many digits a whole number may have. -/
def mostDigits : Nat := 4300

/-- The number of digits that a text starts with, if they spell a number and are too many. What follows them is not looked at. -/
def excessDigits? (t : Text) : Option Nat :=
  let run := (splitSign t).2.takeWhile fun c => isDecimalDigit c || c == '_'
  let count := run.countP isDecimalDigit
  if mostDigits < count ∧ (toNat? run).isSome then some count else none

end LineTags.Text
