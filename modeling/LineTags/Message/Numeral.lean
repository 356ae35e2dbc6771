import LineTags.Json.Rounding
import LineTags.Message.Layout

/-!
# Numbers in a layout

A number is laid out in parts: a sign, the mark of its base, the digits of its whole part and the rest. Only the digits are grouped and filled up with zeros, and an inner fill goes in front of them.
-/

namespace LineTags

/-- The parts of a written number. -/
structure Numeral where
  negative : Bool
  mark : Text
  whole : Text
  rest : Text

namespace Numeral

/-- How many digits reach a width when a separator stands between groups. A digit stands in front of every separator, so the width may be exceeded by one. -/
def digitsFor (size width : Nat) : Nat := width - (width - 1) / (size + 1)

/-- So many digits reach the width with their separators. -/
theorem digitsFor_reaches (size width : Nat) (h : 0 < size) :
    width ≤ digitsFor size width + (digitsFor size width - 1) / size := by
  unfold digitsFor
  rcases width with _ | w
  · exact Nat.zero_le _
  · have hw := Nat.div_add_mod w (size + 1)
    have hm := Nat.mod_lt w (Nat.succ_pos size)
    simp only [Nat.add_sub_cancel]
    generalize hq : w / (size + 1) = q at *
    generalize hr : w % (size + 1) = r at *
    have e : w + 1 - q - 1 = size * q + r := by
      rw [Nat.add_mul, Nat.one_mul] at hw
      omega
    have hdiv : q ≤ (w + 1 - q - 1) / size := by
      rw [e, Nat.le_div_iff_mul_le h, Nat.mul_comm]
      exact Nat.le_add_right _ _
    omega

/-- Digits in groups counted from the end, given in reverse. -/
def grouped (size : Nat) (separator : Char) : Nat → Text → Text
  | _, [] => []
  | 0, c :: r => separator :: c :: grouped size separator (size - 1) r
  | left + 1, c :: r => c :: grouped size separator left r

/-- Zeros in front of digits up to a count. -/
def fillUp (count : Nat) (digits : Text) : Text := List.replicate (count - digits.length) '0' ++ digits

/-- Digits with zeros in front of them up to a width, in groups if the layout has a separator. -/
def groupDigits (l : Layout) (width : Nat) (digits : Text) : Text :=
  match l.separator? with
  | none => fillUp width digits
  | some separator =>
    let size := if Layout.isBinaryForm l.form then 4 else 3
    (grouped size separator size (fillUp (digitsFor size width) digits).reverse).reverse

/-- What stands in front of a number. -/
def signOf (l : Layout) (n : Numeral) : Text :=
  if n.negative then ['-']
  else match l.sign? with
    | some .plus => ['+']
    | some .space => [' ']
    | _ => []

/-- The text of a number. A fill of zeros behind the sign belongs to the digits, so it is grouped with them. -/
def layOut (l : Layout) (n : Numeral) : Except TemplateError Text :=
  if Layout.widest < l.width then .error .tooWide
  else
    let start := n.signOf l ++ n.mark
    let outer := start.length + n.rest.length
    let least := if l.fill = '0' ∧ l.alignment = .inner then l.width - outer else 0
    let digits := if n.whole.isEmpty then [] else groupDigits l least n.whole
    if l.alignment = .inner then
      .ok (start ++ List.replicate (l.width - (outer + digits.length)) l.fill ++ digits ++ n.rest)
    else .ok (l.pad (start ++ digits ++ n.rest))

/-- A whole number as a character, or in the base of the form. -/
def ofInt (l : Layout) (n : Int) : Except TemplateError Numeral := do
  if l.precision?.isSome then throw .wholePrecision
  if l.plainZero then throw .wholeZero
  let inBase (mark : String) (base : Nat) : Numeral :=
    ⟨n < 0, if l.alternate then mark.toList else [], Nat.toDigits base n.natAbs, []⟩
  match l.form with
  | 'c' =>
    if l.sign?.isSome then throw .characterSign
    if l.alternate then throw .characterAlternate
    if n < -0x8000000000000000 ∨ 0x8000000000000000 ≤ n then throw .farFromCharacter
    if n < 0 ∨ 0x110000 ≤ n then throw .noCharacter
    return ⟨false, [], [], [Char.ofNat n.toNat]⟩
  | 'b' => return inBase "0b" 2
  | 'o' => return inBase "0o" 8
  | 'x' => return inBase "0x" 16
  | 'X' => return { inBase "0X" 16 with whole := (Nat.toDigits 16 n.natAbs).map Char.toUpper }
  | _ => return inBase "" 10

/-- The digits of a number to so many digits, and how they are written: with an exponent where the point lies far from them, and without the zeros at the end unless the alternate form is asked for. -/
def general (l : Layout) (x : Float) (count : Nat) (keepsZero : Bool) (mark : Char) : Digits × DigitStyle :=
  let d := Decimal.toDigits x count
  let greatest : Int := if keepsZero then count - 1 else count
  (d, ⟨d.point ≤ -4 || greatest < d.point, if l.alternate then count else 0, keepsZero, l.alternate, mark⟩)

/-- The digits of a finite number in the form of a layout. Without a form they are the fewest that read back, or as many as the precision says. -/
def digitsIn (l : Layout) (x : Float) : Digits × DigitStyle :=
  let precision := l.precision?.getD 6
  let mark := if l.form.isUpper then 'E' else 'e'
  if "eE".toList.contains l.form then
    (Decimal.toDigits x (precision + 1), ⟨true, precision + 1, false, l.alternate, mark⟩)
  else if "fF%".toList.contains l.form then
    let d := Decimal.toPlaces x precision
    (d, ⟨false, d.point + precision, false, l.alternate, mark⟩)
  else if "gGn".toList.contains l.form then general l x (max 1 precision) false mark
  else match l.precision? with
    | some precision => general l x (max 1 precision) true mark
    | none =>
      let d := Decimal.shortestDigits x
      (d, { Decimal.shortestStyle d with keepsPoint := l.alternate })

/-- A floating-point number in the form of a layout. A percentage is the number times a hundred. -/
def ofFloat (l : Layout) (x : Float) : Except TemplateError Numeral :=
  let x := if l.form = '%' then x * 100.0 else x
  let percent := if l.form = '%' then ['%'] else []
  if 0x80000000 ≤ l.precision?.getD 0 then .error .precisionTooBig
  else if Binary.isFinite x then
    let (d, style) := digitsIn l x
    let (whole, rest) := d.write style
    .ok ⟨Decimal.showsMinus x && !(l.plainZero && d.isZero), [], whole, rest ++ percent⟩
  else
    let word := Decimal.wordOf x
    .ok ⟨Decimal.showsMinus x, [], [], (if l.form.isUpper then word.map Char.toUpper else word) ++ percent⟩

end Numeral

end LineTags
