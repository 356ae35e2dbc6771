import LineTags.Message.TemplateError
import LineTags.Text.Digit

/-!
# Layouts

A field may say how its value is laid out: a fill character and an alignment, the sign of a number, flags, a width, a separator for groups of digits, a precision, and a letter for the form. All parts are optional, and they come in this order. What the parts mean depends on the value; here they are only read.
-/

namespace LineTags

/-- Where a value stands in its width. The inner alignment puts the fill between the sign and the digits. -/
inductive Alignment
  | left
  | right
  | center
  | inner
  deriving DecidableEq

def Alignment.of? : Char → Option Alignment
  | '<' => some left
  | '>' => some right
  | '^' => some center
  | '=' => some inner
  | _ => none

/-- What stands in front of a number that is not negative. -/
inductive SignRule
  | nothing
  | plus
  | space
  deriving DecidableEq

structure Layout where
  fill : Char
  alignment : Alignment
  sign? : Option SignRule
  /-- A negative number that rounds to zero goes without its sign. -/
  plainZero : Bool
  alternate : Bool
  width : Nat
  separator? : Option Char
  precision? : Option Nat
  form : Char

/-- The digits that a text starts with as a number, and what follows them. Numbers from `2 ^ 63` on are refused. -/
def readNumber (t : Text) : Except TemplateError (Option Nat × Text) :=
  let digits := t.takeWhile Text.isDecimalDigit
  match Text.toNat? digits with
  | none => .ok (none, t)
  | some n => if n < 0x8000000000000000 then .ok (some n, t.drop digits.length) else .error .tooManyDigits

namespace Layout

/-- The fill character, if one stands before the alignment, the alignment, and what follows. -/
def takeAlignment (t : Text) : Option Char × Option Alignment × Text :=
  match (t.drop 1).head?.bind Alignment.of?, t.head?.bind Alignment.of? with
  | some a, _ => (t.head?, some a, t.drop 2)
  | none, some a => (none, some a, t.drop 1)
  | none, none => (none, none, t)

def takeSign : Text → Option SignRule × Text
  | '-' :: r => (some .nothing, r)
  | '+' :: r => (some .plus, r)
  | ' ' :: r => (some .space, r)
  | t => (none, t)

/-- Whether a flag is set, and what follows it. -/
def takeFlag (flag : Char) (t : Text) : Bool × Text :=
  if t.head? == some flag then (true, t.drop 1) else (false, t)

def takeSeparator : Text → Except TemplateError (Option Char × Text)
  | ',' :: '_' :: _ | '_' :: ',' :: _ => .error .twoSeparators
  | ',' :: r => .ok (some ',', r)
  | '_' :: r => .ok (some '_', r)
  | t => .ok (none, t)

def takePrecision : Text → Except TemplateError (Option Nat × Text)
  | '.' :: r => do
    match ← readNumber r with
    | (none, _) => throw .noPrecision
    | p => return p
  | t => .ok (none, t)

/-- The forms that write digits in groups of four. -/
def isBinaryForm (form : Char) : Bool := "boxX".toList.contains form

/-- Whether the digits of a form may be separated. The absent form of a floating-point number is the null character. -/
def allows (separator form : Char) : Bool :=
  "defgEG%F\x00".toList.contains form || (separator == '_' && isBinaryForm form)

/-- Reads the layout for a value of a kind, with the alignment and the form that the kind has by default. A zero in front of the width fills with zeros, behind the sign unless an alignment says otherwise. -/
def read (kind : Text) (alignment : Alignment) (form : Char) (t : Text) : Except TemplateError Layout := do
  let (fill?, alignment?, rest) := takeAlignment t
  let (sign?, rest) := takeSign rest
  let (plainZero, rest) := takeFlag 'z' rest
  let (alternate, rest) := takeFlag '#' rest
  let (zeros, rest) := if fill?.isSome then (false, rest) else takeFlag '0' rest
  let (width?, rest) ← readNumber rest
  let (separator?, rest) ← takeSeparator rest
  let (precision?, rest) ← takePrecision rest
  let form ← match rest with
    | [] => pure form
    | [c] => pure c
    | _ => throw (.malformed t kind)
  if let some separator := separator? then
    if !allows separator form then throw (.separatorNotAllowed separator form)
  let usual := if zeros ∧ alignment = .right then .inner else alignment
  return ⟨fill?.getD (if zeros then '0' else ' '), alignment?.getD usual, sign?, plainZero, alternate, width?.getD 0,
    separator?, precision?, form⟩

/-- The greatest width that there is room for. -/
def widest : Nat := 0x1000000000

/-- A text between the fill that its alignment asks for. A text has no inside, so the inner alignment puts the fill in front of it. -/
def pad (l : Layout) (t : Text) : Text :=
  let missing := l.width - t.length
  let before := match l.alignment with
    | .left => 0
    | .right | .inner => missing
    | .center => missing / 2
  List.replicate before l.fill ++ t ++ List.replicate (missing - before) l.fill

theorem length_pad (l : Layout) (t : Text) : (l.pad t).length = max l.width t.length := by
  have : (match l.alignment with
    | .left => 0
    | .right | .inner => l.width - t.length
    | .center => (l.width - t.length) / 2) ≤ l.width - t.length := by
    split <;> omega
  simp only [pad, List.length_append, List.length_replicate]
  omega

end Layout

end LineTags
