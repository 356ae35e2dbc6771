import LineTags.Json.Basic
import LineTags.Keyed
import LineTags.Text.Digit

/-!
# Reading JSON

The usual grammar, with three words more for the numbers that are not finite. Control characters are not allowed inside strings, and a byte order mark at the start is not allowed at all. A field that is given twice keeps its first place and its last value. A whole number with too many digits ends the reading where it stands, and so does an array or object that lies too deep inside others.
-/

namespace LineTags

/-- Why a text gives no value. -/
inductive JsonFault
  | malformed
  | tooManyDigits (count : Nat)
  | tooDeep (inObject : Bool)
  deriving DecidableEq

namespace Json

def isSpace (c : Char) : Bool := c == ' ' || c == '\t' || c == '\n' || c == '\r'

def skipSpace (t : Text) : Text := t.dropWhile isSpace

def hexValue? (c : Char) : Option Nat :=
  if '0' ≤ c ∧ c ≤ '9' then some (c.toNat - 48)
  else if 'a' ≤ c ∧ c ≤ 'f' then some (c.toNat - 87)
  else if 'A' ≤ c ∧ c ≤ 'F' then some (c.toNat - 55)
  else none

/-- Four hexadecimal digits and what follows them. -/
def readUnit? : Text → Option (Nat × Text)
  | a :: b :: c :: d :: r =>
    match hexValue? a, hexValue? b, hexValue? c, hexValue? d with
    | some a, some b, some c, some d => some (((a * 16 + b) * 16 + c) * 16 + d, r)
    | _, _, _, _ => none
  | _ => none

/-- The character of an escaped unit, which may be the first half of a pair, and what follows. A half on its own stands for the replacement character. -/
def readEscapedUnit? (t : Text) : Option (Char × Text) :=
  (readUnit? t).map fun (unit, r) =>
    if 0xD800 ≤ unit ∧ unit < 0xDC00 then
      match r with
      | '\\' :: 'u' :: s =>
        match readUnit? s with
        | some (low, s) =>
          if 0xDC00 ≤ low ∧ low < 0xE000 then (Char.ofNat (0x10000 + (unit - 0xD800) * 0x400 + (low - 0xDC00)), s)
          else ('\uFFFD', r)
        | none => ('\uFFFD', r)
      | _ => ('\uFFFD', r)
    else if 0xDC00 ≤ unit ∧ unit < 0xE000 then ('\uFFFD', r)
    else (Char.ofNat unit, r)

/-- What one letter behind a backslash stands for. -/
def simpleEscape? : Char → Option Char
  | '"' => some '"'
  | '\\' => some '\\'
  | '/' => some '/'
  | 'b' => some '\x08'
  | 'f' => some '\x0c'
  | 'n' => some '\n'
  | 'r' => some '\r'
  | 't' => some '\t'
  | _ => none

/-- The rest of a string, up to its closing quote, and what follows. The number bounds the characters read. -/
def readString? : Nat → Text → Option (Text × Text)
  | 0, _ => none
  | _, [] => none
  | _, '"' :: r => some ([], r)
  | n + 1, '\\' :: 'u' :: r => do
    let (c, r) ← readEscapedUnit? r
    let (t, r) ← readString? n r
    return (c :: t, r)
  | n + 1, '\\' :: e :: r => do
    let c ← simpleEscape? e
    let (t, r) ← readString? n r
    return (c :: t, r)
  | n + 1, c :: r =>
    if c.val < 32 ∨ c = '\\' then none
    else (readString? n r).map fun (t, r) => (c :: t, r)

/-- The number that a run of ASCII digits spells. -/
def digitsValue (t : Text) : Nat := t.foldl (fun n c => 10 * n + (c.toNat - 48)) 0

/-- The digits behind a decimal point, if there is one with digits behind it, and what follows. -/
def readFraction (t : Text) : Option Text × Text :=
  match t with
  | '.' :: r =>
    let digits := r.takeWhile Char.isDigit
    if digits.isEmpty then (none, t) else (some digits, r.dropWhile Char.isDigit)
  | _ => (none, t)

/-- The exponent, if there is a complete one, and what follows. -/
def readExponent (t : Text) : Option Int × Text :=
  match t with
  | e :: r =>
    if e = 'e' ∨ e = 'E' then
      let (negative, s) : Bool × Text := match r with
        | '-' :: s => (true, s)
        | '+' :: s => (false, s)
        | s => (false, s)
      let digits := s.takeWhile Char.isDigit
      if digits.isEmpty then (none, t)
      else
        let n : Int := digitsValue digits
        (some (if negative then -n else n), s.dropWhile Char.isDigit)
    else (none, t)
  | [] => (none, t)

/-- A number whose sign has been read: no digit may follow a leading zero. -/
def readNumber (negative : Bool) (t : Text) : Except JsonFault (Json × Text) :=
  let whole := match t with
    | '0' :: _ => ['0']
    | _ => t.takeWhile Char.isDigit
  if whole.isEmpty then .error .malformed
  else
    let (fraction, r) := readFraction (t.drop whole.length)
    let (exponent, r) := readExponent r
    if fraction.isNone ∧ exponent.isNone then
      let n : Int := digitsValue whole
      if Text.mostDigits < whole.length then .error (.tooManyDigits whole.length)
      else .ok (int (if negative then -n else n), r)
    else
      let places := fraction.getD []
      .ok (float (Decimal.toFloat negative (digitsValue (whole ++ places)) (exponent.getD 0 - places.length)), r)

/-- The words, longest match first where one starts another. -/
def words : List (Text × Json) :=
  [("null".toList, null), ("true".toList, bool true), ("false".toList, bool false), ("NaN".toList, float (0.0 / 0.0)),
   ("Infinity".toList, float (1.0 / 0.0)), ("-Infinity".toList, float (-1.0 / 0.0))]

def readWord? (t : Text) : Option (Json × Text) :=
  words.findSome? fun (word, value) => (Text.after? word t).map fun r => (value, r)

/-- A string behind its opening quote and what follows it. -/
def readText (count : Nat) (t : Text) : Except JsonFault (Text × Text) := (readString? count t).elim (.error .malformed) .ok

/-- How deep arrays and objects may lie inside each other. -/
def deepest : Nat := 988

mutual

/-- The value at the start of a text and what follows. The number bounds the steps; every step reads a character. There is room for so many arrays and objects inside each other. -/
def readValue (room : Nat) : Nat → Text → Except JsonFault (Json × Text)
  | 0, _ => .error .malformed
  | n + 1, t =>
    match t with
    | '"' :: r => (readText n r).map fun (s, r) => (string s, r)
    | '[' :: r =>
      if room = 0 then .error (.tooDeep false)
      else match skipSpace r with
        | ']' :: r => .ok (array [], r)
        | r => (readItems (room - 1) n r).map fun (items, r) => (array items, r)
    | '\x7b' :: r =>
      if room = 0 then .error (.tooDeep true)
      else match skipSpace r with
        | '\x7d' :: r => .ok (object [], r)
        | r => (readFields (room - 1) n [] r).map fun (fields, r) => (object fields, r)
    | t =>
      match readWord? t, t with
      | some found, _ => .ok found
      | none, '-' :: r => readNumber true r
      | none, r => readNumber false r

/-- The items of an array up to its closing bracket. -/
def readItems (room : Nat) : Nat → Text → Except JsonFault (List Json × Text)
  | 0, _ => .error .malformed
  | n + 1, t => do
    let (item, r) ← readValue room n t
    match skipSpace r with
    | ',' :: r => (readItems room n (skipSpace r)).map fun (items, r) => (item :: items, r)
    | ']' :: r => return ([item], r)
    | _ => throw .malformed

/-- The fields of an object up to its closing brace, added to those read before. -/
def readFields (room : Nat) : Nat → List (Text × Json) → Text → Except JsonFault (List (Text × Json) × Text)
  | 0, _, _ => .error .malformed
  | n + 1, before, t =>
    match t with
    | '"' :: r => do
      let (name, r) ← readText n r
      match skipSpace r with
      | ':' :: r =>
        let (value, r) ← readValue room n (skipSpace r)
        match skipSpace r with
        | ',' :: r => readFields room n (Keyed.put name value before) (skipSpace r)
        | '\x7d' :: r => return (Keyed.put name value before, r)
        | _ => throw .malformed
      | _ => throw .malformed
    | _ => .error .malformed

end

/-- The value that a text spells, blanks around it allowed. -/
def ofText (t : Text) : Except JsonFault Json := do
  let (value, r) ← readValue deepest (2 * t.length + 2) (skipSpace t)
  if (skipSpace r).isEmpty then return value else throw .malformed

end Json

end LineTags
