import LineTags.Json.Basic
import LineTags.Message.Numeral

/-!
# What fields refer to

The name of a field starts with that of a value of the message. Parts of the value may follow, each behind a point, and items of it, each in brackets. What is found is turned into a text by the conversion and the layout of the field.
-/

namespace LineTags

/-- What a field refers to: a value, or the kind of a value, by its name. -/
inductive Referent
  | value (v : Json)
  | kind (name : Text)

namespace Referent

def kindName : Json → String
  | .null => "NoneType"
  | .bool _ => "bool"
  | .int _ => "int"
  | .float _ => "float"
  | .string _ => "str"
  | .array _ => "list"
  | .object _ => "dict"

def kindOf : Referent → Referent
  | value v => kind (kindName v).toList
  | kind _ => kind "type".toList

/-- A part of a number or of a kind. Numbers are complex numbers, and whole ones are fractions. -/
def part (name : Text) (r : Referent) : Except TemplateError Referent :=
  match r, String.ofList name with
  | r, "__class__" => .ok r.kindOf
  | kind k, "__name__" => .ok (value (.string k))
  | value (.int n), "real" | value (.int n), "numerator" => .ok (value (.int n))
  | value (.bool b), "real" | value (.bool b), "numerator" => .ok (value (.int (if b then 1 else 0)))
  | value (.int _), "imag" | value (.bool _), "imag" => .ok (value (.int 0))
  | value (.int _), "denominator" | value (.bool _), "denominator" => .ok (value (.int 1))
  | value (.float x), "real" => .ok (value (.float x))
  | value (.float _), "imag" => .ok (value (.float 0.0))
  | _, _ => .error .noPart

/-- An item of a value: by its place if the key is a number, by its name otherwise. -/
def item (key : Text) (r : Referent) : Except TemplateError Referent := do
  let (number?, rest) ← readNumber key
  if key.isEmpty then throw .emptyPart
  match r, if rest.isEmpty then number? else none with
  | value (.string t), some i => (t[i]?.map fun c => value (.string [c])).elim (.error .beyondText) .ok
  | value (.array items), some i => (items[i]?.map value).elim (.error .beyondList) .ok
  | value (.object _), some i => throw (.noEntry i)
  | value (.object fields), none => ((fields.lookup key).map value).elim (.error (.noValue key)) .ok
  | _, _ => throw .noItems

/-- Whether a character goes on with a name or a part. -/
def goesOn (c : Char) : Bool := c != '.' && c != '['

/-- What parts and items lead to. -/
def follow (r : Referent) (path : Text) : Except TemplateError Referent :=
  match path with
  | [] => .ok r
  | '.' :: t =>
    let name := t.takeWhile goesOn
    if name.isEmpty then .error .emptyPart
    else do follow (← r.part name) (t.drop name.length)
  | '[' :: t =>
    let key := t.takeWhile (· != ']')
    do follow (← r.item key) (t.drop (key.length + 1))
  | _ :: _ => .error .noPartSign
termination_by path.length
decreasing_by
  all_goals simp only [List.length_cons, List.length_drop]; omega

/-- What the name of a field refers to. The values of a message have names, so a place among them is in vain. -/
def ofName (values : List (Text × Json)) (name : Text) : Except TemplateError Referent := do
  let first := name.takeWhile goesOn
  let (number?, rest) ← readNumber first
  if rest.isEmpty then throw (.noPosition (number?.getD 0))
  match values.lookup first with
  | some v => follow (value v) (name.drop first.length)
  | none => throw (.noValue first)

def display : Referent → Text
  | value v => v.display
  | kind name => "<class '".toList ++ name ++ "'>".toList

def shown : Referent → Text
  | value v => v.shown
  | r => r.display

/-- The characters beyond ASCII as escapes. -/
def escapeBeyondAscii (t : Text) : Text :=
  t.flatMap fun c => if c.val < 128 then [c] else Text.escapeCode c.toNat

/-- A value as a conversion shows it. The null character stands for no conversion. -/
def convert (c : Char) (r : Referent) : Except TemplateError Referent :=
  match c with
  | '\x00' => .ok r
  | 's' => .ok (value (.string r.display))
  | 'r' => .ok (value (.string r.shown))
  | 'a' => .ok (value (.string (escapeBeyondAscii r.shown)))
  | c => .error (.unknownConversion c)

/-- A text in a layout. A precision cuts it. -/
def layOutText (l : Layout) (t : Text) : Except TemplateError Text := do
  if l.form != 's' then throw (.unknownForm l.form "str".toList)
  if let some sign := l.sign? then throw (if sign = .space then .textSpace else .textSign)
  if l.plainZero then throw .textZero
  if l.alternate then throw .textAlternate
  if l.alignment = .inner then throw .textInner
  if Layout.widest < l.width then throw .tooWide
  return l.pad (l.precision?.elim t t.take)

/-- A whole number in a layout, which may ask for it as a floating-point number. -/
def layOutInt (kind : Text) (n : Int) (layout : Text) : Except TemplateError Text := do
  let l ← Layout.read kind .right 'd' layout
  if "bcdoxXn".toList.contains l.form then (← Numeral.ofInt l n).layOut l
  else if "eEfFgG%".toList.contains l.form then
    match Decimal.ofWhole? n with
    | some x => (← Numeral.ofFloat l x).layOut l
    | none => throw .beyondFloat
  else throw (.unknownForm l.form kind)

def layOutFloat (x : Float) (layout : Text) : Except TemplateError Text := do
  let l ← Layout.read "float".toList .right '\x00' layout
  if "\x00eEfFgGn%".toList.contains l.form then (← Numeral.ofFloat l x).layOut l
  else throw (.unknownForm l.form "float".toList)

/-- A value in a layout. Without a layout every value has a text; only texts and numbers have layouts, and true and false count as one and zero there. -/
def layOut (r : Referent) (layout : Text) : Except TemplateError Text :=
  if layout.isEmpty then .ok r.display
  else match r with
    | value (.string t) => do layOutText (← Layout.read "str".toList .left 's' layout) t
    | value (.int n) => layOutInt "int".toList n layout
    | value (.bool b) => layOutInt "bool".toList (if b then 1 else 0) layout
    | value (.float x) => layOutFloat x layout
    | _ => .error .noLayout

end Referent

end LineTags
