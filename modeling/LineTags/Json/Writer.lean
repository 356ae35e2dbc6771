import LineTags.Json.Basic

/-!
# Writing JSON

A value is written on one line, or with one item or field a line and two more spaces for each level. Characters beyond ASCII stand for themselves; only the quote, the backslash and the controls are escaped.
-/

namespace LineTags.Json

def escapedChar (c : Char) : Text :=
  if c = '"' then ['\\', '"']
  else if c = '\\' then ['\\', '\\']
  else if c = '\n' then ['\\', 'n']
  else if c = '\r' then ['\\', 'r']
  else if c = '\t' then ['\\', 't']
  else if c = '\x08' then ['\\', 'b']
  else if c = '\x0c' then ['\\', 'f']
  else if c.val < 32 then ['\\', 'u'] ++ Text.hexDigits 4 c.toNat
  else [c]

def writeString (t : Text) : Text := '"' :: t.flatMap escapedChar ++ ['"']

/-- A floating-point number; those that are not finite have words of their own. -/
def writeFloat (x : Float) : Text :=
  if x.isNaN then "NaN".toList
  else if x.isInf then (if x < 0 then "-Infinity" else "Infinity").toList
  else Decimal.ofFloat x

/-- What stands between the parts of an array or object: before the first, between two, behind the last. -/
structure Gaps where
  first : Text
  between : Text
  last : Text

/-- The gaps at a depth of nesting; without indentation, everything stays on one line. -/
def gapsAt (indent? : Option Nat) (depth : Nat) : Gaps :=
  match indent? with
  | none => ⟨[], [',', ' '], []⟩
  | some width =>
    let inner := '\n' :: List.replicate (width * (depth + 1)) ' '
    ⟨inner, ',' :: inner, '\n' :: List.replicate (width * depth) ' '⟩

def write (indent? : Option Nat) (depth : Nat) : Json → Text
  | null => "null".toList
  | bool true => "true".toList
  | bool false => "false".toList
  | int n => Text.ofInt n
  | float x => writeFloat x
  | string t => writeString t
  | array [] => ['[', ']']
  | object [] => ['\x7b', '\x7d']
  | array items =>
    let gaps := gapsAt indent? depth
    '[' :: gaps.first ++ Text.join gaps.between (items.attach.map fun ⟨item, _⟩ => write indent? (depth + 1) item)
      ++ gaps.last ++ [']']
  | object fields =>
    let gaps := gapsAt indent? depth
    '\x7b' :: gaps.first
      ++ Text.join gaps.between (fields.attach.map fun ⟨(name, value), _⟩ =>
        writeString name ++ [':', ' '] ++ write indent? (depth + 1) value)
      ++ gaps.last ++ ['\x7d']
termination_by value => value
decreasing_by
  all_goals simp_wf
  · rename_i h
    have := List.sizeOf_lt_of_mem h
    omega
  · rename_i h
    have := List.sizeOf_lt_of_mem h
    simp at this
    omega

/-- The value with two spaces of indentation for each level. -/
def toLines (value : Json) : Text := write (some 2) 0 value

def toLine (value : Json) : Text := write none 0 value

end LineTags.Json
