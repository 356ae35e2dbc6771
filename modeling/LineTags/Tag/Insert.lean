import LineTags.Tag.Basic

/-!
# Adding a tag

A tag goes to the end of the code of its line, with one space before it. A choice whose text has a bracketed part takes the tag inside, just before the closing bracket, because what follows the bracket is shown after the choice was made.
-/

namespace LineTags

open Text

def isChoiceMark (c : Char) : Bool := c == '*' || c == '+'

/-- The length of the marks that open a line, the blanks before and between them included; zero when the line does not start with a mark. -/
def marksLength (isMark : Char → Bool) : Text → Nat
  | [] => 0
  | c :: r =>
    if isMark c then marksLength isMark r + 1
    else if isBlank c then
      match marksLength isMark r with
      | 0 => 0
      | n + 1 => n + 2
    else 0

/-- The offset of the bracket that closes the first opened one. Brackets count neither in braces, of which `depth` are open, nor behind a backslash. -/
def closingBracket? (depth : Nat) (opened : Bool) : Text → Option Nat
  | [] => none
  | '\\' :: _ :: r => (closingBracket? depth opened r).map (· + 2)
  | '{' :: r => (closingBracket? (depth + 1) opened r).map (· + 1)
  | c :: r =>
    match depth with
    | d + 1 => (closingBracket? (if c = '}' then d else d + 1) opened r).map (· + 1)
    | 0 => if c = ']' ∧ opened then some 0 else (closingBracket? 0 (opened || c == '[') r).map (· + 1)

/-- The code of a choice up to the bracket that closes its choice-only part. -/
def beforeChoiceBracket? (code : Text) : Option Text :=
  match marksLength isChoiceMark code with
  | 0 => none
  | n => (closingBracket? 0 false (code.drop n)).map fun k => code.take (n + k)

/-- The column where a tag goes. -/
def tagColumn (code : Text) : Nat := (stripEnd ((beforeChoiceBracket? code).getD code)).length

/-- The line with the tag of an identifier. A line without code stays as it is. -/
def insertTag (line identifier : Text) : Text :=
  let code := codeOf line
  if isBlankText code then line
  else line.take (tagColumn code) ++ ' ' :: formatTag identifier ++ line.drop (tagColumn code)

end LineTags
