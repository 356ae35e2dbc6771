import LineTags.Tag.Insert
import LineTags.Text.WordChar

/-!
# The forms of a line

A line without its comment and the blanks around it has one of a few forms, told apart by how it starts: an include, a knot or stitch header, logic, a declaration, a divert, a choice, a gather, or plain narrative. This module reads the form; what the narrative part of a line holds is read elsewhere.
-/

namespace LineTags

open Text

inductive LineForm
  | empty
  | inclusion (name : Text)
  | knotHeader (name? : Option Text)
  | stitchHeader (name? : Option Text)
  | logic (name value : Text)
  | brokenDeclaration
  | divert (body : Text)
  | choice (body : Text)
  | gather (body : Text)
  | narrative (body : Text)
  deriving DecidableEq

namespace LineForm

/-- The names of knots and stitches: runs of ASCII letters and digits with single underscores between them. -/
def isContainerName (t : Text) : Bool :=
  (split '_' t).all fun s => !s.isEmpty && s.all Char.isAlphanum

/-- Drops a list of parameters in brackets, if the text starts with a complete one. -/
def dropParameters (t : Text) : Text :=
  match t with
  | '(' :: r =>
    match r.dropWhile (· != ')') with
    | ')' :: s => s
    | _ => t
  | _ => t

/-- Whether only parameters and, in a knot header, closing equals signs are left behind a name. -/
def endsHeader (isKnot : Bool) (t : Text) : Bool :=
  let r := stripStart (dropParameters (stripStart t))
  isBlankText (if isKnot then r.dropWhile (· == '=') else r)

/-- The shortest nonempty text without blanks at the start of `t` behind which the header ends; `taken` is the part before, last character first. -/
def headerWord? (isKnot : Bool) (taken : Text) : Text → Option Text
  | [] => none
  | c :: r =>
    if isBlank c then none
    else if endsHeader isKnot r then some (c :: taken).reverse
    else headerWord? isKnot (c :: taken) r

def functionWord : Text := ['f', 'u', 'n', 'c', 't', 'i', 'o', 'n']

/-- The word that names a knot, given the header behind its equals signs. The word for a function may stand before the name. -/
def knotWord? (t : Text) : Option Text :=
  let plain := headerWord? true [] t
  match after? functionWord t with
  | some (c :: r) => if isBlank c then (headerWord? true [] (stripStart r)).or plain else plain
  | _ => plain

def asContainerName? (word : Option Text) : Option Text := word.filter isContainerName

/-- The part of a text that follows a word and at least one blank. -/
def afterWord? (word t : Text) : Option Text :=
  match after? word t with
  | some (c :: r) => if isBlank c then some (stripStart r) else none
  | _ => none

def wordAtStart (t : Text) : Text := t.takeWhile isWordChar

/-- The value behind an assignment operator: `=` itself, or one of the arithmetic operators that end in it. -/
def afterOperator? (t : Text) : Option Text :=
  match t with
  | '=' :: r => some r
  | '+' :: '=' :: r | '-' :: '=' :: r | '*' :: '=' :: r | '/' :: '=' :: r => some r
  | _ => none

/-- Reads a variable, an operator and a nonempty value. -/
def assignment? (afterSign? : Text → Option Text) (t : Text) : Option (Text × Text) :=
  let name := wordAtStart t
  (afterSign? (stripStart (t.drop name.length))).bind fun r =>
    let value := strip r
    if name.isEmpty || value.isEmpty then none else some (name, value)

/-- Reads the body of a logic line. What is no assignment is a value without a name. -/
def ofLogic (body : Text) : LineForm :=
  let plain := assignment? afterOperator? body
  let found :=
    match afterWord? ['t', 'e', 'm', 'p'] body with
    | some r => (assignment? afterOperator? r).or plain
    | none => plain
  match found with
  | some (name, value) => logic name value
  | none => logic [] body

def declarationWords : List Text := [['V', 'A', 'R'], ['C', 'O', 'N', 'S', 'T'], ['T', 'E', 'M', 'P']]

def declaration? (t : Text) : Option (Text × Text) :=
  declarationWords.findSome? fun word =>
    (afterWord? word t).bind (assignment? fun r => after? ['='] r)

/-- Drops a label in brackets and the blanks behind it. -/
def dropLabel (t : Text) : Text :=
  match t with
  | '(' :: r =>
    let r := stripStart r
    match stripStart (r.dropWhile isWordChar), r.takeWhile isWordChar with
    | ')' :: s, _ :: _ => stripStart s
    | _, _ => t
  | _ => t

def isGatherMark (c : Char) : Bool := c == '-'

/-- What follows the marks of a gather. The last dash of a divert arrow is no mark of its own. -/
def afterGatherMarks (t : Text) : Text :=
  let r := t.drop (marksLength isGatherMark t)
  if r.head? = some '>' then '-' :: r else stripStart r

/-- The form of a line, given without comment and without blanks around it. -/
def ofCode (t : Text) : LineForm :=
  if t.isEmpty then empty
  else
    match (afterWord? "INCLUDE".toList t).filter (!·.isEmpty) with
    | some name => inclusion name
    | none =>
      if startsWith ['=', '='] t then knotHeader (asContainerName? (knotWord? (stripStart (t.dropWhile (· == '=')))))
      else if startsWith ['='] t then stitchHeader (asContainerName? (headerWord? false [] (stripStart (t.drop 1))))
      else if startsWith ['~'] t then ofLogic (strip (t.drop 1))
      else
        match declaration? t with
        | some (name, value) => logic name value
        | none =>
          if declarationWords.any fun word => startsWith (word ++ [' ']) t then brokenDeclaration
          else if startsWith ['-', '>'] t then divert t
          else if marksLength isChoiceMark t ≠ 0 then
            choice (dropLabel (stripStart (t.drop (marksLength isChoiceMark t))))
          else if marksLength isGatherMark t ≠ 0 then gather (dropLabel (afterGatherMarks t))
          else narrative t

end LineForm

end LineTags
