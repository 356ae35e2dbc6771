import LineTags.Tag.Comment

/-!
# Managed tags

A managed tag is `#id:` followed by an identifier: names of letters and digits, each with an underscore behind it, and a code of four letters or digits. The run of letters, digits and underscores behind `#id:` must be an identifier as a whole, or there is no managed tag at this place. Tags never overlap, so a line has a list of them, and the first is the one that counts. Letters and digits here are those of ASCII.
-/

namespace LineTags

open Text

def tagMark : Text := ['#', 'i', 'd', ':']

/-- The number of characters of the code that ends an identifier. -/
def codeLength : Nat := 4

def isIdentifierChar (c : Char) : Bool := c.isAlphanum || c == '_'

/-- Whether a text is an identifier: between its underscores stand nonempty runs of letters and digits, and the last run is a code. -/
def isIdentifier (t : Text) : Bool :=
  let segments := split '_' t
  segments.all (fun s => !s.isEmpty && s.all Char.isAlphanum) && (segments.getLast?.map List.length) == some codeLength

def formatTag (identifier : Text) : Text := tagMark ++ identifier

/-- What follows `#id:` in a text that starts with it. -/
def afterMark? : Text → Option Text
  | '#' :: 'i' :: 'd' :: ':' :: r => some r
  | _ => none

/-- The identifier of the managed tag at the start of a text. -/
def tagAtStart? (t : Text) : Option Text :=
  (afterMark? t).bind fun r =>
    let run := r.takeWhile isIdentifierChar
    if isIdentifier run then some run else none

/-- A managed tag on a line: its identifier and where it stands, `stop` excluded. -/
structure TagMatch where
  identifier : Text
  start : Nat
  stop : Nat
  deriving DecidableEq

def TagMatch.text (m : TagMatch) : Text := formatTag m.identifier

/-- The managed tags of a text whose first character has column `column`. -/
def tagsFrom (column : Nat) : Text → List TagMatch
  | [] => []
  | c :: r =>
    match tagAtStart? (c :: r) with
    | some identifier => ⟨identifier, column, column + tagMark.length + identifier.length⟩ :: tagsFrom (column + 1) r
    | none => tagsFrom (column + 1) r

def findTags (line : Text) : List TagMatch := tagsFrom 0 line

/-- A line with more than one managed tag, where only one is allowed. -/
structure MultipleTags where
  line : Text
  identifiers : List Text
  deriving DecidableEq

def MultipleTags.message (e : MultipleTags) : Text :=
  "More than one id tag on one line: ".toList ++ join [',', ' '] e.identifiers

def firstTag? (line : Text) : Option TagMatch := (findTags line).head?

/-- The only managed tag of a line, if it has one. -/
def onlyTag? (line : Text) : Except MultipleTags (Option TagMatch) :=
  match findTags line with
  | m :: n :: ms => .error ⟨line, (m :: n :: ms).map TagMatch.identifier⟩
  | ms => .ok ms.head?

/-- The first managed tag outside the comment. Its columns count from the start of the line, which the code starts too. -/
def codeTag? (line : Text) : Option TagMatch := firstTag? (codeOf line)

def onlyCodeTag? (line : Text) : Except MultipleTags (Option TagMatch) := onlyTag? (codeOf line)

/-- An identifier as a user types it, with or without `#id:` and blanks around. -/
def identifierOfInput? (typed : Text) : Option Text :=
  let t := strip typed
  let t := (after? tagMark t).getD t
  if isIdentifier t then some t else none

end LineTags
