import LineTags.Tag.Basic

/-!
# Repairing the space around tags

Typing can glue a tag to the word before or behind it. The repair puts a space before each `#id:` that has a character before it, and one behind a tag that a word follows. When letters were typed right behind the code, so that the whole run is no identifier any more, the run is cut behind the last code that an underscore starts.
-/

namespace LineTags

open Text

/-- Puts a space before `#id:` where no blank is. The character before and the mark are passed over together, so of two marks that touch only the first gets its space. -/
def spaceMarks : Text → Text
  | [] => []
  | c :: '#' :: 'i' :: 'd' :: ':' :: r =>
    if isBlank c then c :: spaceMarks ('#' :: 'i' :: 'd' :: ':' :: r)
    else c :: ' ' :: '#' :: 'i' :: 'd' :: ':' :: spaceMarks r
  | c :: r => c :: spaceMarks r

/-- The offset behind the last underscore that at least four letters or digits follow, counted with these four. -/
def lastCodeEnd? : Text → Option Nat
  | [] => none
  | c :: r =>
    match lastCodeEnd? r with
    | some n => some (n + 1)
    | none => if c = '_' ∧ codeLength ≤ (r.takeWhile Char.isAlphanum).length then some (codeLength + 1) else none

/-- Where the run behind `#id:` is cut, if it must be, given what follows it. A run that is an identifier is cut at its end, unless a blank, a slash, a closing bracket or nothing follows. A run without an underscore is read as if it had one in front. -/
def runCut? (run rest : Text) : Option Nat :=
  if isIdentifier run then
    match rest with
    | [] => none
    | c :: _ => if isBlank c || c == '/' || c == ']' then none else some run.length
  else
    let shift := if '_' ∈ run then 0 else 1
    (lastCodeEnd? (List.replicate shift '_' ++ run)).bind fun stop =>
      if stop - shift < run.length then some (stop - shift) else none

/-- How many characters behind the first one a space is due, if the text starts with a mark whose run is cut. -/
def spaceAhead? (t : Text) : Option Nat :=
  (afterMark? t).bind fun s =>
    (runCut? (s.takeWhile isIdentifierChar) (s.dropWhile isIdentifierChar)).map (· + (tagMark.length - 1))

/-- Puts a space where the run behind a mark is cut. A space is due behind the next `due` characters, none if `due` is zero; these belong to a mark and its run, so no mark starts among them. -/
def spaceRuns : Nat → Text → Text
  | _, [] => []
  | 0, c :: r => c :: spaceRuns ((spaceAhead? (c :: r)).getD 0) r
  | 1, c :: r => c :: ' ' :: spaceRuns 0 r
  | due + 2, c :: r => c :: spaceRuns (due + 1) r

def repairSpacing (line : Text) : Text := spaceRuns 0 (spaceMarks line)

end LineTags
