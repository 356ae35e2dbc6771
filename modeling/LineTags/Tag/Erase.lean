import LineTags.Tag.Basic

/-!
# Taking tags away

Hiding the tag of a line takes one space before it away too, so that adding the tag again gives the line back. Cleaning a pasted text takes every managed tag outside the comments away.
-/

namespace LineTags

open Text

/-- The line without a tag it carries and without the space before that tag. -/
def TagMatch.eraseFrom (m : TagMatch) (line : Text) : Text :=
  let before := line.take m.start
  let kept := if before.getLast? = some ' ' then before.dropLast else before
  kept ++ line.drop m.stop

/-- The line without the given tag; without one, the first tag of the code goes. -/
def eraseTag (line : Text) (tag? : Option TagMatch) : Text :=
  match tag?.or (codeTag? line) with
  | some m => m.eraseFrom line
  | none => line

/-- The line without the tag that counts. -/
def hideTag (line : Text) : Text := eraseTag line none

/-- The tag at the start of a text, counted with the space that may stand before it: how many characters it takes. -/
def spacedTagLength? (t : Text) : Option Nat :=
  match t with
  | ' ' :: r => (tagAtStart? r).map fun identifier => 1 + tagMark.length + identifier.length
  | r => (tagAtStart? r).map fun identifier => tagMark.length + identifier.length

/-- Copies a text without its tags and the space before each; the first `pending` characters belong to a tag already found. -/
def eraseTagsAfter : Nat → Text → Text
  | _, [] => []
  | pending + 1, _ :: r => eraseTagsAfter pending r
  | 0, c :: r =>
    match spacedTagLength? (c :: r) with
    | some n => eraseTagsAfter (n - 1) r
    | none => c :: eraseTagsAfter 0 r

def eraseCodeTags (line : Text) : Text := eraseTagsAfter 0 (codeOf line) ++ commentOf line

/-- The text without the managed tags outside its comments. -/
def eraseTags (t : Text) : Text := unlines ((lines t).map eraseCodeTags)

end LineTags
