import LineTags.Tag.Erase
import LineTags.Tag.Insert
import LineTags.Tag.Spacing

/-!
# Taking a script apart and putting it together

A script on disk carries its tags in the text. Taken apart it is a clean text, which has the same lines without their tags, and a list that tells which line had which identifier. Put together again, each listed line gets its tag back, once.
-/

namespace LineTags

open Text

/-- An identifier and the line that carries it, counted from one. A number that no line has is allowed and means no line. -/
structure LineId where
  line : Int
  identifier : Text
  deriving DecidableEq

structure Extraction where
  clean : Text
  ids : List LineId
  deriving DecidableEq

/-- How a script is taken apart: with the spacing of its tags repaired first, and with a second tag on a line refused. -/
structure ExtractionMode where
  repair : Bool := false
  strict : Bool := false
  deriving DecidableEq

/-- The line with the spacing in its code repaired. -/
def repairLine (line : Text) : Text := repairSpacing (codeOf line) ++ commentOf line

namespace Extraction

/-- A line taken apart: what is left of it, and the identifier it had. -/
def ofLine (mode : ExtractionMode) (line : Text) : Except MultipleTags (Text × Option Text) := do
  let line := if mode.repair then repairLine line else line
  let tag? ← if mode.strict then onlyCodeTag? line else .ok (codeTag? line)
  return match tag? with
    | some m => (m.eraseFrom line, some m.identifier)
    | none => (line, none)

/-- The identifiers of the lines from line `number` on, with their lines. -/
def numbered (number : Nat) : List (Text × Option Text) → List LineId
  | [] => []
  | (_, some identifier) :: r => ⟨number, identifier⟩ :: numbered (number + 1) r
  | (_, none) :: r => numbered (number + 1) r

/-- Takes a script apart. The first line that is refused refuses the script. -/
def ofScript (mode : ExtractionMode) (script : Text) : Except MultipleTags Extraction := do
  let parts ← (lines script).mapM (ofLine mode)
  return ⟨unlines (parts.map Prod.fst), numbered 1 parts⟩

end Extraction

/-- A script taken apart as it is: nothing is repaired and nothing refused. -/
def extract (script : Text) : Extraction :=
  let parts := (lines script).map fun line =>
    match codeTag? line with
    | some m => (m.eraseFrom line, some m.identifier)
    | none => (line, none)
  ⟨unlines (parts.map Prod.fst), Extraction.numbered 1 parts⟩

/-- Whether a line takes a tag: it has code, and no managed tag in it. -/
def takesTag (line : Text) : Bool := (codeTag? line).isNone && !hasNoCode line

/-- The script with the tags of a list. The first entry for a line decides; later ones, and those for lines that do not exist or take no tag, are passed over. -/
def reconstruct (clean : Text) (ids : List LineId) : Text :=
  unlines ((lines clean).mapIdx fun i line =>
    match ids.find? (·.line == (i : Int) + 1) with
    | some entry => if takesTag line then insertTag line entry.identifier else line
    | none => line)

/-- The identifiers that a script carries, in the order of its lines. -/
def idsIn (script : Text) : List Text := (lines script).filterMap fun line => (codeTag? line).map TagMatch.identifier

end LineTags
