import LineTags.Story.Inline
import LineTags.Story.LineForm
import LineTags.Path
import LineTags.Disk.Basic

/-!
# From scripts to stories

A file is read line by line. What a line holds belongs to the stitch that was opened last, or to the knot, or, before the first knot, to whatever the file itself stands for: the story or the include that named it. An included file is read where it is named, the first time it is named; it always hangs on the including file itself and never inside a knot. Knots are unique over all files of a story, stitches within their knot.

Includes nest, so the reader recurses. A file that was read before is not read again, and there are only so many names to read; the number of files a library can still give bounds the recursion.
-/

namespace LineTags

open Text

/-- What can be wrong with a script. -/
inductive ParseFault
  | stitchOutsideKnot
  | invalidKnotName
  | duplicateKnot (name : Text)
  | invalidStitchName
  | duplicateStitch (knot name : Text)
  | invalidDeclaration
  | includeNotFound (name : Text)
  | missingBrace
  | missingBracket
  deriving DecidableEq

def ParseFault.message : ParseFault → Text
  | stitchOutsideKnot => "Stitch defined outside of a knot.".toList
  | invalidKnotName => "Invalid knot name.".toList
  | duplicateKnot name => "Duplicate knot name: ".toList ++ name
  | invalidStitchName => "Invalid stitch name.".toList
  | duplicateStitch knot name => "Duplicate stitch name: ".toList ++ knot ++ '.' :: name
  | invalidDeclaration => "Invalid variable declaration.".toList
  | includeNotFound name => "Included file not found: ".toList ++ name
  | missingBrace => "Missing closing '\x7d'.".toList
  | missingBracket => "Missing closing ']' in choice.".toList

/-- A message with the place it is about in front. No file, an empty file name and line zero are not shown. -/
def locatedMessage (file : Option Text) (line : Int) (message : Text) : Text :=
  let inFile := match file with
    | some (c :: r) => '\'' :: c :: r ++ ['\'', ' ']
    | _ => []
  let atLine := if line = 0 then [] else "line ".toList ++ Text.ofInt line ++ [':', ' ']
  inFile ++ atLine ++ message

structure ParseError where
  fault : ParseFault
  file : Text
  line : Nat
  deriving DecidableEq

def ParseError.message (e : ParseError) : Text := locatedMessage (some e.file) e.line e.fault.message

/-- Why a script gives no story: it breaks a rule, or a file it includes is there but cannot be read as text. -/
inductive ParseFailure
  | rejected (e : ParseError)
  | unreadable (e : FileError)
  deriving DecidableEq

/-- The scripts that can be included: texts by name, and possibly files on a disk, which are asked second. At most `stored` includes may nest through the disk. -/
structure Library where
  files : List (Text × Text) := []
  onDisk? : Text → Option (Except FileError Text) := fun _ => none
  stored : Nat := 0

namespace Library

def find? (library : Library) (name : Text) : Option (Except FileError Text) :=
  match library.files.lookup name with
  | some t => some (.ok t)
  | none => library.onDisk? name

/-- How deep includes can nest: each level reads another file. -/
def depth (library : Library) : Nat := library.files.length + library.stored + 1

end Library

namespace StoryReader

structure OpenStitch where
  name : Text
  place : Place
  content : List Node

structure OpenKnot where
  name : Text
  place : Place
  content : List Node
  stitch : Option OpenStitch

/-- What has been read of a file: the nodes before the open knot, that knot, and the includes named since it was opened. -/
structure Page where
  before : List Node := []
  knot : Option OpenKnot := none
  after : List Node := []

/-- What has been read of the whole story. -/
structure Progress where
  fileNames : List Text
  knots : List (Text × Place)

def Progress.knotNames (p : Progress) : List Text := p.knots.map Prod.fst

def OpenStitch.node (s : OpenStitch) : Node := .branch (.container ⟨.stitch, s.name⟩) (some s.place) s.content

/-- The knot with its open stitch put in its place. -/
def OpenKnot.close (k : OpenKnot) : OpenKnot :=
  match k.stitch with
  | some s => { k with content := k.content ++ [s.node], stitch := none }
  | none => k

def OpenKnot.node (k : OpenKnot) : Node := .branch (.container ⟨.knot, k.name⟩) (some k.place) k.close.content

namespace Page

def nodes (p : Page) : List Node := p.before ++ (p.knot.map OpenKnot.node).toList ++ p.after

/-- Adds a node to the stitch, the knot or the file that the next line belongs to. -/
def add (p : Page) (n : Node) : Page :=
  match p.knot with
  | none => { p with before := p.before ++ [n] }
  | some k =>
    match k.stitch with
    | none => { p with knot := some { k with content := k.content ++ [n] } }
    | some s => { p with knot := some { k with stitch := some { s with content := s.content ++ [n] } } }

/-- Adds an included file, which belongs to no knot. -/
def addInclude (p : Page) (n : Node) : Page :=
  match p.knot with
  | none => { p with before := p.before ++ [n] }
  | some _ => { p with after := p.after ++ [n] }

def openKnot (p : Page) (name : Text) (place : Place) : Page :=
  { before := p.nodes, knot := some ⟨name, place, [], none⟩, after := [] }

def openStitch (p : Page) (k : OpenKnot) (name : Text) (place : Place) : Page :=
  { p with knot := some { k.close with stitch := some ⟨name, place, []⟩ } }

end Page

/-- The names of the stitches that a knot has so far. -/
def OpenKnot.stitchNames (k : OpenKnot) : List Text := k.close.content.filterMap Node.containerName?

abbrev Outcome := Except ParseFailure

def reject {α : Type} (fault : ParseFault) (file : Text) (line : Nat) : Outcome α := .error (.rejected ⟨fault, file, line⟩)

/-- A line whose narrative part becomes a branch of its own. -/
def readBranch (page : Page) (file : Text) (line : Nat) (role : Role) (state : BracketState) (body : Text) :
    Outcome Page :=
  let place : Place := ⟨some file, line⟩
  match readInline state place body with
  | .ok nodes => .ok (page.add (.branch role (some place) nodes))
  | .error .openBrace => reject .missingBrace file line
  | .error .openBracket => reject .missingBracket file line

/-- Reads one line; `readFile` reads an included file. -/
def readLine (library : Library) (readFile : Text → Text → Progress → Outcome (List Node × Progress)) (file : Text)
    (line : Nat) (form : LineForm) (page : Page) (progress : Progress) : Outcome (Page × Progress) := do
  let place : Place := ⟨some file, line⟩
  match form with
  | .empty => return (page, progress)
  | .inclusion written =>
    let name := Path.included file written
    if name ∈ progress.fileNames then return (page, progress)
    match library.find? name with
    | none => reject (.includeNotFound written) file line
    | some (.error fault) => .error (.unreadable fault)
    | some (.ok t) =>
      let (nodes, progress) ← readFile name t progress
      return (page.addInclude (.branch (.inclusion name) (some place) nodes), progress)
  | .knotHeader none => reject .invalidKnotName file line
  | .knotHeader (some name) =>
    if name ∈ progress.knotNames then reject (.duplicateKnot name) file line
    else return (page.openKnot name place, { progress with knots := progress.knots ++ [(name, place)] })
  | .stitchHeader name? =>
    match page.knot, name? with
    | none, _ => reject .stitchOutsideKnot file line
    | some _, none => reject .invalidStitchName file line
    | some k, some name =>
      if name ∈ k.stitchNames then reject (.duplicateStitch k.name name) file line
      else return (page.openStitch k name place, progress)
  | .logic name value =>
    return (page.add (.branch (.assignment name) (some place) [.text value (some place)]), progress)
  | .brokenDeclaration => reject .invalidDeclaration file line
  | .divert body => return (← readBranch page file line (.divert []) .notAllowed body, progress)
  | .choice body => return (← readBranch page file line .choice .awaited body, progress)
  | .gather body => return (← readBranch page file line .gather .notAllowed body, progress)
  | .narrative body => return (← readBranch page file line .line .notAllowed body, progress)

/-- Reads the lines of a file from line `line` on. -/
def readLines (library : Library) (readFile : Text → Text → Progress → Outcome (List Node × Progress)) (file : Text) :
    Nat → List Text → Page → Progress → Outcome (Page × Progress)
  | _, [], page, progress => .ok (page, progress)
  | line, l :: ls, page, progress => do
    let (page, progress) ← readLine library readFile file line (.ofCode (strip (codeOf l))) page progress
    readLines library readFile file (line + 1) ls page progress

/-- Reads a file, with as many levels of includes below it as `depth` says. -/
def readFile (library : Library) : Nat → Text → Text → Progress → Outcome (List Node × Progress)
  | 0, _, _, progress => .ok ([], progress)
  | depth + 1, file, t, progress => do
    let progress := { progress with fileNames := progress.fileNames ++ [file] }
    let (page, progress) ← readLines library (readFile library depth) file 1 (lines (dropMarks t)) {} progress
    return (page.nodes, progress)

end StoryReader

/-- Reads a story from the text of its root file. -/
def Story.parse (library : Library) (file t : Text) : Except ParseFailure Story := do
  let (nodes, progress) ← StoryReader.readFile library library.depth file t ⟨[], []⟩
  return ⟨.branch .story (some ⟨some file, 1⟩) nodes, progress.fileNames, progress.knots⟩

end LineTags
