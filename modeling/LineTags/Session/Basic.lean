import LineTags.Buffer.Tracker
import LineTags.Minting.Generation
import LineTags.Keyed

/-!
# Sessions

A session is what the tagging engine knows of an open project: the text of every file as it was last read or closed, the files that are open in a buffer with their trackers, the one that is active, and identifiers that wait for a file to become active. Every question about the identifiers of an open file also tidies its tracker, so such questions give a new session beside their answer.
-/

namespace LineTags

open Text

/-- A new identifier that waits, with the text its line had when the identifier was made for it. -/
structure StagedEdit where
  edit : IdEdit
  lineText : Text
  deriving DecidableEq

structure Session (β : Type) where
  files : List (Text × Text) := []
  documents : List (Text × Tracker β) := []
  active : Option Text := none
  staged : List (Text × List StagedEdit) := []
  mode : ExtractionMode := {}

namespace Session

variable {β : Type} [LineBuffer β]

def ofFiles (files : List (Text × Text)) (mode : ExtractionMode) : Session β := { files := Keyed.ofList files, mode }

def document? (s : Session β) (file : Text) : Option (Tracker β) := s.documents.lookup file

def isOpen (s : Session β) (file : Text) : Bool := (s.document? file).isSome

def putDocument (s : Session β) (file : Text) (t : Tracker β) : Session β :=
  { s with documents := Keyed.put file t s.documents }

/-- The text of a file that is not open; a file that is not known is empty. -/
def stored (s : Session β) (file : Text) : Text := (s.files.lookup file).getD []

def activeDocument? (s : Session β) : Option (Text × Tracker β) :=
  s.active.bind fun file => (s.document? file).map fun t => (file, t)

/-! ## Applying identifiers -/

/-- Binds a new identifier, if its line still reads as expected and carries none. -/
def applyEdit (s : Session β) (file : Text) (e : IdEdit) (expected : Text) : Bool × Session β :=
  match s.document? file with
  | none => (false, s)
  | some t =>
    if LineBuffer.line? t.buffer e.line ≠ some expected then (false, s)
    else if (t.identifierAt? e.line).isSome then (false, s.putDocument file t.tidy)
    else
      let (done, t) := t.tidy.bind e.line e.identifier
      (done, s.putDocument file t)

/-- Keeps a new identifier for later, unless one waits for the same line with the same text. -/
def stage (s : Session β) (e : IdEdit) (lineText : Text) : Bool × Session β :=
  match e.file with
  | none => (false, s)
  | some file =>
    let waiting := (s.staged.lookup file).getD []
    if waiting.any fun w => w.edit.line = e.line ∧ w.lineText = lineText then
      (false, s)
    else (true, { s with staged := Keyed.put file (waiting ++ [⟨e, lineText⟩]) s.staged })

/-- Binds what waits for a file; what does not fit any more is dropped. -/
def applyStaged (s : Session β) (file : Text) : Session β :=
  let waiting := (s.staged.lookup file).getD []
  waiting.foldl (fun s w => (s.applyEdit file w.edit w.lineText).2) { s with staged := Keyed.remove file s.staged }

/-! ## Documents -/

/-- The tracker that a file is opened into: the one it has, on a new buffer if one is given. -/
def trackerFor (s : Session β) (file : Text) (buffer? : Option β) : Tracker β :=
  match s.document? file, buffer? with
  | some t, none => t
  | _, some buffer => { buffer, file }
  | none, none => { buffer := LineBuffer.fresh, file }

/-- Opens a file, with a new content if one is given. If the content is refused, the session has already taken it as the content of the file, and the document is there but was not filled. -/
def openDocument (s : Session β) (file : Text) (content? : Option Text) (buffer? : Option β) :
    Except MultipleTags Unit × Session β :=
  let content := content?.getD (s.stored file)
  let t := s.trackerFor file buffer?
  let s := { s.putDocument file t with files := Keyed.put file content s.files }
  match Extraction.ofScript s.mode content with
  | .error e => (.error e, s)
  | .ok extraction =>
    let s := s.putDocument file (t.load file extraction)
    (.ok (), applyStaged { s with active := s.active.or (some file) } file)

/-- Closes a file; what its document held becomes its stored text. -/
def closeDocument (s : Session β) (file : Text) : Session β :=
  match s.document? file with
  | none => s
  | some t =>
    { s with
      documents := Keyed.remove file s.documents
      files := Keyed.put file t.fullContent s.files
      active := if s.active = some file then none else s.active }

/-- Makes a file the active one, opening it if it is not open. -/
def setActive (s : Session β) (file : Text) : Except MultipleTags Unit × Session β :=
  match if s.isOpen file then (.ok (), s) else s.openDocument file none none with
  | (.error e, s) => (.error e, s)
  | (.ok (), s) => (.ok (), applyStaged { s with active := some file } file)

/-- Forgets the project. -/
def clear (s : Session β) : Session β := { mode := s.mode }

/-! ## Content -/

/-- Tidies the trackers of all open files. -/
def tidy (s : Session β) : Session β := { s with documents := s.documents.map fun (file, t) => (file, t.tidy) }

def tidyFile (s : Session β) (file : Text) : Session β := { s with documents := Keyed.update file Tracker.tidy s.documents }

def cleanContent (s : Session β) (file : Text) : Text :=
  match s.document? file with
  | some t => t.text
  | none => (extract (s.stored file)).clean

def fullContent (s : Session β) (file : Text) : Text :=
  match s.document? file with
  | some t => t.fullContent
  | none => s.stored file

/-- Every file with its tags, those open from their buffers. Taking it tidies all trackers. -/
def projectFiles (s : Session β) : List (Text × Text) :=
  s.documents.foldl (fun files (file, t) => Keyed.put file t.fullContent files) s.files

/-! ## Identifiers -/

/-- The identifiers of one file, from its document or from its text. -/
def idsOf (s : Session β) (file : Text) : List LineId :=
  match s.document? file with
  | some t => t.associations
  | none => (extract (s.stored file)).ids

/-- Every file, by code points. -/
def fileNames (s : Session β) : List Text := sortedSet (Keyed.names s.files ++ Keyed.names s.documents)

/-- Every tagged line: files by code points, lines in order. -/
def taggedLines (s : Session β) : List (Text × LineId) := s.fileNames.flatMap fun file => (s.idsOf file).map (file, ·)

/-- The identifiers in use: on the lines of files, open or not, and waiting. -/
def existingIds (s : Session β) : List Text :=
  (s.files.filter fun f => !s.isOpen f.1).flatMap (fun f => idsIn f.2)
    ++ s.documents.flatMap (fun d => d.2.identifiers)
    ++ s.staged.flatMap fun w => w.2.map (·.edit.identifier)

/-- The places of each identifier, in the order of the first sightings. -/
def placesById (s : Session β) : List (Text × List (Text × Int)) :=
  s.taggedLines.foldl (fun places (file, a) =>
    Keyed.put a.identifier ((places.lookup a.identifier).getD [] ++ [(file, a.line)]) places) []

/-- The identifiers on more than one line. -/
def duplicates (s : Session β) : List (Text × List (Text × Int)) := s.placesById.filter fun p => 1 < p.2.length

/-- Looks for an identifier file by file. The files up to the one that has it are tidied. -/
def locateIn (identifier : Text) : List Text → Session β → Option (Text × Int) × Session β
  | [], s => (none, s)
  | file :: files, s =>
    match (s.idsOf file).find? (·.identifier == identifier) with
    | some a => (some (file, a.line), s.tidyFile file)
    | none => locateIn identifier files (s.tidyFile file)

/-- The first line that carries an identifier. -/
def locate (s : Session β) (identifier : Text) : Option (Text × Int) × Session β := locateIn identifier s.fileNames s

/-! ## Snapshots -/

/-- The lines of a file as they read right now, without tags. -/
def linesOf (s : Session β) (file : Text) : List Text :=
  match s.document? file with
  | some t => lines t.text
  | none => (lines (s.stored file)).map hideTag

def snapshot (s : Session β) (files : List Text) : List (Text × List Text) := Keyed.ofList (files.map fun file => (file, s.linesOf file))

end Session

end LineTags
