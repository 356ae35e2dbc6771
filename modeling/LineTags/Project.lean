import LineTags.Disk.Folders
import LineTags.Tag.Comment
import LineTags.Text.LineBreak
import LineTags.Story.Parser

/-!
# Projects

A project is a root script and every script it includes, directly or through others. The scripts are named from the folder of the root. Loading takes the bytes as they are, byte order marks apart, and finds the includes in any line that any system would see; it passes over an include that cannot be read. Saving writes the given scripts in turn and stops at the first that the disk refuses.
-/

namespace LineTags

open Text

/-- A disk with the folder that relative paths are seen from, given by its names. -/
structure Workplace where
  disk : Disk
  folder : List Text
  deriving DecidableEq

namespace Workplace

def folderPath (w : Workplace) : Text := '/' :: join ['/'] w.folder

def readText (w : Workplace) (path : Text) : Except FileError Text := w.disk.readText w.folder path

def isFile (w : Workplace) (path : Text) : Bool := w.disk.isFile w.folder path

def absolute (w : Workplace) (path : Text) : Text := Path.absolute w.folderPath path

/-- A bound for the number of scripts that includes can lead to. Each file counts many times, because includes may reach it under several names. -/
def reach (w : Workplace) : Nat := 64 * (w.disk.entries.length + 1)

end Workplace

structure Project where
  rootPath : Text
  files : List (Text × Text)
  deriving DecidableEq

namespace Project

def rootName (p : Project) : Text := Path.fileName p.rootPath

def rootFolder (w : Workplace) (p : Project) : Text := Path.folder (w.absolute p.rootPath)

def pathOf (w : Workplace) (p : Project) (name : Text) : Text := Path.inside (p.rootFolder w) name

def includeWord : Text := ['I', 'N', 'C', 'L', 'U', 'D', 'E']

/-- The name that an include line gives, blanks before the line allowed. -/
def includeIn? (line : Text) : Option Text :=
  match after? includeWord (stripStart (codeOf line)) with
  | some (c :: r) => if isBlank c && !isBlankText r then some (strip r) else none
  | _ => none

/-- The names that a script includes, in normal form. -/
def includesOf (name content : Text) : List Text :=
  (brokenLines content).filterMap fun line => (includeIn? line).map (Path.included name)

def loadScript (w : Workplace) (path : Text) : Except FileError Text := (w.readText path).map dropMarks

/-- Adds the scripts that `names` gives to those loaded, and to the queue of scripts to look through. -/
def loadIncludes (w : Workplace) : List Text → Project × List Text → Except FileError (Project × List Text)
  | [], r => .ok r
  | name :: names, (p, queue) =>
    if name ∈ Keyed.names p.files then loadIncludes w names (p, queue)
    else
      match loadScript w (p.pathOf w name) with
      | .ok content => loadIncludes w names ({ p with files := p.files ++ [(name, content)] }, queue ++ [name])
      | .error (.refused _ _) => loadIncludes w names (p, queue)
      | .error e => .error e

/-- Looks through the scripts in the queue, at most `reach` of them. -/
def loadQueue (w : Workplace) : Nat → Project → List Text → Except FileError Project
  | 0, p, _ => .ok p
  | _, p, [] => .ok p
  | reach + 1, p, name :: queue => do
    let content := (p.files.lookup name).getD []
    let (p, queue) ← loadIncludes w (includesOf name content) (p, queue)
    loadQueue w reach p queue

/-- Loads a root script and what it includes. Only the root has to be readable. -/
def load (w : Workplace) (rootPath : Text) : Except FileError Project := do
  let name := Path.fileName rootPath
  let content ← loadScript w rootPath
  loadQueue w w.reach ⟨rootPath, [(name, content)]⟩ [name]

/-- Writes scripts below a folder in turn, up to the first that fails. -/
def saveFiles (w : Workplace) (folder : Text) : List (Text × Text) → Workplace × Option FileError
  | [] => (w, none)
  | (name, content) :: r =>
    let path := Path.inside folder name
    let above := Path.folder path
    match (w.disk.makeFolders w.folder (if above.isEmpty then ['.'] else above)).write w.folder path content with
    | (disk, none) => saveFiles { w with disk } folder r
    | (disk, some e) => ({ w with disk }, some e)

def save (w : Workplace) (p : Project) (pairs : List (Text × Text)) : Workplace × Option FileError :=
  saveFiles w (p.rootFolder w) pairs

/-- The library that a story parsed in this project reads its includes from: the given texts first, then the folder of the root. A file from the disk is read with every kind of newline as one. -/
def libraryIn (w : Workplace) (rootFolder : Text) (files : List (Text × Text)) : Library where
  files := files
  onDisk? name :=
    match w.readText (Path.inside rootFolder name) with
    | .ok t => some (.ok (unifyNewlines t))
    | .error (.refused _ _) => none
    | .error e => some (.error e)
  stored := w.reach

/-- Parses the root script. -/
def parse (w : Workplace) (p : Project) : Except ParseFailure Story :=
  Story.parse (libraryIn w (p.rootFolder w) p.files) p.rootName ((p.files.lookup p.rootName).getD [])

end Project

end LineTags
