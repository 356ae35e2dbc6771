import LineTags.Keyed
import LineTags.Text.Quoted
import LineTags.Text.Utf8

/-!
# The disk

A disk is a list of entries, files with their bytes and folders, each under its list of names from the root. Programs name entries by path texts, seen from a working folder. A path is walked name by name, so every name before the last must be a folder that exists, even where a later step up leaves it again.
-/

namespace LineTags

/-- The reasons for which a disk refuses a path. -/
inductive Refusal
  | missing
  | taken
  | notFolder
  | isFolder
  | nameTooLong
  deriving DecidableEq

namespace Refusal

def number : Refusal → Nat
  | missing => 2
  | taken => 17
  | notFolder => 20
  | isFolder => 21
  | nameTooLong => 36

def reason : Refusal → Text
  | missing => "No such file or directory".toList
  | taken => "File exists".toList
  | notFolder => "Not a directory".toList
  | isFolder => "Is a directory".toList
  | nameTooLong => "File name too long".toList

end Refusal

/-- Why a file cannot be read or written: the disk refuses its path, its bytes are no text, or its name holds a null character. -/
inductive FileError
  | refused (refusal : Refusal) (path : Text)
  | undecodable (fault : Utf8Fault)
  | nullInName
  deriving DecidableEq

def FileError.message : FileError → Text
  | refused refusal path =>
    "[Errno ".toList ++ Text.ofInt refusal.number ++ "] ".toList ++ refusal.reason ++ ": ".toList ++ Text.quoted path
  | undecodable fault => fault.message
  | nullInName => "embedded null byte".toList

inductive DiskEntry
  | file (bytes : List UInt8)
  | folder
  deriving DecidableEq

/-- The entries of a disk by their names from the root, which is a folder itself. -/
structure Disk where
  entries : List (List Text × DiskEntry) := []
  deriving DecidableEq

namespace Disk

def entry? (d : Disk) (place : List Text) : Option DiskEntry :=
  if place.isEmpty then some .folder else d.entries.lookup place

def put (d : Disk) (place : List Text) (e : DiskEntry) : Disk := ⟨Keyed.put place e d.entries⟩

/-- The most bytes that a name may take. -/
def longestName : Nat := 255

/-- Walks names from a folder. The result is where the last name leads, and whether it has to be a folder because the path ends in a slash, a dot or a step up. -/
def walk (d : Disk) (place : List Text) : List Text → Except Refusal (List Text × Bool)
  | [] => .ok (place, true)
  | name :: r =>
    if name = [] ∨ name = ['.'] then walk d place r
    else if name = ['.', '.'] then walk d place.dropLast r
    else if longestName < name.toUtf8.length then .error .nameTooLong
    else if r.isEmpty then .ok (place ++ [name], false)
    else if r.all List.isEmpty then .ok (place ++ [name], true)
    else
      match d.entry? (place ++ [name]) with
      | some .folder => walk d (place ++ [name]) r
      | some (.file _) => .error .notFolder
      | none => .error .missing

/-- Where a path leads, seen from a working folder. -/
def locate (d : Disk) (workingFolder : List Text) (path : Text) : Except FileError (List Text × Bool) :=
  if path.isEmpty then .error (.refused .missing path)
  else if '\x00' ∈ path then .error .nullInName
  else
    let start := if path.head? = some '/' then [] else workingFolder
    (walk d start (Text.split '/' path)).mapError (FileError.refused · path)

/-- The entry at a path. A file does not answer to a path that asks for a folder. -/
def find? (d : Disk) (workingFolder : List Text) (path : Text) : Option DiskEntry :=
  match d.locate workingFolder path with
  | .ok (place, wantsFolder) => (d.entry? place).filter fun e => e = .folder ∨ !wantsFolder
  | .error _ => none

def isFile (d : Disk) (workingFolder : List Text) (path : Text) : Bool :=
  match d.find? workingFolder path with
  | some (.file _) => true
  | _ => false

def isFolder (d : Disk) (workingFolder : List Text) (path : Text) : Bool :=
  d.find? workingFolder path = some .folder

def readBytes (d : Disk) (workingFolder : List Text) (path : Text) : Except FileError (List UInt8) := do
  let (place, wantsFolder) ← d.locate workingFolder path
  match d.entry? place with
  | none => throw (.refused .missing path)
  | some .folder => throw (.refused .isFolder path)
  | some (.file bytes) => if wantsFolder then throw (.refused .notFolder path) else return bytes

def readText (d : Disk) (workingFolder : List Text) (path : Text) : Except FileError Text := do
  (Text.ofUtf8 (← d.readBytes workingFolder path)).mapError .undecodable

/-- Writes a file, in place of the one that may be there. -/
def writeBytes (d : Disk) (workingFolder : List Text) (path : Text) (bytes : List UInt8) : Except FileError Disk := do
  let (place, wantsFolder) ← d.locate workingFolder path
  match d.entry? place with
  | some .folder => throw (.refused .isFolder path)
  | some (.file _) => if wantsFolder then throw (.refused .notFolder path) else return d.put place (.file bytes)
  | none => if wantsFolder then throw (.refused .isFolder path) else return d.put place (.file bytes)

def writeText (d : Disk) (workingFolder : List Text) (path content : Text) : Except FileError Disk :=
  d.writeBytes workingFolder path content.toUtf8

/-- Makes a folder where nothing is yet. -/
def makeFolder (d : Disk) (workingFolder : List Text) (path : Text) : Except FileError Disk := do
  let (place, _) ← d.locate workingFolder path
  if (d.entry? place).isSome then throw (.refused .taken path) else return d.put place .folder

/-- Makes a folder unless it is there. -/
def ensureFolder (d : Disk) (workingFolder : List Text) (path : Text) : Except FileError Disk :=
  match d.makeFolder workingFolder path with
  | .ok d => .ok d
  | .error e => if d.isFolder workingFolder path then .ok d else .error e

end Disk

end LineTags
