import LineTags.Disk.Basic
import LineTags.Path

/-!
# Making room for a file

Before a file is written its folder is made, with all folders above it. There are two ways to go about it, which differ in what they report when a file is in the way: one looks for the folder above before it makes a folder, the other makes the folder and turns to the one above only when that is missing. What was made before a failure stays.
-/

namespace LineTags.Disk

/-- A disk after an attempt to change it, and the error if the attempt failed. -/
abbrev Attempt := Disk × Option FileError

def attempt (d : Disk) (r : Except FileError Disk) : Attempt :=
  match r with
  | .ok d => (d, none)
  | .error e => (d, some e)

/-- Makes the folders of a path from the top down, at most `levels` of them. -/
def makeFoldersDown (workingFolder : List Text) : Nat → Disk → Text → Attempt
  | 0, d, _ => (d, none)
  | levels + 1, d, path =>
    let path := if (Path.fileName path).isEmpty then Path.folder path else path
    let above := Path.folder path
    if above.isEmpty ∨ (Path.fileName path).isEmpty ∨ (d.find? workingFolder above).isSome then
      d.attempt (d.ensureFolder workingFolder path)
    else
      match makeFoldersDown workingFolder levels d above with
      | (d, none) | (d, some (.refused .taken _)) =>
        if Path.fileName path = ['.'] then (d, none) else d.attempt (d.ensureFolder workingFolder path)
      | (d, some e) => (d, some e)

/-- Makes a folder and those above it, each after a look at the one above. -/
def makeFolders (d : Disk) (workingFolder : List Text) (path : Text) : Attempt :=
  makeFoldersDown workingFolder (path.length + 1) d path

/-- Makes a folder; when the one above is missing, makes that one first, at most `levels` times. -/
def makeFoldersUp (workingFolder : List Text) : Nat → Disk → Text → Attempt
  | 0, d, _ => (d, none)
  | levels + 1, d, path =>
    match d.makeFolder workingFolder path with
    | .ok d => (d, none)
    | .error (.refused .missing p) =>
      let above := Path.folder path
      if above.isEmpty ∨ above = path then (d, some (.refused .missing p))
      else
        match makeFoldersUp workingFolder levels d above with
        | (d, none) => d.attempt (d.ensureFolder workingFolder path)
        | (d, some e) => (d, some e)
    | .error e => if d.isFolder workingFolder path then (d, none) else (d, some e)

/-- Makes a folder and those above it that turn out to be missing. -/
def makeMissingFolders (d : Disk) (workingFolder : List Text) (path : Text) : Attempt :=
  makeFoldersUp workingFolder (path.length + 1) d path

/-- Writes a file after an attempt that may have failed already. -/
def Attempt.write (a : Attempt) (workingFolder : List Text) (path content : Text) : Attempt :=
  match a with
  | (d, none) => d.attempt (d.writeText workingFolder path content)
  | failed => failed

end LineTags.Disk
