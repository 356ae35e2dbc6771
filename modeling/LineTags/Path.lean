import LineTags.Text.Basic

/-!
# Paths

A path is a text of names between slashes. Scripts name their includes relative to their own folder, and a normal form decides whether two names mean the same script. The normal form works on the text alone: it never looks at a disk.
-/

namespace LineTags.Path

open Text

/-- The slashes that a normal path keeps in front: exactly two stay two, any other number is one. -/
def rootOf (p : Text) : Text :=
  match p with
  | '/' :: '/' :: '/' :: _ => ['/']
  | '/' :: '/' :: _ => ['/', '/']
  | '/' :: _ => ['/']
  | _ => []

/-- The names that are left when one more name is walked, newest first. A step up cancels the name before it; at the root it goes nowhere, and in front of a relative path it stays. -/
def walk (rooted : Bool) (walked : List Text) (name : Text) : List Text :=
  if name = [] ∨ name = ['.'] then walked
  else if name ≠ ['.', '.'] then name :: walked
  else
    match walked with
    | [] => if rooted then [] else [name]
    | last :: others => if last = ['.', '.'] then name :: walked else others

/-- The path without empty names, single dots and steps up that can be cancelled. -/
def normalize (p : Text) : Text :=
  let root := rootOf p
  let names := ((split '/' p).foldl (walk !root.isEmpty) []).reverse
  let normal := root ++ join ['/'] names
  if normal.isEmpty then ['.'] else normal

/-- A path seen from a folder; a path from the root stays as it is. -/
def append (folder p : Text) : Text :=
  if p.head? = some '/' then p
  else if folder.isEmpty || folder.getLast? == some '/' then folder ++ p
  else folder ++ '/' :: p

/-- The part behind the last slash. -/
def fileName (p : Text) : Text := (p.reverse.takeWhile (· != '/')).reverse

/-- The part before the last slash, with the slashes at its own end dropped unless it has nothing else. -/
def folder (p : Text) : Text :=
  let head := (p.reverse.dropWhile (· != '/')).reverse
  if head.all (· == '/') then head else (head.reverse.dropWhile (· == '/')).reverse

/-- The normal path from the root, for a path seen from the working folder. -/
def absolute (workingFolder p : Text) : Text := normalize (append workingFolder p)

/-- The names of a path, joined to a folder one by one. A slash in front of the names does not lead out of the folder. -/
def inside (folder names : Text) : Text := (split '/' names).foldl append folder

/-- The name of an included script, as the including script writes it, in normal form. -/
def included (fromFile written : Text) : Text := normalize (append (folder fromFile) written)

end LineTags.Path
