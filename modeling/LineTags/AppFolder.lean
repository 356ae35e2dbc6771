import LineTags.Path

/-!
# Where a user's files are kept

Settings and the chosen language live in a folder of the application, below the place that the system reserves for such data. Each system has its own place, which an environment variable may override on some.
-/

namespace LineTags

open Text

/-- A path as a root and names: single dots and doubled slashes are gone, steps up stay. -/
structure PlainPath where
  root : Text
  names : List Text
  deriving DecidableEq

namespace PlainPath

def ofText (t : Text) : PlainPath := ⟨Path.rootOf t, (split '/' t).filter fun n => n ≠ [] ∧ n ≠ ['.']⟩

/-- The second path seen from the first; a path from the root stays as it is. -/
def append (p q : PlainPath) : PlainPath := if q.root.isEmpty then ⟨p.root, p.names ++ q.names⟩ else q

def toText (p : PlainPath) : Text :=
  let t := p.root ++ join ['/'] p.names
  if t.isEmpty then ['.'] else t

end PlainPath

/-- The system a program runs on, the home folder of its user, and the environment variables that are set. -/
structure Surroundings where
  platform : Text
  home : PlainPath
  environment : List (Text × Text)
  deriving DecidableEq

/-- Why the surroundings cannot be made out. -/
inductive SurroundingsError
  | noHome
  deriving DecidableEq

def SurroundingsError.message : SurroundingsError → Text
  | noHome => "Could not determine home directory.".toList

namespace Surroundings

/-- The home folder that an environment names, with the slashes at its end dropped; the one of the administrator where it names none. A folder that starts with a tilde is itself named by a home folder, so there is none. -/
def homeIn? (environment : List (Text × Text)) : Option PlainPath :=
  let t := ((environment.lookup "HOME".toList).getD "/root".toList).reverse.dropWhile (· == '/')
  if startsWith ['~'] t.reverse then none
  else some (.ofText (if t.isEmpty then ['/'] else t.reverse))

/-- The surroundings on a platform in an environment. -/
def find (platform : Text) (environment : List (Text × Text)) : Except SurroundingsError Surroundings :=
  match homeIn? environment with
  | some home => .ok ⟨platform, home, environment⟩
  | none => .error .noHome

def setting? (s : Surroundings) (name : String) : Option Text := s.environment.lookup name.toList

def below (p : PlainPath) (names : List String) : PlainPath := ⟨p.root, p.names ++ names.map String.toList⟩

/-- The folder of the application. -/
def appFolder (s : Surroundings) : PlainPath :=
  let base :=
    if startsWith "win".toList s.platform then
      ((s.setting? "APPDATA").map PlainPath.ofText).getD (below s.home ["AppData", "Roaming"])
    else if s.platform = "darwin".toList then below s.home ["Library", "Application Support"]
    else ((s.setting? "XDG_DATA_HOME").map PlainPath.ofText).getD (below s.home [".local", "share"])
  below base ["BranchingLineIds"]

def languageFile (s : Surroundings) (name : Text) : PlainPath := s.appFolder.append (.ofText name)

def settingsFile (s : Surroundings) : PlainPath := below s.appFolder ["settings.json"]

end Surroundings

end LineTags
