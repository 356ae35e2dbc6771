import LineTags.Json.Reader
import LineTags.Json.Writer
import LineTags.Text.Digit
import LineTags.Disk.Folders

/-!
# Settings

Settings say how long to wait after an edit, how often to draw, and how strictly to read; they list the projects opened last, and what is set differently for single projects. A settings file may hold anything. What it does not say, or says in a wrong form, gets its default; numbers are brought into their range. A few things are not forgiven: a number that is infinite, and in the file a whole number with too many digits and data that nests too deep.
-/

namespace LineTags

structure Settings where
  /-- In milliseconds. -/
  debounce : Int := 500
  maxAttempts : Int := 100
  repair : Bool := false
  strict : Bool := false
  /-- The projects opened last, the latest first. -/
  recent : List Text := []
  /-- What is set differently for single projects, by path. -/
  projects : List (Text × List (Text × Json)) := []
  deriving BEq

/-- Why a value cannot be used. -/
inductive SettingsError
  | notWhole (t : Text)
  | tooManyDigits (count : Nat)
  | tooDeep (inObject : Bool)
  | notNumber
  | infinite
  | notPair (index count : Nat)
  | wrongType
  | noSuchPart
  deriving DecidableEq

namespace SettingsError

/-- The message of an error. Of a text that is no number, its quoted form is shown as far as 200 characters. -/
def message : SettingsError → Option Text
  | notWhole t => some ("invalid literal for int() with base 10: ".toList ++ (Text.quoted t).take 200)
  | tooManyDigits count =>
    some ("Exceeds the limit (".toList ++ Text.ofInt Text.mostDigits
      ++ " digits) for integer string conversion: value has ".toList ++ Text.ofInt count
      ++ " digits; use sys.set_int_max_str_digits() to increase the limit".toList)
  | tooDeep inObject =>
    some ("maximum recursion depth exceeded while decoding a JSON ".toList
      ++ (if inObject then "object" else "array").toList ++ " from a unicode string".toList)
  | notNumber => some "cannot convert float NaN to integer".toList
  | infinite => some "cannot convert float infinity to integer".toList
  | notPair index count =>
    some ("dictionary update sequence element #".toList ++ Text.ofInt index ++ " has length ".toList
      ++ Text.ofInt count ++ "; 2 is required".toList)
  | wrongType | noSuchPart => none

end SettingsError

/-- A value as a whole number. Truth values count as one and zero, texts are read, other numbers lose their fraction. -/
def Json.toWhole : Json → Except SettingsError Int
  | .bool b => .ok (if b then 1 else 0)
  | .int n => .ok n
  | .float x =>
    match Decimal.truncate? x with
    | some n => .ok n
    | none => .error (if x.isNaN then .notNumber else .infinite)
  | .string t =>
    match Text.excessDigits? t, Text.toInt? t with
    | some count, _ => .error (.tooManyDigits count)
    | none, some n => .ok n
    | none, none => .error (.notWhole t)
  | _ => .error .wrongType

namespace Settings

def longestWait : Int := 10000
def mostAttempts : Int := 10000
def mostRecent : Nat := 10

def between (lowest highest n : Int) : Int := max lowest (min highest n)

/-- A number setting: its default stands in for what is missing or no number. -/
def readNumber (value? : Option Json) (standard : Int) : Except SettingsError Int :=
  match value?.map Json.toWhole with
  | none => .ok standard
  | some (.ok n) => .ok n
  | some (.error .infinite) => .error .infinite
  | some (.error _) => .ok standard

def readFlag (value? : Option Json) : Bool := (value?.map Json.isTruthy).getD false

/-- The settings that a data value gives. -/
def ofJson : Json → Except SettingsError Settings
  | .object fields => do
    let get (name : String) : Option Json := fields.lookup name.toList
    let debounce ← readNumber (get "debounce_ms") 500
    let maxAttempts ← readNumber (get "max_attempts") 100
    return {
      debounce := between 0 longestWait debounce
      maxAttempts := between 1 mostAttempts maxAttempts
      repair := readFlag (get "repair_tag_spacing")
      strict := readFlag (get "strict_tags")
      recent := match get "recent_projects" with
        | some (.array items) => (items.map Json.display).take mostRecent
        | _ => []
      projects := match get "project_settings" with
        | some (.object projects) => projects.filterMap fun
          | (path, .object own) => some (path, own)
          | _ => none
        | _ => [] }
  | _ => .ok {}

/-- The names of the settings and their values, in the order in which they are written. -/
def toFields (s : Settings) : List (Text × Json) :=
  [("debounce_ms".toList, .int s.debounce), ("max_attempts".toList, .int s.maxAttempts),
   ("repair_tag_spacing".toList, .bool s.repair), ("strict_tags".toList, .bool s.strict),
   ("recent_projects".toList, .array (s.recent.map .string)),
   ("project_settings".toList, .object (s.projects.map fun (path, own) => (path, .object own)))]

def toJson (s : Settings) : Json := .object s.toFields

/-- The settings for one project. -/
def forProject (s : Settings) (path : Text) : Except SettingsError Settings :=
  let own := if path.isEmpty then [] else (s.projects.lookup path).getD []
  ofJson (.object (own.foldl (fun fields (name, value) => Keyed.put name value fields) s.toFields))

/-- Puts a project in front of those opened last. -/
def addRecent (s : Settings) (path : Text) : Settings :=
  { s with recent := (path :: s.recent.filter (· ≠ path)).take mostRecent }

/-- The settings in a text that may be no JSON at all. -/
def ofText (t : Text) : Except SettingsError Settings :=
  match Json.ofText t with
  | .ok value => ofJson value
  | .error .malformed => .ok {}
  | .error (.tooManyDigits count) => .error (.tooManyDigits count)
  | .error (.tooDeep inObject) => .error (.tooDeep inObject)

end Settings

/-- Why a settings file stops a program. -/
inductive SettingsFileError
  | unreadable (e : FileError)
  | unusable (e : SettingsError)
  deriving DecidableEq

namespace Settings

/-- Loads a settings file. One that the disk refuses counts as empty. -/
def load (d : Disk) (workingFolder : List Text) (path : Text) : Except SettingsFileError Settings :=
  match d.readText workingFolder path with
  | .ok t => (ofText t).mapError .unusable
  | .error (.refused _ _) => .ok {}
  | .error e => .error (.unreadable e)

/-- Writes a settings file, making its folder first. -/
def save (s : Settings) (d : Disk) (workingFolder : List Text) (path : Text) : Disk.Attempt :=
  (d.makeMissingFolders workingFolder (Path.folder path)).write workingFolder path s.toJson.toLines

end Settings

end LineTags
