import LineTags.Settings.Basic

/-!
# Settings without a check

A caller may assign any value to a setting. A record holds settings in that state: every field is a data value, and only bringing the record into order tells whether it fits. What was put in order before a value did not fit stays so.
-/

namespace LineTags

structure SettingsRecord where
  debounce : Json
  maxAttempts : Json
  repair : Json
  strict : Json
  recent : Json
  projects : Json
  deriving BEq

namespace SettingsRecord

def ofSettings (s : Settings) : SettingsRecord where
  debounce := .int s.debounce
  maxAttempts := .int s.maxAttempts
  repair := .bool s.repair
  strict := .bool s.strict
  recent := .array (s.recent.map .string)
  projects := .object (s.projects.map fun (path, own) => (path, .object own))

def toFields (r : SettingsRecord) : List (Text × Json) :=
  [("debounce_ms".toList, r.debounce), ("max_attempts".toList, r.maxAttempts),
   ("repair_tag_spacing".toList, r.repair), ("strict_tags".toList, r.strict),
   ("recent_projects".toList, r.recent), ("project_settings".toList, r.projects)]

def toJson (r : SettingsRecord) : Json := .object r.toFields

/-- Assigns a value to the setting of a given name. -/
def assign (r : SettingsRecord) (name : Text) (value : Json) : SettingsRecord :=
  if name = "debounce_ms".toList then { r with debounce := value }
  else if name = "max_attempts".toList then { r with maxAttempts := value }
  else if name = "repair_tag_spacing".toList then { r with repair := value }
  else if name = "strict_tags".toList then { r with strict := value }
  else if name = "recent_projects".toList then { r with recent := value }
  else if name = "project_settings".toList then { r with projects := value }
  else r

/-- The members of a value that has some: items, names of fields, or characters. -/
def membersOf : Json → Except SettingsError (List Json)
  | .array items => .ok items
  | .object fields => .ok (fields.map fun f => .string f.1)
  | .string t => .ok (t.map fun c => .string [c])
  | _ => .error .wrongType

/-- Brings a record into order, field by field, up to the first that does not fit. -/
def clamp (r : SettingsRecord) : Except SettingsError Unit × SettingsRecord :=
  match r.debounce.toWhole with
  | .error e => (.error e, r)
  | .ok n =>
    let r := { r with debounce := .int (Settings.between 0 Settings.longestWait n) }
    match r.maxAttempts.toWhole with
    | .error e => (.error e, r)
    | .ok n =>
      let r := { r with
        maxAttempts := .int (Settings.between 1 Settings.mostAttempts n)
        repair := .bool r.repair.isTruthy
        strict := .bool r.strict.isTruthy }
      match membersOf r.recent with
      | .error e => (.error e, r)
      | .ok items =>
        (.ok (), { r with recent := .array ((items.map fun i => .string i.display).take Settings.mostRecent) })

/-- The text of the settings file for a record that is in order, or can be brought into it. -/
def save (r : SettingsRecord) : Except SettingsError Text × SettingsRecord :=
  match r.clamp with
  | (.ok (), r) => (.ok r.toJson.toLines, r)
  | (.error e, r) => (.error e, r)

/-- The field that a member of a list stands for: a pair, or two characters. Any value without parts can name a field, but only a text names one that is ever asked for, so the others give none. -/
def pairOf? (index : Nat) (member : Json) : Except SettingsError (Option (Text × Json)) := do
  match ← membersOf member with
  | [.string name, value] => return some (name, value)
  | [.array _, _] | [.object _, _] => throw .wrongType
  | [_, _] => return none
  | items => throw (.notPair index items.length)

/-- The fields that a value adds to others. -/
def overridesOf : Json → Except SettingsError (List (Text × Json))
  | .object fields => .ok fields
  | value => do
    let pairs ← (← membersOf value).zipIdx.mapM fun (member, index) => pairOf? index member
    return pairs.filterMap id

/-- What is set for a project, if the record can hold such settings at all. -/
def own? (r : SettingsRecord) (path : Text) : Except SettingsError (Option Json) :=
  match r.projects with
  | .object projects => .ok (projects.lookup path)
  | _ => .error .noSuchPart

/-- The settings for one project; none and the empty path are no project. -/
def forProject (r : SettingsRecord) (path? : Option Text) : Except SettingsError Settings := do
  let own ← match path? with
    | some (c :: path) => overridesOf ((← r.own? (c :: path)).getD (.object []))
    | _ => .ok []
  Settings.ofJson (.object (own.foldl (fun fields (name, value) => Keyed.put name value fields) r.toFields))

def addRecent (r : SettingsRecord) (path : Text) : Except SettingsError SettingsRecord := do
  let others := (← membersOf r.recent).filter fun i => match i with
    | .string t => t ≠ path
    | _ => true
  return { r with recent := .array ((.string path :: others).take Settings.mostRecent) }

def getProject (r : SettingsRecord) (path name : Text) : Except SettingsError Json := do
  match ← r.own? path with
  | none => return .null
  | some (.object fields) => return (fields.lookup name).getD .null
  | some _ => throw .noSuchPart

def setProject (r : SettingsRecord) (path name : Text) (value : Json) : Except SettingsError SettingsRecord := do
  match r.projects, ← r.own? path with
  | .object projects, none => return { r with projects := .object (Keyed.put path (.object [(name, value)]) projects) }
  | .object projects, some (.object fields) =>
    return { r with projects := .object (Keyed.put path (.object (Keyed.put name value fields)) projects) }
  | _, _ => throw .wrongType

end SettingsRecord

end LineTags
