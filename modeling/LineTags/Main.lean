import LineTags.CommandLine.Tagging

/-!
# The command line

The program itself works on a disk that is a value. Here the scripts of the project, the settings and the language file are read into such a value, the program runs, and what it wrote goes back to the real disk. Random codes start from random bytes of the system.
-/

namespace LineTags

/-- What the system has at a path below a folder: a file, a folder, or nothing that can be read. Only a folder is there and has no bytes. -/
def entryAt? (path : String) : IO (Option DiskEntry) := do
  try
    return some (.file (← IO.FS.readBinFile path).toList)
  catch
    | .inappropriateType .. => return some .folder
    | _ => return none

/-- Reads what is at a path and the folders on the way to it, as far as they go. A path that goes up is read with the folders it leaves again. -/
def fetch (w : Workplace) (path : Text) : IO Workplace := do
  let mut w := w
  let written := (Text.split '/' (Path.append w.folderPath path)).filter (!·.isEmpty)
  for length in List.range (written.length + 1) do
    let place := (Text.split '/' (Path.normalize ('/' :: Text.join ['/'] (written.take length)))).filter (!·.isEmpty)
    if w.disk.entry? place.dropLast = some .folder ∧ (w.disk.entry? place).isNone then
      if let some entry ← entryAt? (String.ofList ('/' :: Text.join ['/'] place)) then
        w := { w with disk := w.disk.put place entry }
  return w

/-- Reads a script and the scripts it includes, directly or through others, each once. -/
partial def fetchScripts (w : Workplace) (p : Project) (name path : Text) (seen : List Text) : IO (Workplace × List Text) := do
  let mut w ← fetch w path
  let mut seen := name :: seen
  let content := (w.readText path).toOption.getD []
  for included in Project.includesOf name content do
    if included ∉ seen then
      (w, seen) ← fetchScripts w p included (p.pathOf w included) seen
  return (w, seen)

/-- Writes the files of a disk that are new or changed. -/
def store (before after : Disk) : IO Unit := do
  for (place, entry) in after.entries do
    if before.entries.lookup place ≠ some entry then
      let path := String.ofList ('/' :: Text.join ['/'] place)
      match entry with
      | .folder => IO.FS.createDirAll path
      | .file bytes => IO.FS.writeBinFile path ⟨bytes.toArray⟩

/-- The environment variables that decide where a user's files are. -/
def surroundings : IO Surroundings := do
  let mut environment : List (Text × Text) := []
  for name in ["HOME", "XDG_DATA_HOME", "APPDATA"] do
    if let some value ← IO.getEnv name then
      environment := environment ++ [(name.toList, value.toList)]
  match Surroundings.find "linux".toList environment with
  | .ok s => return s
  | .error e => throw (IO.userError (String.ofList e.message))

end LineTags

open LineTags in
def main (arguments : List String) : IO UInt32 := do
  let arguments := arguments.map String.toList
  let s ← surroundings
  let folder := (Text.split '/' (toString (← IO.currentDir)).toList).filter (!·.isEmpty)
  let mut w : Workplace := ⟨{}, folder⟩
  w ← fetch w []
  w ← fetch w s.settingsFile.toText
  w ← fetch w (s.languageFile Tagging.languageFileName).toText
  if let .ok { file := some file, .. } := Arguments.read Tagging.rules arguments then
    let p : Project := ⟨file, []⟩
    (w, _) ← fetchScripts w p p.rootName file []
  let seed := (← IO.getRandomBytes 4).toList.foldl (fun n b => 256 * n + (b.toNat : Int)) 0
  let e := Tagging.main w s arguments ⟨.congruential seed, 0⟩
  store w.disk e.workplace.disk
  IO.print (String.ofList e.printed)
  match e.status with
  | .ok status => return status.toUInt32
  | .error _ =>
    IO.eprintln "line tags: a file or a setting cannot be used"
    return 1
