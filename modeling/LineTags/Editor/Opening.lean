import LineTags.CommandLine.Start
import LineTags.Editor.Basic

/-!
# Opening a project in the editor

A project is loaded and parsed before the one that is open is given up, so a script that cannot be read or breaks a rule changes nothing but the screen. What comes later can still fail: the settings of the project may be out of range, and strict checking may refuse one of its files. Then the old project is gone and the new one is there in part.
-/

namespace LineTags

open Text

/-- What the editor has no answer to: what stops any program, and a line to go to in a file that is not in the list. -/
inductive EditorFault
  | program (f : ProgramFailure)
  | notListed (file : Text)
  deriving DecidableEq

namespace Editor

/-- Tells that a file cannot be read. A name that no file can have is no such case. -/
def reportUnreadable (fault : FileError) (e : Editor) : Except EditorFault Bool × Editor :=
  match fault with
  | .nullInName => (.error (.program (.unreadable fault)), e)
  | fault =>
    (.ok false, e.tellUser (.error (e.say "error" []) (e.say "read_error" [("err", fault.message)])))

/-- Gives up the project that is open. Its widgets go with it, and whatever the driver was about to do. -/
def giveUp (e : Editor) : Editor :=
  { e with
    driver := { e.driver.close with session := e.session.clear }
    listed := []
    selected := none
    shown := none }

/-- Opens files in widgets of their own, up to the first that is refused. -/
def openFiles : List (Text × Text) → Editor → Except MultipleTags Unit × Editor
  | [], e => (.ok (), e)
  | (file, content) :: files, e =>
    match e.session.openDocument file (some content) (some {}) with
    | (.error refusal, s) => (.error refusal, e.setSession s)
    | (.ok (), s) =>
      let e := (e.setSession s).updateWidget file (Widget.setModified false)
      openFiles files { e with listed := e.listed ++ [file] }

/-- Loads the settings and puts the project in front of those opened last. That they cannot be written is no trouble. -/
def renewSettings (path : Text) (e : Editor) : Except SettingsFileError Unit × Editor :=
  let w := e.workplace
  let file := e.surroundings.settingsFile.toText
  match Settings.load w.disk w.folder file with
  | .error fault => (.error fault, e)
  | .ok settings =>
    let settings := settings.addRecent path
    (.ok (), { e with settings, workplace := { w with disk := (settings.save w.disk w.folder file).1 } })

/-- A driver for a project that was not edited yet. Random codes go on where they were. -/
def freshDriver (effective : Settings) (files : List (Text × Text)) (e : Editor) : TagDriver Widget where
  session := Session.ofFiles files ⟨effective.repair, effective.strict⟩
  generator := { maxAttempts := effective.maxAttempts, source := e.driver.generator.source }
  debounce := effective.debounce

/-- Puts a loaded project in the place of the one that is open. The result is whether all its files were opened. -/
def switchTo (p : Project) (path : Text) (e : Editor) : Except EditorFault Bool × Editor :=
  let path := e.workplace.absolute path
  match { e.giveUp with project := some p }.renewSettings path with
  | (.error fault, e) => (.error (.program (.ofSettings fault)), e)
  | (.ok (), e) =>
    match e.settings.forProject path with
    | .error fault => (.error (.program (.settings fault)), e)
    | .ok effective =>
      match openFiles p.files { e with driver := e.freshDriver effective p.files } with
      | (.error refusal, e) => (.ok false, e.tellUser (.error (e.say "error" []) refusal.message))
      | (.ok (), e) =>
        (.ok true, ({ e.showFile p.rootName with selected := some 0 }.setDirty false).refreshStatus.notify)

/-- Opens the project with the root script at a path. The result is whether it was opened. -/
def openProject (path : Text) (e : Editor) : Except EditorFault Bool × Editor :=
  match Project.load e.workplace path with
  | .error fault => e.reportUnreadable fault
  | .ok p =>
    match p.parse e.workplace with
    | .error (.rejected refusal) => (.ok false, e.tellUser (.error (e.say "parse_error" []) refusal.message))
    | .error (.unreadable fault) => e.reportUnreadable fault
    | .ok _ => e.switchTo p path

end Editor

end LineTags
