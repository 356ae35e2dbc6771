import LineTags.Editor.Opening
import LineTags.Message.Report

/-!
# The commands of the editor

What the menus and the keys do. A command that could lose something asks first, and goes on only if the user wants it or everything was saved.
-/

namespace LineTags

open Text

inductive Command
  | openProject
  | save
  | exit
  | tagNow
  | validate
  | goTo
  | speak (language : String)
  deriving DecidableEq

namespace Editor

/-! ## Files -/

/-- Writes the whole project. -/
def save (e : Editor) : Editor :=
  match e.project with
  | none => e
  | some p =>
    let files := e.session.projectFiles
    let e := e.setSession e.session.tidy
    match p.save e.workplace files with
    | (workplace, some fault) =>
      { e with workplace }.tellUser (.error (e.say "error" []) (e.say "save_error" [("err", fault.message)]))
    | (workplace, none) =>
      ({ e with workplace }.setDirty false).tellUser (.info (e.say "save_title" []) (e.say "save_done" []))

/-- Asks what to do with changes that were not saved. The result is whether to go on. -/
def confirmLoss (e : Editor) : Bool × Editor :=
  if !e.dirty then (true, e)
  else
    match e.ask (.confirm (e.say "unsaved_changes_title" []) (e.say "unsaved_changes_prompt" [])) with
    | (.closed, e) => (false, e)
    | (.yes, e) => let e := e.save; (!e.dirty, e)
    | (_, e) => (true, e)

def fileKinds : List (Text × Text) := [("Ink Files".toList, "*.ink".toList), ("All Files".toList, "*.*".toList)]

def chooseProject (e : Editor) : Except EditorFault Unit × Editor :=
  match e.confirmLoss with
  | (false, e) => (.ok (), e)
  | (true, e) =>
    match e.ask (.askFile (e.say "open_title" []) fileKinds) with
    | (.text (c :: path), e) => let (result, e) := e.openProject (c :: path); (result.map fun _ => (), e)
    | (_, e) => (.ok (), e)

def exit (e : Editor) : Editor :=
  match e.confirmLoss with
  | (false, e) => e
  | (true, e) => { e with driver := e.driver.close, reports := [], alive := false }

/-! ## Tools -/

/-- Asks for a run without waiting for the timer. -/
def tagNow (e : Editor) : Editor :=
  if e.project.isNone then e else { e with driver := e.driver.stopTimer, runWaiting := true }

/-- Everything that is wrong with identifiers: those on more than one line, then the lines that got none in the last run. -/
def troubles (e : Editor) : List Text :=
  (e.session.duplicates.mergeSort fun a b => Text.le a.1 b.1).map (fun (identifier, places) =>
      tellDuplicate e.language identifier places)
    ++ ((e.driver.lastResult.map Generation.failures).getD []).map (tellExhaustion e.language)

/-- Opens a window with what is wrong. -/
def validate (e : Editor) : Editor :=
  if e.project.isNone then e
  else
    let found := e.troubles
    let report : ReportWindow :=
      { title := e.say "validation_title" []
        text := unlines (if found.isEmpty then [e.say "validation_ok" []] else found)
        button := e.say "close" [] }
    { e.setSession e.session.tidy with reports := e.reports ++ [report] }

/-- Shows the file that is selected in the list, unless it is the active one. -/
def followSelection (e : Editor) : Editor :=
  match e.project, e.selected.bind (e.listed[·]?) with
  | some _, some file => if e.session.active = some file then e else (e.showFile file).notify.refreshStatus
  | _, _ => e

/-- Goes to a line of a file, which must be in the list unless it is the active one. -/
def goToLine (file : Text) (line : Int) (e : Editor) : Except EditorFault Unit × Editor :=
  let arrive (e : Editor) : Editor := (e.updateWidget file (Widget.setCursor line 0)).refreshStatus
  if e.session.active = some file then (.ok (), arrive e)
  else
    match e.listed.idxOf? file with
    | none => (.error (.notListed file), e)
    | some index => (.ok (), arrive { e with selected := some index }.followSelection)

/-- Asks for an identifier and goes to the line that carries it. -/
def goToIdentifier (e : Editor) : Except EditorFault Unit × Editor :=
  if e.project.isNone then (.ok (), e)
  else
    match e.ask (.askText (e.say "menu_goto_id" []) (e.say "goto_id_prompt" [])) with
    | (.text (c :: typed), e) =>
      match identifierOfInput? (c :: typed) with
      | none =>
        (.ok (), e.tellUser (.warning (e.say "warning" []) (e.say "invalid_id" [("id", strip (c :: typed))])))
      | some identifier =>
        match e.session.locate identifier with
        | (none, s) =>
          (.ok (), (e.setSession s).tellUser
            (.warning (e.say "warning" []) (e.say "id_not_found" [("id", identifier)])))
        | (some (file, line), s) => (e.setSession s).goToLine file line
    | (_, e) => (.ok (), e)

/-! ## Language -/

def languageFileName : Text := "editor_language.txt".toList

/-- Chooses a language. The texts that are on the screen already stay until the next start. -/
def speak (language : Text) (e : Editor) : Editor :=
  let e := { e with language := languageOf language }
  let w := e.workplace
  let path := (e.surroundings.languageFile languageFileName).toText
  match (w.disk.makeMissingFolders w.folder (Path.folder path)).write w.folder path language with
  | (disk, none) =>
    { e with workplace := { w with disk } }.tellUser
      (.info "Language / 언어".toList (e.say "language_change_restart" []))
  | (disk, some fault) =>
    { e with workplace := { w with disk } }.tellUser (.error (e.say "error" []) fault.message)

/-! ## All of them -/

def run (c : Command) (e : Editor) : Except EditorFault Unit × Editor :=
  match c with
  | .openProject => e.chooseProject
  | .save => (.ok (), e.save)
  | .exit => (.ok (), e.exit)
  | .tagNow => (.ok (), e.tagNow)
  | .validate => (.ok (), e.validate)
  | .goTo => e.goToIdentifier
  | .speak language => (.ok (), e.speak language.toList)

end Editor

end LineTags
