import LineTags.AppFolder
import LineTags.Buffer.Widget
import LineTags.Message.Catalogue
import LineTags.Project
import LineTags.Settings.Basic
import LineTags.Sync.Basic

/-!
# The editor

The editor shows a project: a list of its files, the text of one of them, and a line about the place of the cursor. Every file is open in a widget of its own, and the tags are not in the text but in the trackers of the session. Texts are never changed by tagging. This module holds the state and what all parts of the editor do to it; what the user does and what happens by itself are in the modules beside it.
-/

namespace LineTags

open Text

/-- What a dialog tells or asks. -/
inductive Dialog
  | info (title text : Text)
  | error (title text : Text)
  | warning (title text : Text)
  /-- Can be answered with yes, with no, and by closing it. -/
  | confirm (title text : Text)
  | askText (title request : Text)
  /-- The kinds of files are pairs of a name and a pattern. -/
  | askFile (title : Text) (kinds : List (Text × Text))
  deriving DecidableEq

/-- How a user answers a dialog. -/
inductive Reply
  | closed
  | yes
  | no
  | text (t : Text)
  deriving DecidableEq

/-- A window with a text that cannot be edited, and a button to close it. -/
structure ReportWindow where
  title : Text
  text : Text
  button : Text
  deriving DecidableEq

structure Editor where
  workplace : Workplace
  surroundings : Surroundings
  language : Text
  settings : Settings
  /-- The driver with the session. Every open document has a widget. -/
  driver : TagDriver Widget
  project : Option Project := none
  /-- The file whose widget is visible. -/
  shown : Option Text := none
  /-- The list of files, and the index of the one selected in it. -/
  listed : List Text := []
  selected : Option Nat := none
  /-- Whether there is something that was not saved. -/
  dirty : Bool := false
  title : Text := []
  status : Text := []
  clipboard : Option Text := none
  reports : List ReportWindow := []
  /-- The dialogs that were shown since the user acted, and the answers that were not taken yet. -/
  dialogs : List Dialog := []
  replies : List Reply := []
  /-- In milliseconds. -/
  now : Int := 0
  /-- Whether a run was asked for that did not start yet. -/
  runWaiting : Bool := false
  alive : Bool := true

namespace Editor

def session (e : Editor) : Session Widget := e.driver.session

def setSession (s : Session Widget) (e : Editor) : Editor := { e with driver := { e.driver with session := s } }

/-- A message in the language of the editor. -/
def say (e : Editor) (name : String) (values : List (String × Text)) : Text := tell e.language name values

def tellUser (d : Dialog) (e : Editor) : Editor := { e with dialogs := e.dialogs ++ [d] }

/-- Shows a dialog that asks something. -/
def ask (d : Dialog) (e : Editor) : Reply × Editor :=
  (e.replies.headD .closed, { e.tellUser d with replies := e.replies.tail })

/-! ## Title and status -/

/-- The title of the window: the name of the project's root, and a star if something was not saved. -/
def titleFor (project : Option Project) (dirty : Bool) : Text :=
  "Branching Line ID Editor".toList
    ++ (project.elim [] fun p => " - ".toList ++ p.rootName)
    ++ (if dirty then ['*'] else [])

def setDirty (dirty : Bool) (e : Editor) : Editor := { e with dirty, title := titleFor e.project dirty }

/-- Shows the line of the cursor in the active document, with its identifier. -/
def refreshStatus (e : Editor) : Editor :=
  match e.session.activeDocument? with
  | none => { e with status := e.say "no_id" [] }
  | some (file, t) =>
    let line := t.buffer.cursorPosition.1
    let identifier := (t.identifierAt? line).getD (e.say "no_id" [])
    { e.setSession (e.session.tidyFile file) with status := e.say "line_id" [("line", ofInt line), ("id", identifier)] }

/-! ## Widgets -/

def widget? (e : Editor) (file : Text) : Option Widget := (e.session.document? file).map Tracker.buffer

def updateWidget (file : Text) (f : Widget → Widget) (e : Editor) : Editor :=
  match e.session.document? file with
  | some t => e.setSession (e.session.putDocument file { t with buffer := f t.buffer })
  | none => e

def shownWidget? (e : Editor) : Option Widget := e.shown.bind e.widget?

def updateShown (f : Widget → Widget) (e : Editor) : Editor := e.shown.elim e fun file => e.updateWidget file f

/-- Makes a file active and shows it. -/
def showFile (file : Text) (e : Editor) : Editor :=
  { e.setSession (e.session.setActive file).2 with shown := some file }

/-- Tells the driver that something changed. -/
def notify (e : Editor) : Editor := { e with driver := e.driver.notify e.now }

/-! ## What happens by itself -/

/-- How the editor compiles: texts of the session first, then the disk. -/
def compile (e : Editor) (run : Run) : Compiled :=
  let library : Library := match e.project with
    | some p => Project.libraryIn e.workplace (p.rootFolder e.workplace) run.files
    | none => { files := run.files }
  .ofParse (Story.parse library run.file run.content)

/-- Makes a run. What cannot be compiled changes nothing; new identifiers have to be saved. -/
def tag (e : Editor) : Editor :=
  match e.driver.startRun with
  | (none, driver) => { e with driver }
  | (some run, driver) =>
    match driver.finishRun run (e.compile run) with
    | (.ok (_ :: _), driver) => ({ e with driver }.setDirty true).refreshStatus
    | (_, driver) => { e with driver }

/-- Delivers the events of one widget. If its text was modified, it has to be saved, and to be tagged later. -/
def deliverEvents (e : Editor) (file : Text) : Editor :=
  match e.widget? file with
  | none => e
  | some w =>
    let e := e.updateWidget file fun w => { w with modified := false, pendingEvents := 0 }
    if 0 < w.pendingEvents ∧ w.modified then (e.setDirty true).notify.refreshStatus else e

/-- Makes the run that was asked for. -/
def tagIfAsked (e : Editor) : Editor := if e.runWaiting then { e with runWaiting := false }.tag else e

/-- Makes the run of a timer that is due. -/
def tagIfDue (e : Editor) : Editor :=
  match e.driver.timer with
  | some due => if due ≤ e.now then { e with driver := e.driver.stopTimer }.tag else e
  | none => e

/-- Everything that happens before the user acts again, without time passing. -/
def settle (e : Editor) : Editor :=
  if e.alive then ((Keyed.names e.session.documents).foldl deliverEvents e).tagIfAsked.tagIfDue else e

end Editor

end LineTags
