import LineTags.Session.Basic
import LineTags.Story.Parser

/-!
# Keeping lines tagged

While a user types, new lines get their identifiers from runs. A run takes the active file as it stands, has it compiled, mints identifiers for the lines without one, and binds them, or stages them for other files. Compiling takes time, and nobody cancels it. So every run has a token, and its result counts only if no later run was issued, nothing was edited and the active file is the same; and each identifier is bound only if its line still reads as it did when the run was issued.

Edits start no run at once. They arm a timer, each anew, and the run starts when the timer is due.
-/

namespace LineTags

inductive Phase
  | idle
  | tagging
  | stale
  deriving DecidableEq

/-- A run that was issued: its token, the file it is for, what is to be compiled, and the lines of all files at that time. -/
structure Run where
  token : Nat
  file : Text
  content : Text
  files : List (Text × Text)
  snapshot : List (Text × List Text)
  deriving DecidableEq

/-- Why compiling can fail other than by a script that breaks a rule. -/
inductive CompileFailure
  | unreadable (e : FileError)
  | broken (message : Text)
  deriving DecidableEq

/-- What compiling comes to. A script that breaks a rule has no story, and neither has a compiler that gives none. -/
inductive Compiled
  | story (s : Story)
  | nothing
  | failed (e : CompileFailure)

def Compiled.ofParse : Except ParseFailure Story → Compiled
  | .ok s => story s
  | .error (.rejected _) => nothing
  | .error (.unreadable e) => failed (.unreadable e)

structure TagDriver (β : Type) where
  session : Session β
  generator : Generator
  /-- The time between an edit and the run it leads to. -/
  debounce : Int
  phase : Phase := .idle
  lastResult : Option Generation := none
  issued : Nat := 0
  /-- When the timer is due, if it is armed. -/
  timer : Option Int := none

namespace TagDriver

variable {β : Type} [LineBuffer β]

/-- An edit makes the run in flight stale and stops the timer. -/
def supersede (d : TagDriver β) : TagDriver β :=
  { d with phase := if d.phase = .tagging then .stale else d.phase, timer := none }

/-- Something was edited at time `now`. -/
def notify (now : Int) (d : TagDriver β) : TagDriver β := { d.supersede with timer := some (now + d.debounce) }

def stopTimer (d : TagDriver β) : TagDriver β := { d with timer := none }

/-- Makes whatever is in flight stale. -/
def close (d : TagDriver β) : TagDriver β := { d with timer := none, issued := d.issued + 1, phase := .idle }

/-- Issues a run for the active file, if it is open. -/
def startRun (d : TagDriver β) : Option Run × TagDriver β :=
  match d.session.activeDocument? with
  | none => (none, d)
  | some (file, _) =>
    let files := d.session.projectFiles
    let run : Run :=
      { token := d.issued + 1, file, content := (files.lookup file).getD [], files,
        snapshot := d.session.snapshot (Keyed.names files) }
    (some run,
      { d with session := d.session.tidy, issued := d.issued + 1, phase := .tagging, lastResult := none })

/-- Whether the result of a run still counts. -/
def isCurrent (d : TagDriver β) (run : Run) : Bool :=
  run.token = d.issued && d.phase = .tagging && d.session.active = some run.file

/-- The text that the line of an edit had when the run was issued. -/
def expectedLine? (run : Run) (e : IdEdit) : Option Text :=
  (e.file.bind fun file => run.snapshot.lookup file).bind fun ls => if e.line < 1 then none else ls[e.line.toNat - 1]?

/-- Binds or stages one new identifier. The result is whether it was bound. -/
def deliver (run : Run) (e : IdEdit) (s : Session β) : Bool × Session β :=
  match expectedLine? run e with
  | none => (false, s)
  | some expected =>
    if e.file = some run.file then s.applyEdit run.file e expected else (false, (s.stage e expected).2)

/-- Delivers new identifiers in turn and lists those that were bound. -/
def deliverAll (run : Run) : List IdEdit → Session β → List IdEdit × Session β
  | [], s => ([], s)
  | e :: es, s =>
    let (bound, s) := deliver run e s
    let (applied, s) := deliverAll run es s
    (if bound then e :: applied else applied, s)

/-- Handles what compiling came to: the edits that were bound, or the failure. -/
def finishRun (run : Run) (outcome : Compiled) (d : TagDriver β) :
    Except CompileFailure (List IdEdit) × TagDriver β :=
  match outcome with
  | .failed e => (.error e, if run.token = d.issued then { d with phase := .idle } else d)
  | outcome =>
    if d.isCurrent run then
      match outcome with
      | .story story =>
        let (result, generator) := d.generator.run d.session.existingIds story.root
        let (applied, session) := deliverAll run result.edits d.session.tidy
        (.ok applied, { d with session, generator, phase := .idle, lastResult := some result })
      | _ => (.ok [], { d with phase := .idle })
    else
      (.ok [], if run.token = d.issued ∧ d.phase = .tagging then { d with phase := .idle } else d)

end TagDriver

end LineTags
