import LineTags.Buffer.Memory
import LineTags.CommandLine.Start
import LineTags.Message.Report
import LineTags.Sync.Basic

/-!
# Tagging a project from the command line

The program opens every script of a project, tags the narrative lines of one script after the other, and writes back the scripts that changed. What it prints is the count of new identifiers, the lines that got none, and the identifiers that stand on more than one line. Its status is zero if it came to an end, one if the project could not be read or written as it should, and two if its arguments were wrong.
-/

namespace LineTags

open Text

/-- How a program ended: its status, what it printed, and what it left on the disk. -/
structure ProgramEnd where
  status : Except ProgramFailure Nat
  output : List Text
  workplace : Workplace

namespace ProgramEnd

/-- Everything printed, each line with its line feed. -/
def printed (e : ProgramEnd) : Text := e.output.flatMap (· ++ ['\n'])

end ProgramEnd

structure TaggingOptions where
  dryRun : Bool := false
  mode : ExtractionMode := {}
  maxAttempts : Int := 100
  language : Text := "en".toList

namespace Tagging

/-- Opens the files in turn, up to the first that is refused. -/
def openAll : List Text → Session MemoryBuffer → Except MultipleTags (Session MemoryBuffer)
  | [], s => .ok s
  | file :: files, s =>
    match s.openDocument file none none with
    | (.ok (), s) => openAll files s
    | (.error e, _) => .error e

def sizeOf (s : Session MemoryBuffer) (file : Text) : Nat := ((s.document? file).map Tracker.size).getD 0

/-- Makes one file active and runs the driver once. The failures that belong to this file are kept. -/
def tagFile (compile : Run → Compiled) (file : Text) (d : TagDriver MemoryBuffer) :
    Except CompileFailure (List Exhaustion × TagDriver MemoryBuffer) :=
  let d := { d with session := (d.session.setActive file).2 }
  let (result, d) : Except CompileFailure (List IdEdit) × TagDriver MemoryBuffer :=
    match d.stopTimer.startRun with
    | (none, d) => (.ok [], d)
    | (some run, d) => d.finishRun run (compile run)
  match result with
  | .error e => .error e
  | .ok _ => .ok (((d.lastResult.map Generation.failures).getD []).filter (·.file = some file), d)

def tagFiles (compile : Run → Compiled) :
    List Text → TagDriver MemoryBuffer → Except CompileFailure (List Exhaustion × TagDriver MemoryBuffer)
  | [], d => .ok ([], d)
  | file :: files, d => do
    let (failures, d) ← tagFile compile file d
    let (more, d) ← tagFiles compile files d
    return (failures ++ more, d)

/-- The lines that tell what was done. -/
def summary (language : Text) (counts : List (Text × Int)) (failures : List Exhaustion)
    (duplicates : List (Text × List (Text × Int))) : List Text :=
  (counts.filter (·.2 ≠ 0)).map (fun (file, count) =>
      tell language "tag_summary" [("file", file), ("count", ofInt count)])
    ++ failures.map (tellExhaustion language)
    ++ duplicates.map (fun (identifier, places) => tellDuplicate language identifier places)
    ++ [tell language "tag_total" [("count", ofInt (counts.foldl (fun n c => n + c.2) 0)), ("files", ofInt counts.length)]]

def failureOf : CompileFailure → ProgramFailure
  | .unreadable e => .unreadable e
  | .broken message => .broken message

/-- Tags a loaded project. -/
def run (w : Workplace) (p : Project) (options : TaggingOptions) (source : CodeSource) : ProgramEnd :=
  let language := options.language
  let stop (status : Nat) (output : List Text) : ProgramEnd := ⟨.ok status, output, w⟩
  if (p.files.lookup p.rootName).isNone then ⟨.error (.noSuchFile p.rootName), [], w⟩
  else
    match p.parse w with
    | .error (.unreadable e) => ⟨.error (.unreadable e), [], w⟩
    | .error (.rejected e) => stop 1 [tell language "parse_error" [] ++ ": ".toList ++ e.message]
    | .ok _ =>
      let order := Keyed.names p.files
      match openAll order (Session.ofFiles p.files options.mode) with
      | .error e => stop 1 [tell language "error" [] ++ ": ".toList ++ e.message]
      | .ok session =>
        let compile (run : Run) : Compiled :=
          .ofParse (Story.parse (Project.libraryIn w (p.rootFolder w) run.files) run.file run.content)
        let driver : TagDriver MemoryBuffer :=
          { session, generator := { maxAttempts := options.maxAttempts, source }, debounce := 0 }
        match tagFiles compile order driver with
        | .error e => ⟨.error (failureOf e), [], w⟩
        | .ok (failures, driver) =>
          let counts : List (Text × Int) :=
            order.map fun file => (file, (sizeOf driver.session file : Int) - sizeOf session file)
          let output := summary language counts failures driver.session.duplicates
          if options.dryRun then stop 0 (output ++ [tell language "dry_run" []])
          else
            let changed := driver.session.projectFiles.filter fun (file, content) => p.files.lookup file ≠ some content
            match p.save w changed with
            | (w, none) => ⟨.ok 0, output, w⟩
            | (w, some (.refused refusal path)) =>
              ⟨.ok 1, output ++ [tell language "save_error" [("err", (FileError.refused refusal path).message)]], w⟩
            | (w, some e) => ⟨.error (.unreadable e), output, w⟩

def rules : ArgumentRules where
  options :=
    [("-h".toList, .help), ("--help".toList, .help), ("--dry-run".toList, .dryRun), ("--repair".toList, .repair),
     ("--strict".toList, .strict), ("--lang".toList, .language), ("-v".toList, .verbose), ("--verbose".toList, .verbose)]
  needsFile := true

def languageFileName : Text := "tagger_language.txt".toList

/-- The whole program. -/
def main (w : Workplace) (s : Surroundings) (arguments : List Text) (source : CodeSource) : ProgramEnd :=
  match Arguments.read rules arguments with
  | .error .wrong => ⟨.ok 2, [], w⟩
  | .error .helped => ⟨.ok 0, [], w⟩
  | .ok a =>
    let file := a.file.getD []
    match chooseLanguage w s a.language languageFileName with
    | .error e => ⟨.error (.unreadable e), [], w⟩
    | .ok language =>
      if !w.isFile file then ⟨.ok 1, [tell language "file_not_found" [("path", file)]], w⟩
      else
        let settings : Except ProgramFailure Settings := do
          let base ← (Settings.load w.disk w.folder s.settingsFile.toText).mapError .ofSettings
          (base.forProject (w.absolute file)).mapError .settings
        match settings with
        | .error e => ⟨.error e, [], w⟩
        | .ok settings =>
          match Project.load w file with
          | .error (.refused refusal path) =>
            ⟨.ok 1, [tell language "read_error" [("err", (FileError.refused refusal path).message)]], w⟩
          | .error e => ⟨.error (.unreadable e), [], w⟩
          | .ok p =>
            let options : TaggingOptions := {
              dryRun := a.has .dryRun
              mode := ⟨a.has .repair || settings.repair, a.has .strict || settings.strict⟩
              maxAttempts := settings.maxAttempts
              language }
            run w p options source

end Tagging

end LineTags
