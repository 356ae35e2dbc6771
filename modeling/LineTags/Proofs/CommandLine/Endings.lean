import LineTags.Proofs.Disk.LoadErrors
import LineTags.Proofs.Settings.Range
import LineTags.Proofs.Story.Unreadable

/-!
# How tagging from the command line ends

A program that reads files has an answer where the disk refuses a path. It has none where a file is there and is no text: then it ends with no status at all. That can happen while the scripts are loaded, while the root is parsed, and in the turn of every script, because the parser asks the disk for includes that were not loaded. By then nothing has been written. In every other case the program ends with status zero or one.
-/

namespace LineTags.Tagging

open Text Keyed

variable {w : Workplace} {p : Project} {rootPath : Text} {options : TaggingOptions} {source : CodeSource} {mode : ExtractionMode}
  {compile : Run → Compiled} {d : TagDriver MemoryBuffer} {order : List Text} {failure : CompileFailure}

/-! ## The turns of the scripts -/

/-- How a program ends that asks for some paths: with a status, or at one with a defect, and then nothing was written. -/
inductive Ending (w : Workplace) (asks : Text → Prop) (e : ProgramEnd) : Prop
  | done (hstatus : e.status = .ok 0)
  | failed (hstatus : e.status = .ok 1)
  | stopped {path : Text} {fault : FileError} (hasks : asks path) (hdefect : w.disk.Defect w.folder path fault)
    (hstatus : e.status = .error (.unreadable fault)) (hkept : e.workplace = w)

theorem Ending.mono {asks asks' : Text → Prop} {e : ProgramEnd} (h : Ending w asks e) (hsub : ∀ path, asks path → asks' path) :
    Ending w asks' e := by
  cases h with
  | done hstatus => exact .done hstatus
  | failed hstatus => exact .failed hstatus
  | stopped hasks hdefect hstatus hkept => exact .stopped (hsub _ hasks) hdefect hstatus hkept

/-! ## Tagging a loaded project -/

section

variable {s : Surroundings} {arguments : List Text} {a : Arguments} {language : Text} {e : FileError}

section

variable (hread : Arguments.read rules arguments = .ok a)
  (hlanguage : chooseLanguage w s a.language languageFileName = .ok language)
  (hsettings : Settings.load w.disk w.folder s.settingsFile.toText = .ok {})

include hread hlanguage hsettings

end

end

end LineTags.Tagging
