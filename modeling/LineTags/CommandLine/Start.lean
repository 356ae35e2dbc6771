import LineTags.AppFolder
import LineTags.CommandLine.Arguments
import LineTags.Message.Catalogue
import LineTags.Project
import LineTags.Settings.Basic

/-!
# Starting a program

Both programs begin by reading their arguments and choosing a language: the one asked for, or else the one in a file of the user. What is not asked for and not in a file is English. A language file that is there but is no text stops a program, as do a few other things that it has no answer to.
-/

namespace LineTags

/-- What stops a program for good: a file or a settings value that it has no answer to, a project without its root, or a compiler that breaks. -/
inductive ProgramFailure
  | unreadable (e : FileError)
  | settings (e : SettingsError)
  | noSuchFile (name : Text)
  | broken (message : Text)
  deriving DecidableEq

def ProgramFailure.ofSettings : SettingsFileError → ProgramFailure
  | .unreadable e => unreadable e
  | .unusable e => settings e

/-- The language that a language file chooses. A file that the disk refuses chooses English. -/
def languageFrom (w : Workplace) (path : Text) : Except FileError Text :=
  match w.readText path with
  | .ok t => .ok (languageOfFile t)
  | .error (.refused _ _) => .ok "en".toList
  | .error e => .error e

/-- The language of a program: the one asked for, or else that of its language file. -/
def chooseLanguage (w : Workplace) (s : Surroundings) (asked : Option Text) (fileName : Text) : Except FileError Text :=
  match asked with
  | some (c :: word) => .ok (languageOf (c :: word))
  | _ => languageFrom w (s.languageFile fileName).toText

end LineTags
