import LineTags.Editor.Action

/-!
# Starting the editor

The menus and keys of the editor with their commands, and how it starts: with the project named in the arguments, if one is. The labels are in the language of the start.
-/

namespace LineTags

structure MenuEntry where
  label : Text
  shortcut : Option Text
  command : Command
  deriving DecidableEq

/-- A menu; what is no entry is a line between entries. -/
structure Menu where
  label : Text
  entries : List (Option MenuEntry)
  deriving DecidableEq

/-- How the editor did not start: with a status because of its arguments, or by a fault, which may leave something on the disk. -/
inductive LaunchStop
  | status (n : Nat)
  | fault (f : EditorFault) (left : Workplace)
  deriving DecidableEq

namespace Editor

def menus (language : Text) : List Menu :=
  let entry (name : String) (shortcut : Option String) (command : Command) : Option MenuEntry :=
    some ⟨tell language name [], shortcut.map String.toList, command⟩
  [⟨tell language "menu_file" [],
      [entry "menu_open" "Ctrl+O" .openProject, entry "menu_save" "Ctrl+S" .save, none, entry "menu_exit" none .exit]⟩,
    ⟨tell language "menu_tools" [],
      [entry "menu_tag_now" "Ctrl+T" .tagNow, entry "menu_validate" none .validate, entry "menu_goto_id" "Ctrl+G" .goTo]⟩,
    ⟨"Language / 언어".toList,
      [some ⟨"English / 영어".toList, none, .speak "en"⟩, some ⟨"한국어 / Korean".toList, none, .speak "korean"⟩]⟩]

def keys : List (Text × Command) :=
  [("<Control-o>".toList, .openProject), ("<Control-s>".toList, .save), ("<Control-t>".toList, .tagNow),
    ("<Control-g>".toList, .goTo)]

/-- The texts that stand on the window for good. -/
def labels (language : Text) : List Text := [tell language "files_label" []]

def rules : ArgumentRules where
  options :=
    [("-h".toList, .help), ("--help".toList, .help), ("--lang".toList, .language), ("-v".toList, .verbose),
     ("--verbose".toList, .verbose)]
  needsFile := false

/-- The editor before a project is opened. -/
def blank (w : Workplace) (s : Surroundings) (language : Text) (settings : Settings) (source : CodeSource) : Editor where
  workplace := w
  surroundings := s
  language := language
  settings := settings
  driver :=
    { session := {}, generator := { maxAttempts := settings.maxAttempts, source }, debounce := settings.debounce }
  title := titleFor none false
  status := tell language "no_id" []

def launch (w : Workplace) (s : Surroundings) (arguments : List Text) (source : CodeSource) : Except LaunchStop Editor :=
  match Arguments.read rules arguments with
  | .error .wrong => .error (.status 2)
  | .error .helped => .error (.status 0)
  | .ok a =>
    match chooseLanguage w s a.language languageFileName with
    | .error e => .error (.fault (.program (.unreadable e)) w)
    | .ok language =>
      match Settings.load w.disk w.folder s.settingsFile.toText with
      | .error e => .error (.fault (.program (.ofSettings e)) w)
      | .ok settings =>
        let e := blank w s language settings source
        match a.file with
        | some (c :: path) =>
          match e.openProject (c :: path) with
          | (.ok _, e) => .ok e.settle
          | (.error f, e) => .error (.fault f e.workplace)
        | _ => .ok e

end Editor

end LineTags
