import LineTags.Message.Template
import LineTags.Text.LineBreak

/-!
# What the programs tell their users

Every message has a name and a template in each language. A language without templates of its own, whatever it is called, gets the English ones. A name that is in no catalogue is its own template.
-/

namespace LineTags

/-- A message in the languages there are. -/
structure MessageEntry where
  name : String
  english : String
  korean : String

def messageCatalogue : List MessageEntry := [
   ⟨"warning", "Warning",
    "경고"⟩,
   ⟨"error", "Error",
    "오류"⟩,
   ⟨"parse_error", "Parse Error",
    "파싱 오류"⟩,
   ⟨"read_error", "An error occurred while reading the file:\n\x7berr\x7d",
    "파일을 읽는 중 오류가 발생했습니다:\n\x7berr\x7d"⟩,
   ⟨"save_error", "An error occurred while saving the file:\n\x7berr\x7d",
    "파일을 저장하는 중 오류가 발생했습니다:\n\x7berr\x7d"⟩,
   ⟨"file_not_found", "File not found: \x7bpath\x7d",
    "파일을 찾을 수 없습니다: \x7bpath\x7d"⟩,
   ⟨"open_title", "Open Script",
    "스크립트 열기"⟩,
   ⟨"save_title", "Save",
    "저장"⟩,
   ⟨"save_done", "Saved.",
    "저장했습니다."⟩,
   ⟨"menu_file", "File",
    "파일"⟩,
   ⟨"menu_open", "Open Project...",
    "프로젝트 열기..."⟩,
   ⟨"menu_save", "Save",
    "저장"⟩,
   ⟨"menu_exit", "Exit",
    "나가기"⟩,
   ⟨"menu_tools", "Tools",
    "도구"⟩,
   ⟨"menu_tag_now", "Tag Lines Now",
    "지금 ID 붙이기"⟩,
   ⟨"menu_validate", "Validate IDs",
    "ID 검사"⟩,
   ⟨"menu_goto_id", "Go to ID...",
    "ID로 이동..."⟩,
   ⟨"goto_id_prompt", "Line ID:",
    "줄 ID:"⟩,
   ⟨"id_not_found", "No line carries the ID \x7bid\x7d.",
    "ID \x7bid\x7d를 가진 줄이 없습니다."⟩,
   ⟨"invalid_id", "Not a valid line ID: \x7bid\x7d",
    "올바른 줄 ID가 아닙니다: \x7bid\x7d"⟩,
   ⟨"no_id", "(no id)",
    "(ID 없음)"⟩,
   ⟨"line_id", "Line \x7bline\x7d: \x7bid\x7d",
    "\x7bline\x7d번 줄: \x7bid\x7d"⟩,
   ⟨"unsaved_changes_title", "Unsaved Changes",
    "저장되지 않은 변경"⟩,
   ⟨"unsaved_changes_prompt", "Save changes before closing?",
    "닫기 전에 변경 내용을 저장하시겠습니까?"⟩,
   ⟨"validation_title", "ID Validation",
    "ID 검사"⟩,
   ⟨"validation_ok", "No problems found.",
    "문제가 없습니다."⟩,
   ⟨"duplicate_id", "Duplicate ID \x7bid\x7d: \x7bplaces\x7d",
    "중복된 ID \x7bid\x7d: \x7bplaces\x7d"⟩,
   ⟨"untagged_failure", "Could not generate an ID for \x7bfile\x7d line \x7bline\x7d: \x7btext\x7d",
    "\x7bfile\x7d \x7bline\x7d번 줄에 ID를 만들지 못했습니다: \x7btext\x7d"⟩,
   ⟨"tag_summary", "\x7bfile\x7d: \x7bcount\x7d new IDs",
    "\x7bfile\x7d: 새 ID \x7bcount\x7d개"⟩,
   ⟨"tag_total", "Tagged \x7bcount\x7d lines in \x7bfiles\x7d files.",
    "\x7bfiles\x7d개 파일에서 \x7bcount\x7d줄에 ID를 붙였습니다."⟩,
   ⟨"dry_run", "Dry run: nothing was written.",
    "시험 실행: 아무것도 저장하지 않았습니다."⟩,
   ⟨"language_change_restart", "Please restart the program to apply the language.",
    "언어를 적용하려면 프로그램을 다시 시작하세요."⟩,
   ⟨"close", "Close",
    "닫기"⟩,
   ⟨"files_label", "Files",
    "파일"⟩]

/-- The language that a word chooses. Korean has several. -/
def languageOf (word : Text) : Text :=
  if word = "ko".toList ∨ word = "kr".toList then "korean".toList else word

/-- The language that the text of a language file chooses: English, if it is blank. Any kind of newline counts as a line feed. -/
def languageOfFile (t : Text) : Text :=
  let word := Text.strip (Text.unifyNewlines t)
  languageOf (if word.isEmpty then "en".toList else word)

/-- The template of a message. -/
def messageTemplate (language name : Text) : Text :=
  match messageCatalogue.find? fun e => e.name.toList = name with
  | some e => if language = "korean".toList then e.korean.toList else e.english.toList
  | none => name

def translate (language name : Text) (values : List (Text × Json)) : Except TemplateError Text :=
  Template.fill values (messageTemplate language name)

/-- A message of the catalogue with all its values. -/
def tell (language : Text) (name : String) (values : List (String × Text)) : Text :=
  (translate language name.toList (values.map fun (n, v) => (n.toList, .string v))).toOption.getD []

end LineTags
