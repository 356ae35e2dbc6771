import LineTags.Text.Basic

/-!
# Comments

A line is its code followed by an optional comment, which two slashes open. Slashes inside a quoted span open none, and neither do slashes behind a backslash. A quote that is never closed on its line quotes nothing, so the text after it is read as if the quote were any other character.
-/

namespace LineTags

open Text

/-- A line cut at the start of its comment. -/
structure CommentedLine where
  code : Text
  comment : Text
  deriving DecidableEq

namespace CommentedLine

def prepend (c : Char) (l : CommentedLine) : CommentedLine := ⟨c :: l.code, l.comment⟩

/-- The cut of a stretch without quoted spans: the first slash pair that no backslash escapes. -/
def ofUnquoted : Text → CommentedLine
  | [] => ⟨[], []⟩
  | '\\' :: c :: r => (ofUnquoted r).prepend c |>.prepend '\\'
  | '/' :: '/' :: r => ⟨[], '/' :: '/' :: r⟩
  | c :: r => (ofUnquoted r).prepend c

/-- The cut of a stretch that starts inside or outside a quoted span. Inside, there is none if the span is never closed. -/
def scan : Bool → Text → Option CommentedLine
  | true, [] => none
  | false, [] => some ⟨[], []⟩
  | inside, '\\' :: c :: r => (scan inside r).map fun l => (l.prepend c).prepend '\\'
  | true, '"' :: r => (scan false r).map (·.prepend '"')
  | false, '"' :: r => some (((scan true r).getD (ofUnquoted r)).prepend '"')
  | false, '/' :: '/' :: r => some ⟨[], '/' :: '/' :: r⟩
  | inside, c :: r => (scan inside r).map (·.prepend c)

def ofLine (line : Text) : CommentedLine := (scan false line).getD ⟨line, []⟩

end CommentedLine

/-- The part of a line before its comment. -/
def codeOf (line : Text) : Text := (CommentedLine.ofLine line).code

def commentOf (line : Text) : Text := (CommentedLine.ofLine line).comment

/-- Whether nothing but blanks stands before the comment. Such a line takes no tag. -/
def hasNoCode (line : Text) : Bool := isBlankText (codeOf line)

namespace CommentedLine

theorem code_append_comment_ofUnquoted (t : Text) : (ofUnquoted t).code ++ (ofUnquoted t).comment = t := by
  fun_induction ofUnquoted t <;> simp_all [prepend]

theorem code_append_comment_of_scan {inside : Bool} {t : Text} {l : CommentedLine} (h : scan inside t = some l) :
    l.code ++ l.comment = t := by
  fun_induction scan inside t generalizing l with
  | case1 => simp at h
  | case2 => simp at h; subst h; rfl
  | case3 inside c r ih =>
    obtain ⟨m, hm, rfl⟩ := Option.map_eq_some_iff.1 h
    simp [prepend, ih hm]
  | case4 r ih =>
    obtain ⟨m, hm, rfl⟩ := Option.map_eq_some_iff.1 h
    simp [prepend, ih hm]
  | case5 r ih =>
    cases hs : scan true r with
    | none => simp_all [prepend]; subst h; simp [code_append_comment_ofUnquoted]
    | some m => simp_all [prepend]; subst h; simp [ih]
  | case6 r => simp at h; subst h; rfl
  | case7 inside c r _ _ _ _ ih =>
    obtain ⟨m, hm, rfl⟩ := Option.map_eq_some_iff.1 h
    simp [prepend, ih hm]

/-- Outside a quoted span the cut always exists. -/
theorem isSome_scan_false (t : Text) : (scan false t).isSome := by
  generalize hb : false = inside
  fun_induction scan inside t <;> simp_all

end CommentedLine

theorem codeOf_append_commentOf (line : Text) : codeOf line ++ commentOf line = line := by
  unfold codeOf commentOf CommentedLine.ofLine
  cases h : CommentedLine.scan false line with
  | none => simp
  | some l => exact CommentedLine.code_append_comment_of_scan h

end LineTags
