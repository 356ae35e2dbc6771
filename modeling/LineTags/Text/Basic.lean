/-!
# Texts

A script, a line, an identifier and a file name are all texts: lists of characters. Columns, offsets and lengths count characters, so the list view is the one every statement about a position wants. This module holds the blank characters, cutting at a separator, and the few searches the rest of the library is built from.
-/

namespace LineTags

abbrev Text := List Char

namespace Text

/-- The characters that separate words: the ASCII controls from tab to carriage return and from file to unit separator, the space, and the spaces and separators beyond ASCII. The zero-width space and the byte order mark are not among them. -/
def isBlank (c : Char) : Bool :=
  let n := c.val
  (9 ≤ n && n ≤ 13) || (28 ≤ n && n ≤ 32) || n == 0x85 || n == 0xA0 || n == 0x1680
    || (0x2000 ≤ n && n ≤ 0x200A) || n == 0x2028 || n == 0x2029 || n == 0x202F || n == 0x205F || n == 0x3000

theorem isBlank_of_isWhitespace {c : Char} (h : c.isWhitespace) : isBlank c := by
  simp only [Char.isWhitespace, Bool.or_eq_true, decide_eq_true_eq] at h
  rcases h with ((rfl | rfl) | rfl) | rfl <;> decide

def isBlankText (t : Text) : Bool := t.all isBlank

def stripStart (t : Text) : Text := t.dropWhile isBlank

/-- Drops the blanks at the end. -/
def stripEnd (t : Text) : Text := (t.reverse.dropWhile isBlank).reverse

def strip (t : Text) : Text := stripEnd (stripStart t)

/-- The pieces between the separators; there is one more piece than there are separators. -/
def split (sep : Char) : Text → List Text
  | [] => [[]]
  | c :: r =>
    if c = sep then [] :: split sep r
    else
      match split sep r with
      | [] => [[c]]
      | piece :: pieces => (c :: piece) :: pieces

/-- The pieces with one separator between neighbours. -/
def join (sep : Text) : List Text → Text
  | [] => []
  | [piece] => piece
  | piece :: pieces => piece ++ sep ++ join sep pieces

theorem split_ne_nil (sep : Char) (t : Text) : split sep t ≠ [] := by
  cases t with
  | nil => simp [split]
  | cons c r =>
    simp only [split]
    split
    · simp
    · split <;> simp

theorem join_split (sep : Char) (t : Text) : join [sep] (split sep t) = t := by
  induction t with
  | nil => rfl
  | cons c r ih =>
    by_cases h : c = sep
    · obtain ⟨piece, pieces, hs⟩ := List.exists_cons_of_ne_nil (split_ne_nil sep r)
      rw [hs] at ih
      simp [split, h, hs, join, ih]
    · obtain ⟨piece, pieces, hs⟩ := List.exists_cons_of_ne_nil (split_ne_nil sep r)
      rw [hs] at ih
      simp only [split, h, if_false, hs]
      cases pieces <;> simp_all [join]

/-- The lines of a text. Only the line feed ends a line, so a carriage return before it belongs to the line. -/
def lines (t : Text) : List Text := split '\n' t

def unlines (ls : List Text) : Text := join ['\n'] ls

theorem unlines_lines (t : Text) : unlines (lines t) = t := join_split '\n' t

/-- What follows `start` in a text that begins with it. -/
def after? (start : Text) (t : Text) : Option Text :=
  if start.isPrefixOf t then some (t.drop start.length) else none

def startsWith (start : Text) (t : Text) : Bool := start.isPrefixOf t

/-- Whether `part` occurs somewhere in the text. -/
def contains (part : Text) : Text → Bool
  | [] => part.isEmpty
  | c :: r => part.isPrefixOf (c :: r) || contains part r

/-- Drops the byte order marks at the start of a file. -/
def dropMarks (t : Text) : Text := t.dropWhile (· == '\uFEFF')

/-- The order by code points, a start before what it starts. -/
def le : Text → Text → Bool
  | [], _ => true
  | _ :: _, [] => false
  | a :: s, b :: t => a.val < b.val || (a == b && le s t)

/-- The members of a list in order, each once. -/
def sortedSet (ts : List Text) : List Text := (ts.mergeSort le).eraseReps

/-- A whole number in decimal, with a minus sign before a negative one. -/
def ofInt (n : Int) : Text := (toString n).toList

end Text

end LineTags
