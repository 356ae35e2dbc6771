import LineTags.Text.Basic

/-!
# Line breaks

Two older conventions beside the plain line feed. A file may end its lines by a carriage return, alone or before the line feed; read as one convention they all become line feeds. And a text may be cut at every character that any system uses to end a line.
-/

namespace LineTags.Text

/-- Turns every carriage return, alone or before a line feed, into one line feed. -/
def unifyNewlines : Text → Text
  | [] => []
  | '\r' :: '\n' :: r => '\n' :: unifyNewlines r
  | '\r' :: r => '\n' :: unifyNewlines r
  | c :: r => c :: unifyNewlines r

theorem unifyNewlines_eq_self {t : Text} (h : '\r' ∉ t) : unifyNewlines t = t := by
  induction t with
  | nil => rfl
  | cons c r ih =>
    have hc : c ≠ '\r' := fun e => h (by simp [e])
    have hr : '\r' ∉ r := fun e => h (by simp [e])
    rw [unifyNewlines, ih hr] <;> simp [hc]

/-- Line feed, carriage return, vertical tab, form feed, the file, group and record separators, next line, and the line and paragraph separators. -/
def isLineBreak (c : Char) : Bool :=
  let n := c.val
  (10 ≤ n && n ≤ 13) || (28 ≤ n && n ≤ 30) || n == 0x85 || n == 0x2028 || n == 0x2029

/-- The lines between line breaks of any kind. A break at the end opens no further line, and a carriage return with its line feed is one break. -/
def brokenLines : Text → List Text
  | [] => []
  | '\r' :: '\n' :: r => [] :: brokenLines r
  | c :: r =>
    if isLineBreak c then [] :: brokenLines r
    else
      match brokenLines r with
      | [] => [[c]]
      | l :: ls => (c :: l) :: ls

end LineTags.Text
