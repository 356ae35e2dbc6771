import LineTags.Text.Basic

/-!
# Positions

A place in a text is an offset, or a line counted from one and a column counted from zero. Lines and columns come from outside and may be any integers: a missing line has no offset, a column beyond its line stands for the nearest one.
-/

namespace LineTags.Text

/-- The offset behind the given number of line feeds. -/
def offsetBehind? : Nat → Text → Option Nat
  | 0, _ => some 0
  | _ + 1, [] => none
  | n + 1, c :: r => (offsetBehind? (if c = '\n' then n else n + 1) r).map (· + 1)

/-- The offset where a line starts. -/
def lineStart? (t : Text) (line : Int) : Option Nat :=
  if line < 1 then none else offsetBehind? (line.toNat - 1) t

/-- The offset where the line that holds an offset ends. -/
def lineEnd (t : Text) (start : Nat) : Nat := start + ((t.drop start).takeWhile (· != '\n')).length

def lineCount (t : Text) : Nat := t.count '\n' + 1

/-- A line: what stands from its start to its end. -/
def line? (t : Text) (line : Int) : Option Text := (lineStart? t line).map fun start => (t.take (lineEnd t start)).drop start

def offset? (t : Text) (line column : Int) : Option Nat :=
  (lineStart? t line).map fun start => min (start + column.toNat) (lineEnd t start)

/-- The line and column of an offset. -/
def position (t : Text) (offset : Nat) : Nat × Nat :=
  let before := t.take offset
  (before.count '\n' + 1, (before.reverse.takeWhile (· != '\n')).length)

/-- Like `offset?`, but a line beyond the text stands for its end, and one before it for its start. -/
def nearestOffset (t : Text) (line column : Int) : Nat :=
  if line < 1 then 0 else (offset? t line column).getD t.length

end LineTags.Text
