import LineTags.Buffer.Position

/-!
# Buffers

A buffer is an editable text whose lines can be anchored. An anchor is a range that moves with the text: it covers a whole line when it is made, typing before it or at its start pushes it along, typing at its end does not make it grow, and once its text has been deleted it has no start any more. There is more than one kind of buffer; all that the rest of the library needs of a kind is collected here.
-/

namespace LineTags

inductive BufferError
  | noLine (line : Int)
  | destroyed
  deriving DecidableEq

def BufferError.message : BufferError → Text
  | noLine line => "line ".toList ++ Text.ofInt line ++ " out of range".toList
  | destroyed => "the text does not exist any more".toList

class LineBuffer (β : Type) where
  /-- A buffer without text. -/
  fresh : β
  text : β → Text
  setText : Text → β → β
  insert : (line column : Int) → Text → β → Except BufferError β
  delete : (startLine startColumn endLine endColumn : Int) → β → Except BufferError β
  /-- Anchors a line. The anchors of a buffer are numbered from one. -/
  createAnchor : Int → β → Except BufferError (Nat × β)
  /-- The line and column where an anchor starts, unless it has collapsed or was released. -/
  anchorStart? : Nat → β → Option (Nat × Nat)
  releaseAnchor : Nat → β → β
  clearAnchors : β → β
  /-- Whether the buffer can still be used. -/
  isAlive : β → Bool

namespace LineBuffer

variable {β : Type} [LineBuffer β]

def lineCount (b : β) : Nat := (text b).lineCount

def line? (b : β) (line : Int) : Option Text := Text.line? (text b) line

def getLine (b : β) (line : Int) : Except BufferError Text :=
  match line? b line with
  | some t => .ok t
  | none => .error (.noLine line)

def anchorLine? (handle : Nat) (b : β) : Option Nat := (anchorStart? handle b).map Prod.fst

/-- Inserts whole lines before a line, or behind the last one. -/
def insertLines (before : Int) (ls : List Text) (b : β) : Except BufferError β := do
  let block := Text.unlines ls
  let count : Int := lineCount b
  if count < before then insert count (← getLine b count).length ('\n' :: block) b
  else insert before 0 (block ++ ['\n']) b

/-- Deletes whole lines. With the last line goes the line feed before the first. -/
def deleteLines (first last : Int) (b : β) : Except BufferError β := do
  let count : Int := lineCount b
  let last := min last count
  if last < count then delete first 0 (last + 1) 0 b
  else if 1 < first then
    delete (first - 1) (← getLine b (first - 1)).length last (← getLine b last).length b
  else delete 1 0 last (← getLine b last).length b

end LineBuffer

end LineTags
