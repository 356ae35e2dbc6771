import LineTags.Buffer.Basic

/-!
# Text widgets

The text that an editor shows. It has marks, which move with the text and at an insertion right at them stay or go by their gravity; a selection; and a flag that says whether the text was modified, each change of which raises an event. A place outside the text stands for the nearest one inside. The anchor of a line is a pair of marks: what is typed at the start goes before the first, what is typed at the end goes behind the second.
-/

namespace LineTags

inductive Gravity
  | left
  | right
  deriving DecidableEq

structure Mark where
  offset : Nat
  gravity : Gravity
  deriving DecidableEq

namespace Mark

def afterInsert (pos width : Nat) (m : Mark) : Mark :=
  if pos < m.offset ∨ (pos = m.offset ∧ m.gravity = .right) then { m with offset := m.offset + width } else m

/-- Marks in deleted text gather where it was. -/
def afterDelete (start stop : Nat) (m : Mark) : Mark :=
  if stop ≤ m.offset then { m with offset := m.offset - (stop - start) }
  else if start < m.offset then { m with offset := start }
  else m

end Mark

structure Widget where
  content : Text := []
  /-- The mark where typed text goes. -/
  cursor : Mark := ⟨0, .right⟩
  /-- The two marks of each anchor. -/
  anchors : List (Nat × Mark × Mark) := []
  nextHandle : Nat := 1
  /-- The ends of the selected text, if some is selected. -/
  selection : Option (Mark × Mark) := none
  modified : Bool := false
  /-- The events about the modified flag that were raised and not delivered yet. -/
  pendingEvents : Nat := 0
  alive : Bool := true
  deriving DecidableEq

namespace Widget

def setModified (flag : Bool) (w : Widget) : Widget :=
  if w.modified = flag then w else { w with modified := flag, pendingEvents := w.pendingEvents + 1 }

/-- Moves every mark. A selection without text vanishes. -/
def moveMarks (move : Mark → Mark) (w : Widget) : Widget :=
  { w with
    cursor := move w.cursor
    anchors := w.anchors.map fun (h, first, last) => (h, move first, move last)
    selection := (w.selection.map fun (first, last) => (move first, move last)).filter fun (first, last) =>
      first.offset < last.offset }

def insertAt (pos : Nat) (t : Text) (w : Widget) : Widget :=
  if t.isEmpty then w
  else
    let w := { w with content := w.content.take pos ++ t ++ w.content.drop pos }
    (w.moveMarks (Mark.afterInsert pos t.length)).setModified true

def deleteBetween (start stop : Nat) (w : Widget) : Widget :=
  if stop ≤ start then w
  else
    let w := { w with content := w.content.take start ++ w.content.drop stop }
    (w.moveMarks (Mark.afterDelete start stop)).setModified true

def offset (w : Widget) (line column : Int) : Nat := w.content.nearestOffset line column

def setText (t : Text) (w : Widget) : Widget := (w.deleteBetween 0 w.content.length).insertAt 0 t

def whileAlive {α : Type} (w : Widget) (result : α) : Except BufferError α :=
  if w.alive then .ok result else .error .destroyed

/-- The offset where a line ends; a line beyond the text stands for its end. -/
def endOfLine (w : Widget) (line : Int) : Nat := w.content.lineEnd (w.offset line 0)

def createAnchor (line : Int) (w : Widget) : Nat × Widget :=
  let first : Mark := ⟨w.offset line 0, .right⟩
  let last : Mark := ⟨w.endOfLine line, .left⟩
  (w.nextHandle, { w with anchors := w.anchors ++ [(w.nextHandle, first, last)], nextHandle := w.nextHandle + 1 })

def anchorStart? (handle : Nat) (w : Widget) : Option (Nat × Nat) :=
  if w.alive then
    ((w.anchors.lookup handle).filter fun (first, last) => first.offset < last.offset).map fun (first, _) =>
      w.content.position first.offset
  else none

instance : LineBuffer Widget where
  fresh := {}
  text := content
  setText := setText
  insert line column t w := w.whileAlive (w.insertAt (w.offset line column) t)
  delete startLine startColumn endLine endColumn w :=
    w.whileAlive (w.deleteBetween (w.offset startLine startColumn) (w.offset endLine endColumn))
  createAnchor line w := w.whileAlive (w.createAnchor line)
  anchorStart? := anchorStart?
  releaseAnchor handle w := { w with anchors := w.anchors.filter fun a => a.1 ≠ handle }
  clearAnchors w := { w with anchors := [] }
  isAlive := alive

/-! The rest is what a user does with a text. -/

def cursorPosition (w : Widget) : Nat × Nat := w.content.position w.cursor.offset

def setCursor (line column : Int) (w : Widget) : Widget :=
  { w with cursor := { w.cursor with offset := w.offset line column } }

/-- Selects the text between two places; nothing is selected if there is none. -/
def select (startLine startColumn endLine endColumn : Int) (w : Widget) : Widget :=
  let first : Mark := ⟨w.offset startLine startColumn, .right⟩
  let last : Mark := ⟨w.offset endLine endColumn, .left⟩
  { w with selection := if first.offset < last.offset then some (first, last) else none }

def selectedText? (w : Widget) : Option Text :=
  w.selection.map fun (first, last) => (w.content.take last.offset).drop first.offset

def deleteSelection (w : Widget) : Widget :=
  match w.selection with
  | some (first, last) => w.deleteBetween first.offset last.offset
  | none => w

/-- Inserts text where the cursor stands. -/
def type (t : Text) (w : Widget) : Widget := w.insertAt w.cursor.offset t

end Widget

end LineTags
