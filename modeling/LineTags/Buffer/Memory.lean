import LineTags.Buffer.Basic

/-!
# Plain buffers

A text with its anchors as pairs of offsets. Every edit is one insertion or one deletion at offsets, and moves the ends of every anchor.
-/

namespace LineTags

/-- The ends of an anchor. It has collapsed when the start is not before the stop. -/
structure AnchorRange where
  start : Nat
  stop : Nat
  deriving DecidableEq

namespace AnchorRange

/-- An insertion at the start pushes the range along; one at the stop leaves it. -/
def afterInsert (pos width : Nat) (r : AnchorRange) : AnchorRange :=
  ⟨if pos ≤ r.start then r.start + width else r.start, if pos < r.stop then r.stop + width else r.stop⟩

/-- Where an offset comes to lie when the text between `a` and `b` goes. -/
def shrink (a b offset : Nat) : Nat := if b ≤ offset then offset - (b - a) else if a < offset then a else offset

def afterDelete (a b : Nat) (r : AnchorRange) : AnchorRange := ⟨shrink a b r.start, shrink a b r.stop⟩

end AnchorRange

structure MemoryBuffer where
  text : Text := []
  anchors : List (Nat × AnchorRange) := []
  nextHandle : Nat := 1
  deriving DecidableEq

namespace MemoryBuffer

def ofText (t : Text) : MemoryBuffer := { text := t }

def insertAt (pos : Nat) (t : Text) (b : MemoryBuffer) : MemoryBuffer :=
  { b with
    text := b.text.take pos ++ t ++ b.text.drop pos
    anchors := b.anchors.map fun (h, r) => (h, r.afterInsert pos t.length) }

/-- Deletes the text from offset `start` up to `stop`. -/
def deleteBetween (start stop : Nat) (b : MemoryBuffer) : MemoryBuffer :=
  { b with
    text := b.text.take start ++ b.text.drop stop
    anchors := b.anchors.map fun (h, r) => (h, r.afterDelete start stop) }

def offset (b : MemoryBuffer) (line column : Int) : Except BufferError Nat :=
  match b.text.offset? line column with
  | some n => .ok n
  | none => .error (.noLine line)

def setText (t : Text) (b : MemoryBuffer) : MemoryBuffer := (b.deleteBetween 0 b.text.length).insertAt 0 t

def insert (line column : Int) (t : Text) (b : MemoryBuffer) : Except BufferError MemoryBuffer := do
  return b.insertAt (← b.offset line column) t

/-- Deletes the text between two places, given in any order. -/
def delete (startLine startColumn endLine endColumn : Int) (b : MemoryBuffer) : Except BufferError MemoryBuffer := do
  let start ← b.offset startLine startColumn
  let stop ← b.offset endLine endColumn
  return b.deleteBetween (min start stop) (max start stop)

def createAnchor (line : Int) (b : MemoryBuffer) : Except BufferError (Nat × MemoryBuffer) :=
  match b.text.lineStart? line with
  | some start =>
    let range : AnchorRange := ⟨start, b.text.lineEnd start⟩
    .ok (b.nextHandle, { b with anchors := b.anchors ++ [(b.nextHandle, range)], nextHandle := b.nextHandle + 1 })
  | none => .error (.noLine line)

def anchorStart? (handle : Nat) (b : MemoryBuffer) : Option (Nat × Nat) :=
  ((b.anchors.lookup handle).filter fun r => r.start < r.stop).map fun r => b.text.position r.start

def releaseAnchor (handle : Nat) (b : MemoryBuffer) : MemoryBuffer :=
  { b with anchors := b.anchors.filter fun a => a.1 ≠ handle }

instance : LineBuffer MemoryBuffer where
  fresh := {}
  text := text
  setText := setText
  insert := insert
  delete := delete
  createAnchor := createAnchor
  anchorStart? := anchorStart?
  releaseAnchor := releaseAnchor
  clearAnchors b := { b with anchors := [] }
  isAlive _ := true

end MemoryBuffer

end LineTags
