import LineTags.Buffer.Basic
import LineTags.Extraction

/-!
# Trackers

The identifier of a line is not part of the edited text. A tracker remembers which identifier belongs to which anchor of its buffer. Asking where the identifiers are also tidies up: an anchor whose text is gone is released, and so is an anchor on a line where another one starts earlier, or was bound earlier at the same place. An identifier may sit on several lines, each time with an anchor of its own.
-/

namespace LineTags

structure Tracker (β : Type) where
  buffer : β
  file : Option Text := none
  /-- The identifiers of the anchors, in the order of binding. -/
  bound : List (Nat × Text) := []

namespace Tracker

variable {β : Type} [LineBuffer β]

/-- An anchor that has not collapsed, with its identifier and its place. -/
structure LiveAnchor where
  handle : Nat
  identifier : Text
  line : Nat
  column : Nat
  deriving DecidableEq

def LiveAnchor.startsNoLater (a b : LiveAnchor) : Bool := a.line < b.line || (a.line == b.line && a.column ≤ b.column)

/-- The anchors that have not collapsed, in the order of their places. -/
def live (t : Tracker β) : List LiveAnchor :=
  (t.bound.filterMap fun (handle, identifier) =>
    (LineBuffer.anchorStart? handle t.buffer).map fun (line, column) => ⟨handle, identifier, line, column⟩).mergeSort
    LiveAnchor.startsNoLater

/-- Keeps the first anchor of each line. -/
def firstOfLines (seen : List Nat) : List LiveAnchor → List LiveAnchor
  | [] => []
  | a :: r => if a.line ∈ seen then firstOfLines seen r else a :: firstOfLines (a.line :: seen) r

/-- The anchors that count: one a line. -/
def kept (t : Tracker β) : List LiveAnchor := firstOfLines [] t.live

/-- The lines with identifiers, in order. -/
def associations (t : Tracker β) : List LineId := t.kept.map fun a => ⟨a.line, a.identifier⟩

/-- Releases one anchor. -/
def release (t : Tracker β) (handle : Nat) : Tracker β :=
  { t with bound := t.bound.filter (·.1 ≠ handle), buffer := LineBuffer.releaseAnchor handle t.buffer }

/-- Releases the anchors that do not count. -/
def tidy (t : Tracker β) : Tracker β :=
  let handles := t.kept.map LiveAnchor.handle
  (t.bound.filter (·.1 ∉ handles)).foldl (fun t b => t.release b.1) t

def size (t : Tracker β) : Nat := t.bound.length

def identifierAt? (t : Tracker β) (line : Int) : Option Text :=
  (t.associations.find? (·.line == line)).map LineId.identifier

def lineOf? (t : Tracker β) (identifier : Text) : Option Int :=
  (t.associations.find? (·.identifier == identifier)).map LineId.line

def identifiers (t : Tracker β) : List Text := t.associations.map LineId.identifier

/-- Whether a line exists and has code that a tag can go to. -/
def canCarry (t : Tracker β) (line : Int) : Bool :=
  match LineBuffer.line? t.buffer line with
  | some l => !hasNoCode l
  | none => false

/-- Puts an identifier on a line. A line without code, or with another identifier, refuses it. -/
def bind (t : Tracker β) (line : Int) (identifier : Text) : Bool × Tracker β :=
  if t.canCarry line then
    match t.identifierAt? line with
    | some holder => (holder = identifier, t.tidy)
    | none =>
      match LineBuffer.createAnchor line t.tidy.buffer with
      | .ok (handle, buffer) => (true, { t.tidy with buffer, bound := t.tidy.bound ++ [(handle, identifier)] })
      | .error _ => (false, t.tidy)
  else (false, t)

def clear (t : Tracker β) : Tracker β := { t with bound := [], buffer := LineBuffer.clearAnchors t.buffer }

def bindAll (t : Tracker β) (ids : List LineId) : Tracker β := ids.foldl (fun t a => (t.bind a.line a.identifier).2) t

/-- Starts over with the identifiers of a file. -/
def rebind (t : Tracker β) (file : Option Text) (ids : List LineId) : Tracker β := bindAll { t.clear with file } ids

/-- Takes an identifier off every line that has it. -/
def unbind (t : Tracker β) (identifier : Text) : Tracker β :=
  (t.bound.filter (·.2 = identifier)).foldl (fun t b => t.release b.1) t

def text (t : Tracker β) : Text := LineBuffer.text t.buffer

/-- The text with its tags, as a file holds it. -/
def fullContent (t : Tracker β) : Text := reconstruct t.text t.associations

/-- Shows a new text with its identifiers. -/
def load (t : Tracker β) (file : Option Text) (e : Extraction) : Tracker β :=
  rebind { t with buffer := LineBuffer.setText e.clean t.buffer } file e.ids

/-- Edits the buffer. -/
def edit (t : Tracker β) (change : β → Except BufferError β) : Except BufferError (Tracker β) :=
  (change t.buffer).map fun buffer => { t with buffer }

end Tracker

end LineTags
