import LineTags.Proofs.Buffer.Binding
import LineTags.Proofs.Buffer.Calls
import LineTags.Proofs.Buffer.Rows

/-!
# The two kinds of buffers agree

A plain buffer keeps two offsets for an anchor, a widget keeps two marks, which the toolkit moves by its own rules. The marks of opposite gravity move just as the offsets do, so a widget and a plain buffer that go through the same calls stay the same in all that they tell: their texts, the numbers of their anchors, and where these start. They differ only on calls that ask for places that do not exist, where a widget takes the nearest one and a plain buffer refuses, and on a deletion whose end lies before its start.
-/

namespace LineTags

open LineBuffer

/-! ## Calls that both kinds take alike -/

namespace BufferCall

variable {β : Type} [LineBuffer β]

/-- What a call gives back: the number of a new anchor, nothing, or an error. -/
def outcome (b : β) : BufferCall → Except BufferError (Option Nat)
  | insert line column t => (LineBuffer.insert line column t b).map fun _ => none
  | delete l c l' c' => (LineBuffer.delete l c l' c' b).map fun _ => none
  | insertLines before ls => (LineBuffer.insertLines before ls b).map fun _ => none
  | deleteLines first last => (LineBuffer.deleteLines first last b).map fun _ => none
  | createAnchor line => (LineBuffer.createAnchor line b).map fun made => some made.1
  | setText _ | releaseAnchor _ | clearAnchors => .ok none

/-- Whether the places that a call names exist in a text, and are in order where it names two. Whole lines may also be inserted behind the last one. -/
def Fits (t : Text) : BufferCall → Prop
  | insert line column _ => ∃ pos, t.offset? line column = some pos
  | delete l c l' c' => ∃ start stop, t.offset? l c = some start ∧ t.offset? l' c' = some stop ∧ start ≤ stop
  | insertLines before _ => 1 ≤ before
  | deleteLines first last => 1 ≤ first ∧ first ≤ last ∧ first ≤ t.lineCount
  | createAnchor line => ∃ l, t.line? line = some l
  | setText _ | releaseAnchor _ | clearAnchors => True

end BufferCall

/-- The calls on a tracker and on its buffer. Asking where the identifiers are is one of them, because it tidies. -/
inductive TrackerCall
  | edit (call : BufferCall)
  | bind (line : Int) (identifier : Text)
  | unbind (identifier : Text)
  | rebind (file : Option Text) (ids : List LineId)
  | clear
  | ask

namespace TrackerCall

variable {β : Type} [LineBuffer β]

def perform (t : Tracker β) : TrackerCall → Tracker β
  | edit call => { t with buffer := call.perform t.buffer }
  | bind line identifier => (t.bind line identifier).2
  | unbind identifier => t.unbind identifier
  | rebind file ids => t.rebind file ids
  | clear => t.clear
  | ask => t.tidy

def performAll (t : Tracker β) (calls : List TrackerCall) : Tracker β := calls.foldl perform t

/-- Only edits name places that must exist; binding takes any line. -/
def Fits (t : Text) : TrackerCall → Prop
  | edit call => call.Fits t
  | bind _ _ | unbind _ | rebind _ _ | clear | ask => True

/-- Whether every call fits the text it meets. -/
def FitsAll (t : Tracker β) : List TrackerCall → Prop
  | [] => True
  | call :: calls => call.Fits t.text ∧ FitsAll (call.perform t) calls

end TrackerCall

/-! ## One edit -/

/-- The marks that stand for two offsets: the first goes along with what is inserted at it, the second stays. -/
def AnchorRange.marks (r : AnchorRange) : Mark × Mark := (⟨r.start, .right⟩, ⟨r.stop, .left⟩)

namespace AnchorRange

theorem marks_afterInsert (pos width : Nat) (r : AnchorRange) :
    (r.afterInsert pos width).marks = (r.marks.1.afterInsert pos width, r.marks.2.afterInsert pos width) := by
  have hfirst : pos < r.start ∨ pos = r.start ↔ pos ≤ r.start := by omega
  simp only [marks, afterInsert, Mark.afterInsert, and_true, reduceCtorEq, and_false, or_false, hfirst]
  split <;> split <;> rfl

theorem afterDelete_mark (start stop offset : Nat) (gravity : Gravity) :
    Mark.afterDelete start stop ⟨offset, gravity⟩ = ⟨shrink start stop offset, gravity⟩ := by
  simp only [Mark.afterDelete, shrink]
  split
  · rfl
  · split <;> rfl

theorem marks_afterDelete (start stop : Nat) (r : AnchorRange) :
    (r.afterDelete start stop).marks = (r.marks.1.afterDelete start stop, r.marks.2.afterDelete start stop) := by
  simp [marks, afterDelete, afterDelete_mark]

@[simp] theorem afterInsert_zero (pos : Nat) (r : AnchorRange) : r.afterInsert pos 0 = r := by
  simp [afterInsert]

@[simp] theorem afterDelete_self (pos : Nat) (r : AnchorRange) : r.afterDelete pos pos = r := by
  have hshrink : ∀ offset, shrink pos pos offset = offset := by
    intro offset
    rcases Nat.le_total offset pos with hle | hge
    · exact shrink_of_le hle (Nat.le_refl pos)
    · simp [shrink_of_ge hge]
  simp [afterDelete, hshrink]

end AnchorRange

/-- A widget in use and a plain buffer with the same text and, number by number, the same anchors. -/
structure Agrees (w : Widget) (b : MemoryBuffer) : Prop where
  alive : w.alive = true
  text : w.content = b.text
  nextHandle : w.nextHandle = b.nextHandle
  anchors : w.anchors = b.anchors.map fun a => (a.1, a.2.marks)

namespace Widget

theorem content_insertAt (pos : Nat) (t : Text) (w : Widget) :
    (w.insertAt pos t).content = w.content.take pos ++ t ++ w.content.drop pos := by
  unfold insertAt setModified
  cases t with
  | nil => simp
  | cons c t =>
    simp only [List.isEmpty_cons, Bool.false_eq_true, if_false]
    split <;> rfl

theorem anchors_insertAt (pos : Nat) {t : Text} (ht : t ≠ []) (w : Widget) :
    (w.insertAt pos t).anchors =
      w.anchors.map fun a => (a.1, a.2.1.afterInsert pos t.length, a.2.2.afterInsert pos t.length) := by
  unfold insertAt setModified
  rw [if_neg (by simpa using ht)]
  dsimp only
  split <;> rfl

theorem alive_insertAt (pos : Nat) (t : Text) (w : Widget) : (w.insertAt pos t).alive = w.alive := by
  unfold insertAt setModified
  split
  · rfl
  · dsimp only
    split <;> rfl

theorem content_deleteBetween {start stop : Nat} (h : start < stop) (w : Widget) :
    (w.deleteBetween start stop).content = w.content.take start ++ w.content.drop stop := by
  unfold deleteBetween setModified
  rw [if_neg (by omega)]
  dsimp only
  split <;> rfl

theorem anchors_deleteBetween {start stop : Nat} (h : start < stop) (w : Widget) :
    (w.deleteBetween start stop).anchors =
      w.anchors.map fun a => (a.1, a.2.1.afterDelete start stop, a.2.2.afterDelete start stop) := by
  unfold deleteBetween setModified
  rw [if_neg (by omega)]
  dsimp only
  split <;> rfl

theorem alive_deleteBetween (start stop : Nat) (w : Widget) : (w.deleteBetween start stop).alive = w.alive := by
  unfold deleteBetween setModified
  split
  · rfl
  · dsimp only
    split <;> rfl

end Widget

namespace MemoryBuffer

theorem insertAt_nil (pos : Nat) (b : MemoryBuffer) : b.insertAt pos [] = b := by
  simp [insertAt]

theorem deleteBetween_self (pos : Nat) (b : MemoryBuffer) : b.deleteBetween pos pos = b := by
  simp [deleteBetween]

end MemoryBuffer

namespace Agrees

variable {w : Widget} {b : MemoryBuffer}

theorem insertAt (h : Agrees w b) (pos : Nat) (t : Text) : Agrees (w.insertAt pos t) (b.insertAt pos t) := by
  by_cases ht : t = []
  · subst ht
    rwa [MemoryBuffer.insertAt_nil, show w.insertAt pos [] = w from rfl]
  · have hnext : (w.insertAt pos t).nextHandle = w.nextHandle := congrArg Prod.snd (Widget.handles_insertAt pos t w)
    refine ⟨?_, ?_, hnext.trans h.nextHandle, ?_⟩
    · rw [Widget.alive_insertAt, h.alive]
    · rw [Widget.content_insertAt, h.text, MemoryBuffer.insertAt]
    · rw [Widget.anchors_insertAt pos ht, h.anchors, MemoryBuffer.insertAt, List.map_map, List.map_map]
      apply List.map_congr_left
      intro a _
      simp [AnchorRange.marks_afterInsert]

theorem deleteBetween (h : Agrees w b) {start stop : Nat} (hle : start ≤ stop) :
    Agrees (w.deleteBetween start stop) (b.deleteBetween start stop) := by
  rcases Nat.eq_or_lt_of_le hle with heq | hlt
  · subst heq
    rwa [MemoryBuffer.deleteBetween_self, show w.deleteBetween start start = w from if_pos (Nat.le_refl start)]
  · have hnext : (w.deleteBetween start stop).nextHandle = w.nextHandle :=
      congrArg Prod.snd (Widget.handles_deleteBetween start stop w)
    refine ⟨?_, ?_, hnext.trans h.nextHandle, ?_⟩
    · rw [Widget.alive_deleteBetween, h.alive]
    · rw [Widget.content_deleteBetween hlt, h.text, MemoryBuffer.deleteBetween]
    · rw [Widget.anchors_deleteBetween hlt, h.anchors, MemoryBuffer.deleteBetween, List.map_map, List.map_map]
      apply List.map_congr_left
      intro a _
      simp [AnchorRange.marks_afterDelete]

theorem setText (h : Agrees w b) (t : Text) : Agrees (w.setText t) (b.setText t) := by
  have hdeleted := h.deleteBetween (Nat.zero_le b.text.length)
  rw [Widget.setText, MemoryBuffer.setText, h.text]
  exact hdeleted.insertAt 0 t

theorem releaseAnchor (h : Agrees w b) (handle : Nat) :
    Agrees (LineBuffer.releaseAnchor handle w) (LineBuffer.releaseAnchor handle b) := by
  refine ⟨h.alive, h.text, h.nextHandle, ?_⟩
  simp only [LineBuffer.releaseAnchor, MemoryBuffer.releaseAnchor, h.anchors, List.filter_map]
  rfl

theorem clearAnchors (h : Agrees w b) : Agrees (LineBuffer.clearAnchors w) (LineBuffer.clearAnchors b) :=
  ⟨h.alive, h.text, h.nextHandle, rfl⟩

/-! ## What both tell -/

theorem lookup_anchors (h : Agrees w b) (handle : Nat) :
    w.anchors.lookup handle = (b.anchors.lookup handle).map AnchorRange.marks := by
  rw [h.anchors]
  induction b.anchors with
  | nil => rfl
  | cons a r ih =>
    rw [List.map_cons, List.lookup_cons, List.lookup_cons, ih]
    split <;> rfl

theorem anchorStart?_eq (h : Agrees w b) (handle : Nat) :
    LineBuffer.anchorStart? handle w = LineBuffer.anchorStart? handle b := by
  show w.anchorStart? handle = b.anchorStart? handle
  rw [Widget.anchorStart?, if_pos h.alive, MemoryBuffer.anchorStart?, h.lookup_anchors, h.text]
  cases b.anchors.lookup handle with
  | none => rfl
  | some r =>
    simp only [Option.map_some, Option.filter_some, AnchorRange.marks]
    split <;> rfl

theorem line?_eq (h : Agrees w b) (line : Int) : LineBuffer.line? w line = LineBuffer.line? b line :=
  congrArg (Text.line? · line) h.text

theorem lineCount_eq (h : Agrees w b) : LineBuffer.lineCount w = LineBuffer.lineCount b :=
  congrArg Text.lineCount h.text

theorem getLine_eq (h : Agrees w b) (line : Int) : LineBuffer.getLine w line = LineBuffer.getLine b line := by
  rw [LineBuffer.getLine, LineBuffer.getLine, h.line?_eq]

/-! ## Calls that fit -/

/-- Two calls that both succeed, and leave buffers that agree. -/
def BothEnd (x : Except BufferError Widget) (y : Except BufferError MemoryBuffer) : Prop :=
  ∃ w b, x = .ok w ∧ y = .ok b ∧ Agrees w b

theorem offset_eq (h : Agrees w b) {line column : Int} {pos : Nat} (hpos : b.text.offset? line column = some pos) :
    w.offset line column = pos := by
  have hline : ¬ line < 1 := by
    intro hlt
    rw [Text.offset?, Text.lineStart?, if_pos hlt] at hpos
    cases hpos
  rw [Widget.offset, h.text, Text.nearestOffset, if_neg hline, hpos, Option.getD_some]

theorem insert (h : Agrees w b) {line column : Int} {pos : Nat} (hpos : b.text.offset? line column = some pos)
    (t : Text) : BothEnd (LineBuffer.insert line column t w) (LineBuffer.insert line column t b) := by
  refine ⟨w.insertAt pos t, b.insertAt pos t, ?_, MemoryBuffer.insert_of_offset? hpos t, h.insertAt pos t⟩
  show w.whileAlive (w.insertAt (w.offset line column) t) = _
  rw [Widget.whileAlive, if_pos h.alive, h.offset_eq hpos]

theorem delete (h : Agrees w b) {l c l' c' : Int} {start stop : Nat} (hstart : b.text.offset? l c = some start)
    (hstop : b.text.offset? l' c' = some stop) (hle : start ≤ stop) :
    BothEnd (LineBuffer.delete l c l' c' w) (LineBuffer.delete l c l' c' b) := by
  refine ⟨w.deleteBetween start stop, b.deleteBetween start stop, ?_, MemoryBuffer.delete_of_offset? hstart hstop hle,
    h.deleteBetween hle⟩
  show w.whileAlive (w.deleteBetween (w.offset l c) (w.offset l' c')) = _
  rw [Widget.whileAlive, if_pos h.alive, h.offset_eq hstart, h.offset_eq hstop]

theorem insertLines (h : Agrees w b) {before : Int} (hbefore : 1 ≤ before) (ls : List Text) :
    BothEnd (LineBuffer.insertLines before ls w) (LineBuffer.insertLines before ls b) := by
  have hcount : 1 ≤ b.text.lineCount := Nat.le_add_left 1 _
  unfold LineBuffer.insertLines
  dsimp only
  rw [h.lineCount_eq, h.getLine_eq]
  by_cases hpast : (LineBuffer.lineCount b : Int) < before
  · obtain ⟨l, hl⟩ : ∃ l, b.text.line? b.text.lineCount = some l := Text.exists_line?_iff.2 (by omega)
    rw [if_pos hpast, if_pos hpast, show LineBuffer.getLine b (LineBuffer.lineCount b) = .ok l from MemoryBuffer.getLine_of_line? hl]
    exact h.insert (Text.offset?_length hl) _
  · obtain ⟨l, hl⟩ : ∃ l, b.text.line? before = some l :=
      Text.exists_line?_iff.2 ⟨hbefore, Int.not_lt.1 hpast⟩
    rw [if_neg hpast, if_neg hpast]
    exact h.insert (Text.offset?_zero hl) _

theorem deleteLines (h : Agrees w b) {first last : Int} (hone : 1 ≤ first) (hle : first ≤ last)
    (hexists : first ≤ b.text.lineCount) :
    BothEnd (LineBuffer.deleteLines first last w) (LineBuffer.deleteLines first last b) := by
  unfold LineBuffer.deleteLines
  dsimp only
  rw [h.lineCount_eq, h.getLine_eq, h.getLine_eq, show LineBuffer.lineCount b = b.text.lineCount from rfl]
  obtain ⟨stop, hstop⟩ : ∃ stop, stop = min last (b.text.lineCount : Int) := ⟨_, rfl⟩
  rw [← hstop]
  obtain ⟨l', hl'⟩ : ∃ l', b.text.line? stop = some l' := Text.exists_line?_iff.2 (by omega)
  by_cases hinner : stop < b.text.lineCount
  · obtain ⟨l, hl⟩ : ∃ l, b.text.line? first = some l := Text.exists_line?_iff.2 (by omega)
    obtain ⟨next, hnext⟩ : ∃ next, b.text.line? (stop + 1) = some next := Text.exists_line?_iff.2 (by omega)
    rw [if_pos hinner, if_pos hinner]
    exact h.delete (Text.offset?_zero hl) (Text.offset?_zero hnext) (Text.rowStart_le _ (by omega))
  rw [if_neg hinner, if_neg hinner, MemoryBuffer.getLine_of_line? hl']
  by_cases hfirst : 1 < first
  · obtain ⟨l, hl⟩ : ∃ l, b.text.line? (first - 1) = some l := Text.exists_line?_iff.2 (by omega)
    rw [if_pos hfirst, if_pos hfirst, MemoryBuffer.getLine_of_line? hl]
    refine h.delete (Text.offset?_length hl) (Text.offset?_length hl') ?_
    have hrow := (Text.line?_eq_some_iff.1 hl).2
    have hlt := Text.rowStart_add_lt hrow (show (first - 1).toNat - 1 < stop.toNat - 1 by omega)
    omega
  · obtain ⟨l, hl⟩ : ∃ l, b.text.line? 1 = some l := Text.exists_line?_iff.2 (by omega)
    rw [if_neg hfirst, if_neg hfirst]
    refine h.delete (Text.offset?_zero hl) (Text.offset?_length hl') ?_
    simp

theorem createAnchor (h : Agrees w b) {line : Int} {l : Text} (hline : b.text.line? line = some l) :
    ∃ w' b', LineBuffer.createAnchor line w = .ok (b.nextHandle, w') ∧
      LineBuffer.createAnchor line b = .ok (b.nextHandle, b') ∧ Agrees w' b' := by
  obtain ⟨start, hstart⟩ : ∃ start, b.text.lineStart? line = some start := ⟨_, Text.lineStart?_eq hline⟩
  have hoffset : w.offset line 0 = start := Widget.offset_zero (h.text ▸ hstart)
  let range : AnchorRange := ⟨start, b.text.lineEnd start⟩
  let anchored : MemoryBuffer :=
    { b with anchors := b.anchors ++ [(b.nextHandle, range)], nextHandle := b.nextHandle + 1 }
  have hagrees : Agrees (w.createAnchor line).2 anchored := by
    refine ⟨h.alive, h.text, congrArg (· + 1) h.nextHandle, ?_⟩
    simp [anchored, range, Widget.createAnchor, Widget.endOfLine, hoffset, h.anchors, h.text, h.nextHandle,
      AnchorRange.marks]
  refine ⟨(w.createAnchor line).2, anchored, ?_, ?_, hagrees⟩
  · show w.whileAlive (w.createAnchor line) = _
    rw [Widget.whileAlive, if_pos h.alive, Widget.createAnchor, h.nextHandle]
  · show b.createAnchor line = _
    rw [MemoryBuffer.createAnchor, hstart]

theorem perform_of_bothEnd {x : Except BufferError Widget} {y : Except BufferError MemoryBuffer} (hend : BothEnd x y) :
    Agrees (x.toOption.getD w) (y.toOption.getD b) ∧
      x.map (fun _ => (none : Option Nat)) = .ok none ∧ y.map (fun _ => (none : Option Nat)) = .ok none := by
  obtain ⟨w', b', rfl, rfl, h⟩ := hend
  exact ⟨h, rfl, rfl⟩

/-- A call that fits succeeds on both, gives back the same, and leaves buffers that agree. -/
theorem perform (h : Agrees w b) {call : BufferCall} (hfits : call.Fits b.text) :
    Agrees (call.perform w) (call.perform b) ∧
      ∃ made, call.outcome w = .ok made ∧ call.outcome b = .ok made := by
  cases call with
  | insert line column t =>
    obtain ⟨pos, hpos⟩ := hfits
    obtain ⟨hagrees, hw, hb⟩ := perform_of_bothEnd (h.insert hpos t)
    exact ⟨hagrees, none, hw, hb⟩
  | delete l c l' c' =>
    obtain ⟨start, stop, hstart, hstop, hle⟩ := hfits
    obtain ⟨hagrees, hw, hb⟩ := perform_of_bothEnd (h.delete hstart hstop hle)
    exact ⟨hagrees, none, hw, hb⟩
  | insertLines before ls =>
    obtain ⟨hagrees, hw, hb⟩ := perform_of_bothEnd (h.insertLines hfits ls)
    exact ⟨hagrees, none, hw, hb⟩
  | deleteLines first last =>
    obtain ⟨hone, hle, hexists⟩ := hfits
    obtain ⟨hagrees, hw, hb⟩ := perform_of_bothEnd (h.deleteLines hone hle hexists)
    exact ⟨hagrees, none, hw, hb⟩
  | createAnchor line =>
    obtain ⟨l, hl⟩ := hfits
    obtain ⟨w', b', hw, hb, hagrees⟩ := h.createAnchor hl
    simp only [BufferCall.perform, BufferCall.outcome, hw, hb]
    exact ⟨hagrees, _, rfl, rfl⟩
  | setText t => exact ⟨h.setText t, none, rfl, rfl⟩
  | releaseAnchor handle => exact ⟨h.releaseAnchor handle, none, rfl, rfl⟩
  | clearAnchors => exact ⟨h.clearAnchors, none, rfl, rfl⟩

end Agrees

/-! ## Trackers over the two kinds -/

/-- Two trackers with the same anchors, over buffers that agree. -/
structure SameTracker (t : Tracker Widget) (u : Tracker MemoryBuffer) : Prop where
  buffer : Agrees t.buffer u.buffer
  file : t.file = u.file
  bound : t.bound = u.bound

namespace SameTracker

variable {t : Tracker Widget} {u : Tracker MemoryBuffer}

theorem text_eq (h : SameTracker t u) : t.text = u.text := h.buffer.text

theorem live_eq (h : SameTracker t u) : t.live = u.live := by
  simp only [Tracker.live, h.bound, h.buffer.anchorStart?_eq]

theorem kept_eq (h : SameTracker t u) : t.kept = u.kept := by
  rw [Tracker.kept, Tracker.kept, h.live_eq]

theorem associations_eq (h : SameTracker t u) : t.associations = u.associations := by
  rw [Tracker.associations, Tracker.associations, h.kept_eq]

theorem release (h : SameTracker t u) (handle : Nat) : SameTracker (t.release handle) (u.release handle) where
  buffer := h.buffer.releaseAnchor handle
  file := h.file
  bound := by simp only [Tracker.release, h.bound]

theorem releaseAll (h : SameTracker t u) (entries : List (Nat × Text)) :
    SameTracker (t.releaseAll entries) (u.releaseAll entries) := by
  induction entries generalizing t u with
  | nil => exact h
  | cons entry entries ih => exact ih (h.release entry.1)

theorem tidy (h : SameTracker t u) : SameTracker t.tidy u.tidy := by
  have hreleased := h.releaseAll (t.bound.filter (·.1 ∉ t.kept.map Tracker.LiveAnchor.handle))
  simp only [Tracker.tidy]
  rw [← h.kept_eq, ← h.bound]
  exact hreleased

theorem unbind (h : SameTracker t u) (identifier : Text) : SameTracker (t.unbind identifier) (u.unbind identifier) := by
  have hreleased := h.releaseAll (t.bound.filter (·.2 = identifier))
  rw [Tracker.unbind, Tracker.unbind, ← h.bound]
  exact hreleased

theorem clear (h : SameTracker t u) : SameTracker t.clear u.clear where
  buffer := h.buffer.clearAnchors
  file := h.file
  bound := rfl

theorem canCarry_eq (h : SameTracker t u) (line : Int) : t.canCarry line = u.canCarry line := by
  rw [Tracker.canCarry, Tracker.canCarry, h.buffer.line?_eq]

theorem identifierAt?_eq (h : SameTracker t u) (line : Int) : t.identifierAt? line = u.identifierAt? line := by
  rw [Tracker.identifierAt?, Tracker.identifierAt?, h.associations_eq]

/-- Binding gives the same answer, and the new anchors have the same number. -/
theorem bind (h : SameTracker t u) (line : Int) (identifier : Text) :
    (t.bind line identifier).1 = (u.bind line identifier).1 ∧
      SameTracker (t.bind line identifier).2 (u.bind line identifier).2 := by
  unfold Tracker.bind
  rw [h.canCarry_eq, h.identifierAt?_eq]
  by_cases hcarry : u.canCarry line = true
  · rw [if_pos hcarry, if_pos hcarry]
    cases u.identifierAt? line with
    | some holder => exact ⟨rfl, h.tidy⟩
    | none =>
      obtain ⟨l, hl, -⟩ := Tracker.exists_line_of_canCarry hcarry
      have htext : u.tidy.buffer.text = u.buffer.text := Tracker.text_tidy u
      have hline : u.tidy.buffer.text.line? line = some l := by
        rw [htext]
        exact hl
      obtain ⟨w', b', hw, hb, hagrees⟩ := h.tidy.buffer.createAnchor hline
      rw [hw, hb]
      exact ⟨rfl, hagrees, h.tidy.file, by rw [h.tidy.bound]⟩
  · rw [if_neg hcarry, if_neg hcarry]
    exact ⟨rfl, h⟩

theorem bindAll (h : SameTracker t u) (ids : List LineId) : SameTracker (t.bindAll ids) (u.bindAll ids) := by
  induction ids generalizing t u with
  | nil => exact h
  | cons a ids ih => exact ih (h.bind a.line a.identifier).2

theorem rebind (h : SameTracker t u) (file : Option Text) (ids : List LineId) :
    SameTracker (t.rebind file ids) (u.rebind file ids) := by
  apply bindAll
  exact ⟨h.clear.buffer, rfl, rfl⟩

theorem perform (h : SameTracker t u) {call : TrackerCall} (hfits : call.Fits u.text) :
    SameTracker (call.perform t) (call.perform u) := by
  cases call with
  | edit call => exact ⟨(h.buffer.perform hfits).1, h.file, h.bound⟩
  | bind line identifier => exact (h.bind line identifier).2
  | unbind identifier => exact h.unbind identifier
  | rebind file ids => exact h.rebind file ids
  | clear => exact h.clear
  | ask => exact h.tidy

theorem performAll (h : SameTracker t u) {calls : List TrackerCall} (hfits : TrackerCall.FitsAll u calls) :
    SameTracker (TrackerCall.performAll t calls) (TrackerCall.performAll u calls) := by
  induction calls generalizing t u with
  | nil => exact h
  | cons call calls ih => exact ih (h.perform hfits.1) hfits.2

end SameTracker

/-- What can be asked of a tracker and its buffer has the same answers over both kinds. -/
structure SameReports (t : Tracker Widget) (u : Tracker MemoryBuffer) : Prop where
  text : t.text = u.text
  lineCount : lineCount t.buffer = lineCount u.buffer
  getLine : ∀ line, getLine t.buffer line = getLine u.buffer line
  anchorStart? : ∀ handle, anchorStart? handle t.buffer = anchorStart? handle u.buffer
  anchorLine? : ∀ handle, anchorLine? handle t.buffer = anchorLine? handle u.buffer
  /-- A further edit that fits succeeds on both, and a new anchor gets the same number. -/
  outcome : ∀ call : BufferCall, call.Fits u.text →
    ∃ made, call.outcome t.buffer = .ok made ∧ call.outcome u.buffer = .ok made
  bound : t.bound = u.bound
  associations : t.associations = u.associations
  bind : ∀ line identifier, (t.bind line identifier).1 = (u.bind line identifier).1

theorem SameTracker.sameReports {t : Tracker Widget} {u : Tracker MemoryBuffer} (h : SameTracker t u) :
    SameReports t u where
  text := h.text_eq
  lineCount := h.buffer.lineCount_eq
  getLine := h.buffer.getLine_eq
  anchorStart? := h.buffer.anchorStart?_eq
  anchorLine? handle := by
    rw [LineBuffer.anchorLine?, h.buffer.anchorStart?_eq]
    rfl
  outcome _ hfits := (h.buffer.perform hfits).2
  bound := h.bound
  associations := h.associations_eq
  bind line identifier := (h.bind line identifier).1

/-- A widget without anchors and a plain buffer with its text tell the same after any calls that fit, and so do trackers over them. -/
theorem sameReports_performAll {w : Widget} (halive : w.alive = true) (hanchors : w.anchors = [])
    (hnext : w.nextHandle = 1) {calls : List TrackerCall}
    (hfits : TrackerCall.FitsAll { buffer := MemoryBuffer.ofText w.content } calls) :
    SameReports (TrackerCall.performAll { buffer := w } calls)
      (TrackerCall.performAll { buffer := MemoryBuffer.ofText w.content } calls) := by
  have hstart : SameTracker { buffer := w } { buffer := MemoryBuffer.ofText w.content } :=
    ⟨⟨halive, rfl, hnext, hanchors⟩, rfl, rfl⟩
  exact (hstart.performAll hfits).sameReports

/-- Two lines that are joined, and a line above them. -/
theorem sameReports_performAll_joinedLines :
    SameReports
      (TrackerCall.performAll { buffer := { content := "ab\ncd".toList } }
        [.bind 1 "X".toList, .bind 2 "Y".toList, .edit (.insertLines 1 ["z".toList]), .edit (.delete 2 2 3 0), .ask])
      (TrackerCall.performAll { buffer := MemoryBuffer.ofText "ab\ncd".toList }
        [.bind 1 "X".toList, .bind 2 "Y".toList, .edit (.insertLines 1 ["z".toList]), .edit (.delete 2 2 3 0), .ask]) := by
  apply sameReports_performAll (w := { content := "ab\ncd".toList }) rfl rfl rfl
  have hinsert : (1 : Int) ≤ 1 := by decide
  refine ⟨trivial, trivial, hinsert, ⟨4, 5, ?_, ?_, ?_⟩, trivial, trivial⟩
  · decide +kernel
  · decide +kernel
  · decide

end LineTags
