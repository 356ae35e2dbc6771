import LineTags.Buffer.Memory
import LineTags.Proofs.Buffer.Laws
import LineTags.Proofs.Keyed

/-!
# Calls on a buffer

The changes that a buffer can be asked for, as data, so that any sequence of them is a list. On a plain buffer most of them only move the ends of all anchors, each in the same way, and no such move brings ends that have met or passed each other back into order: an anchor that is gone stays gone.
-/

namespace LineTags

/-- The calls that change a buffer. -/
inductive BufferCall
  | insert (line column : Int) (t : Text)
  | delete (startLine startColumn endLine endColumn : Int)
  | insertLines (before : Int) (ls : List Text)
  | deleteLines (first last : Int)
  | setText (t : Text)
  | createAnchor (line : Int)
  | releaseAnchor (handle : Nat)
  | clearAnchors

namespace BufferCall

variable {β : Type} [LineBuffer β]

/-- The buffer after a call. A call that fails changes nothing. -/
def perform (b : β) : BufferCall → β
  | insert line column t => (LineBuffer.insert line column t b).toOption.getD b
  | delete l c l' c' => (LineBuffer.delete l c l' c' b).toOption.getD b
  | insertLines before ls => (LineBuffer.insertLines before ls b).toOption.getD b
  | deleteLines first last => (LineBuffer.deleteLines first last b).toOption.getD b
  | setText t => LineBuffer.setText t b
  | createAnchor line => ((LineBuffer.createAnchor line b).toOption.map Prod.snd).getD b
  | releaseAnchor handle => LineBuffer.releaseAnchor handle b
  | clearAnchors => LineBuffer.clearAnchors b

def performAll (b : β) (calls : List BufferCall) : β := calls.foldl perform b

end BufferCall

/-! ## Where the ends of an anchor go -/

namespace AnchorRange

variable {r : AnchorRange} {a b offset : Nat}

theorem collapsed_afterInsert (h : r.stop ≤ r.start) (pos width : Nat) :
    (r.afterInsert pos width).stop ≤ (r.afterInsert pos width).start := by
  simp only [afterInsert]
  split <;> split <;> omega

theorem collapsed_afterDelete (h : r.stop ≤ r.start) (a b : Nat) : (r.afterDelete a b).stop ≤ (r.afterDelete a b).start := by
  simp only [afterDelete, shrink]
  repeat' split
  all_goals omega

theorem shrink_of_le (h : offset ≤ a) (hle : a ≤ b) : shrink a b offset = offset := by
  unfold shrink
  split
  · omega
  · exact if_neg (by omega)

theorem shrink_of_ge (h : b ≤ offset) : shrink a b offset = offset - (b - a) := if_pos h

theorem shrink_between (h : a ≤ offset) (hle : offset ≤ b) : shrink a b offset = a := by
  unfold shrink
  split
  · omega
  · split <;> omega

end AnchorRange

/-! ## Anchors that are gone -/

namespace MemoryBuffer

variable {b b' b'' : MemoryBuffer} {handle : Nat}

theorem offset_le {b : MemoryBuffer} {line column : Int} {pos : Nat} (h : b.offset line column = .ok pos) :
    pos ≤ b.text.length := by
  unfold offset at h
  cases hoffset : b.text.offset? line column with
  | none =>
    rw [hoffset] at h
    cases h
  | some n =>
    rw [hoffset] at h
    cases h
    exact Text.offset?_le hoffset

theorem insert_of_offset? {line column : Int} {pos : Nat} (hpos : b.text.offset? line column = some pos) (t : Text) :
    LineBuffer.insert line column t b = .ok (b.insertAt pos t) := by
  show b.insert line column t = _
  rw [insert, offset, hpos]
  rfl

theorem delete_of_offset? {l c l' c' : Int} {start stop : Nat} (hstart : b.text.offset? l c = some start)
    (hstop : b.text.offset? l' c' = some stop) (hle : start ≤ stop) :
    LineBuffer.delete l c l' c' b = .ok (b.deleteBetween start stop) := by
  show b.delete l c l' c' = _
  rw [delete, offset, offset, hstart, hstop]
  show Except.ok (b.deleteBetween (min start stop) (max start stop)) = _
  rw [Nat.min_eq_left hle, Nat.max_eq_right hle]

theorem getLine_of_line? {l : Text} {line : Int} (hline : b.text.line? line = some l) :
    LineBuffer.getLine b line = .ok l := by
  rw [LineBuffer.getLine, show LineBuffer.line? b line = some l from hline]

/-- An anchor without text: it was released, or its ends have met or passed each other. -/
def Gone (b : MemoryBuffer) (handle : Nat) : Prop := ∀ r, b.anchors.lookup handle = some r → r.stop ≤ r.start

theorem anchorStart?_eq_none_iff : b.anchorStart? handle = none ↔ b.Gone handle := by
  unfold anchorStart? Gone
  cases b.anchors.lookup handle with
  | none => simp
  | some r =>
    simp

/-- Typing and deleting move all anchors alike, and bring no ends back into order. -/
def Moved (b b' : MemoryBuffer) : Prop :=
  ∃ move : AnchorRange → AnchorRange, (∀ r, r.stop ≤ r.start → (move r).stop ≤ (move r).start) ∧
    b'.anchors = b.anchors.map (fun a => (a.1, move a.2)) ∧ b'.nextHandle = b.nextHandle

theorem Moved.refl (b : MemoryBuffer) : Moved b b := ⟨id, fun _ h => h, (List.map_id _).symm, rfl⟩

theorem Moved.trans (h : Moved b b') (h' : Moved b' b'') : Moved b b'' := by
  obtain ⟨move, hmove, hanchors, hnext⟩ := h
  obtain ⟨move', hmove', hanchors', hnext'⟩ := h'
  refine ⟨move' ∘ move, fun r hr => hmove' _ (hmove r hr), ?_, hnext'.trans hnext⟩
  rw [hanchors', hanchors, List.map_map]
  rfl

theorem moved_insertAt (b : MemoryBuffer) (pos : Nat) (t : Text) : Moved b (b.insertAt pos t) := by
  exact ⟨AnchorRange.afterInsert pos t.length, fun r hr => AnchorRange.collapsed_afterInsert hr pos t.length, rfl, rfl⟩

theorem moved_deleteBetween (b : MemoryBuffer) (start stop : Nat) : Moved b (b.deleteBetween start stop) := by
  exact ⟨AnchorRange.afterDelete start stop, fun r hr => AnchorRange.collapsed_afterDelete hr start stop, rfl, rfl⟩

theorem moved_insert (b : MemoryBuffer) (line column : Int) (t : Text) :
    Moved b ((LineBuffer.insert line column t b).toOption.getD b) := by
  cases h : LineBuffer.insert line column t b with
  | error e => exact .refl b
  | ok b' =>
    obtain ⟨pos, rfl⟩ := insert_eq_ok h
    exact moved_insertAt b pos t

theorem moved_delete (b : MemoryBuffer) (l c l' c' : Int) :
    Moved b ((LineBuffer.delete l c l' c' b).toOption.getD b) := by
  cases h : LineBuffer.delete l c l' c' b with
  | error e => exact .refl b
  | ok b' =>
    obtain ⟨start, stop, rfl⟩ := delete_eq_ok h
    exact moved_deleteBetween b start stop

theorem moved_insertLines (b : MemoryBuffer) (before : Int) (ls : List Text) :
    Moved b ((LineBuffer.insertLines before ls b).toOption.getD b) := by
  unfold LineBuffer.insertLines
  dsimp only
  split
  · cases LineBuffer.getLine b (LineBuffer.lineCount b) with
    | error e => exact .refl b
    | ok l => exact moved_insert b _ _ _
  · exact moved_insert b _ _ _

theorem moved_deleteLines (b : MemoryBuffer) (first last : Int) :
    Moved b ((LineBuffer.deleteLines first last b).toOption.getD b) := by
  unfold LineBuffer.deleteLines
  dsimp only
  split
  · exact moved_delete b _ _ _ _
  split
  · cases LineBuffer.getLine b (first - 1) with
    | error e => exact .refl b
    | ok l =>
      cases LineBuffer.getLine b (min last (LineBuffer.lineCount b)) with
      | error e => exact .refl b
      | ok l' => exact moved_delete b _ _ _ _
  · cases LineBuffer.getLine b (min last (LineBuffer.lineCount b)) with
    | error e => exact .refl b
    | ok l => exact moved_delete b _ _ _ _

theorem Gone.moved (h : b.Gone handle) (hmoved : Moved b b') : b'.Gone handle := by
  obtain ⟨move, hmove, hanchors, -⟩ := hmoved
  intro r hr
  rw [hanchors, Keyed.lookup_map, Option.map_eq_some_iff] at hr
  obtain ⟨r', hr', rfl⟩ := hr
  exact hmove r' (h r' hr')

/-- An anchor that was made and is gone stays gone, whatever is called. -/
theorem Gone.perform (h : b.Gone handle) (hmade : handle < b.nextHandle) (call : BufferCall) :
    (call.perform b).Gone handle ∧ handle < (call.perform b).nextHandle := by
  have hmoved : ∀ {b'}, Moved b b' → b'.Gone handle ∧ handle < b'.nextHandle := fun {b'} hb' => by
    obtain ⟨-, -, -, hnext⟩ := id hb'
    exact ⟨h.moved hb', hnext ▸ hmade⟩
  cases call with
  | insert line column t => exact hmoved (moved_insert b line column t)
  | delete l c l' c' => exact hmoved (moved_delete b l c l' c')
  | insertLines before ls => exact hmoved (moved_insertLines b before ls)
  | deleteLines first last => exact hmoved (moved_deleteLines b first last)
  | setText t => exact hmoved ((moved_deleteBetween b 0 b.text.length).trans (moved_insertAt _ 0 t))
  | createAnchor line =>
    rw [BufferCall.perform]
    cases hcreate : LineBuffer.createAnchor line b with
    | error e => exact ⟨h, hmade⟩
    | ok made =>
      obtain ⟨handle', b'⟩ := made
      obtain ⟨start, -, rfl, rfl⟩ := createAnchor_eq_ok hcreate
      refine ⟨fun r hr => h r ?_, Nat.lt_succ_of_lt hmade⟩
      exact (lookup_append_of_ne (Nat.ne_of_lt hmade) b.anchors _).symm.trans hr
  | releaseAnchor other =>
    refine ⟨fun r hr => ?_, hmade⟩
    rw [show (BufferCall.perform b (.releaseAnchor other)).anchors = b.anchors.filter fun a => a.1 ≠ other from rfl,
      lookup_filter_ne] at hr
    split at hr
    · cases hr
    · exact h r hr
  | clearAnchors => exact ⟨fun r hr => absurd hr (by simp [BufferCall.perform, LineBuffer.clearAnchors]), hmade⟩

theorem Gone.performAll (h : b.Gone handle) (hmade : handle < b.nextHandle) (calls : List BufferCall) :
    (BufferCall.performAll b calls).Gone handle := by
  induction calls generalizing b with
  | nil => exact h
  | cons call calls ih =>
    obtain ⟨hgone, hmade'⟩ := h.perform hmade call
    exact ih hgone hmade'

end MemoryBuffer

end LineTags
