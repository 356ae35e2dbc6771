import LineTags.Buffer.Memory
import LineTags.Buffer.Widget
import LineTags.Proofs.Buffer.Position

/-!
# What trackers may rely on

A tracker knows its buffer by a few operations only. What it needs of them is that a new anchor gets a number no anchor had before, that it leaves the text and the other anchors alone and starts where its line starts, and that releasing an anchor takes away this one and no other. Both kinds of buffers keep to this as long as the numbers of their anchors lie below the next one to be given, and every operation keeps it so.
-/

namespace LineTags

open LineBuffer

class LawfulBuffer (β : Type) [LineBuffer β] where
  /-- The number of the next anchor. -/
  nextHandle : β → Nat
  /-- All anchors have numbers below the next one. -/
  Sound : β → Prop
  sound_fresh : Sound fresh
  sound_setText (t : Text) (b : β) : Sound b → Sound (setText t b)
  sound_insert {line column : Int} {t : Text} {b b' : β} : insert line column t b = .ok b' → Sound b → Sound b'
  sound_delete {l c l' c' : Int} {b b' : β} : delete l c l' c' b = .ok b' → Sound b → Sound b'
  sound_releaseAnchor (handle : Nat) (b : β) : Sound b → Sound (releaseAnchor handle b)
  sound_clearAnchors (b : β) : Sound b → Sound (clearAnchors b)
  nextHandle_insert {line column : Int} {t : Text} {b b' : β} :
    insert line column t b = .ok b' → nextHandle b' = nextHandle b
  nextHandle_delete {l c l' c' : Int} {b b' : β} : delete l c l' c' b = .ok b' → nextHandle b' = nextHandle b
  nextHandle_releaseAnchor (handle : Nat) (b : β) : nextHandle (releaseAnchor handle b) = nextHandle b
  text_releaseAnchor (handle : Nat) (b : β) : text (releaseAnchor handle b) = text b
  anchorStart?_releaseAnchor (handle other : Nat) (b : β) :
    anchorStart? other (releaseAnchor handle b) = if other = handle then none else anchorStart? other b
  handle_createAnchor {line : Int} {b b' : β} {handle : Nat} :
    createAnchor line b = .ok (handle, b') → handle = nextHandle b ∧ nextHandle b' = handle + 1
  sound_createAnchor {line : Int} {b b' : β} {handle : Nat} :
    createAnchor line b = .ok (handle, b') → Sound b → Sound b'
  text_createAnchor {line : Int} {b b' : β} {handle : Nat} :
    createAnchor line b = .ok (handle, b') → text b' = text b
  anchorStart?_createAnchor_of_ne {line : Int} {b b' : β} {handle other : Nat} :
    createAnchor line b = .ok (handle, b') → other ≠ handle → anchorStart? other b' = anchorStart? other b
  /-- The anchor of a line with characters starts where the line starts. -/
  anchorStart?_createAnchor {line : Int} {l : Text} {b b' : β} {handle : Nat} :
    createAnchor line b = .ok (handle, b') → Sound b → line? b line = some l → l ≠ [] →
      anchorStart? handle b' = some (line.toNat, 0)

/-! ## Entries by number -/

section Entries

variable {α : Type} {entries : List (Nat × α)} {next : Nat}

theorem lookup_filter_ne (handle other : Nat) (entries : List (Nat × α)) :
    (entries.filter fun e => e.1 ≠ handle).lookup other = if other = handle then none else entries.lookup other := by
  induction entries with
  | nil => simp
  | cons e r ih =>
    obtain ⟨k, a⟩ := e
    by_cases hk : k = handle
    · subst hk
      rw [List.filter_cons_of_neg (by simp), ih]
      by_cases ho : other = k
      · rw [if_pos ho, if_pos ho]
      · rw [if_neg ho, if_neg ho, List.lookup_cons, beq_false_of_ne ho]
    · rw [List.filter_cons_of_pos (by simpa using hk), List.lookup_cons, ih, List.lookup_cons]
      by_cases ho : other = k
      · subst ho
        rw [beq_self_eq_true]
        exact (if_neg hk).symm
      · rw [beq_false_of_ne ho]

theorem lookup_append_of_ne {handle other : Nat} (ho : other ≠ handle) (entries : List (Nat × α)) (a : α) :
    (entries ++ [(handle, a)]).lookup other = entries.lookup other := by
  induction entries with
  | nil => rw [List.nil_append, List.lookup_cons, beq_false_of_ne ho]
  | cons e r ih => rw [List.cons_append, List.lookup_cons, ih, List.lookup_cons]

theorem lookup_append_next (hbelow : ∀ e ∈ entries, e.1 < next) (a : α) :
    (entries ++ [(next, a)]).lookup next = some a := by
  induction entries with
  | nil => rw [List.nil_append, List.lookup_cons, beq_self_eq_true]
  | cons e r ih =>
    have hne : next ≠ e.1 := Nat.ne_of_gt (hbelow e List.mem_cons_self)
    rw [List.cons_append, List.lookup_cons, beq_false_of_ne hne]
    exact ih fun e' he' => hbelow e' (List.mem_cons_of_mem _ he')

theorem below_append (hbelow : ∀ e ∈ entries, e.1 < next) (a : α) : ∀ e ∈ entries ++ [(next, a)], e.1 < next + 1 := by
  intro e he
  rcases List.mem_append.1 he with he | he
  · exact Nat.lt_succ_of_lt (hbelow e he)
  · rw [List.mem_singleton.1 he]
    exact Nat.lt_succ_self next

theorem below_filter (hbelow : ∀ e ∈ entries, e.1 < next) (p : Nat × α → Bool) : ∀ e ∈ entries.filter p, e.1 < next :=
  fun e he => hbelow e ((List.mem_filter.1 he).1)

/-- Moving anchors does not change their numbers. -/
theorem below_map (hbelow : ∀ e ∈ entries, e.1 < next) (move : α → α) :
    ∀ e ∈ entries.map (fun e => (e.1, move e.2)), e.1 < next := by
  intro e he
  obtain ⟨e', he', rfl⟩ := List.mem_map.1 he
  exact hbelow e' he'

end Entries

/-! ## The two kinds -/

namespace MemoryBuffer

/-- All anchors have numbers below the next one. -/
def Sound (b : MemoryBuffer) : Prop := ∀ a ∈ b.anchors, a.1 < b.nextHandle

theorem sound_insertAt {b : MemoryBuffer} (hb : b.Sound) (pos : Nat) (t : Text) : (b.insertAt pos t).Sound :=
  below_map hb (AnchorRange.afterInsert pos t.length)

theorem sound_deleteBetween {b : MemoryBuffer} (hb : b.Sound) (start stop : Nat) : (b.deleteBetween start stop).Sound :=
  below_map hb (AnchorRange.afterDelete start stop)

theorem insert_eq_ok {line column : Int} {t : Text} {b b' : MemoryBuffer} (h : b.insert line column t = .ok b') :
    ∃ pos, b' = b.insertAt pos t := by
  unfold insert at h
  cases hpos : b.offset line column with
  | error e => rw [hpos] at h; cases h
  | ok pos => rw [hpos] at h; cases h; exact ⟨pos, rfl⟩

theorem delete_eq_ok {l c l' c' : Int} {b b' : MemoryBuffer} (h : b.delete l c l' c' = .ok b') :
    ∃ start stop, b' = b.deleteBetween start stop := by
  unfold delete at h
  cases hstart : b.offset l c with
  | error e => rw [hstart] at h; cases h
  | ok start =>
    cases hstop : b.offset l' c' with
    | error e => rw [hstart, hstop] at h; cases h
    | ok stop => rw [hstart, hstop] at h; cases h; exact ⟨_, _, rfl⟩

theorem createAnchor_eq_ok {line : Int} {b b' : MemoryBuffer} {handle : Nat}
    (h : b.createAnchor line = .ok (handle, b')) :
    ∃ start, b.text.lineStart? line = some start ∧ handle = b.nextHandle ∧
      b' = { b with anchors := b.anchors ++ [(handle, ⟨start, b.text.lineEnd start⟩)], nextHandle := handle + 1 } := by
  unfold createAnchor at h
  cases hstart : b.text.lineStart? line with
  | none => rw [hstart] at h; cases h
  | some start => rw [hstart] at h; cases h; exact ⟨start, rfl, rfl, rfl⟩

theorem anchorStart?_createAnchor {line : Int} {l : Text} {b b' : MemoryBuffer} {handle : Nat}
    (h : b.createAnchor line = .ok (handle, b')) (hb : b.Sound) (hline : b.text.line? line = some l) (hl : l ≠ []) :
    b'.anchorStart? handle = some (line.toNat, 0) := by
  obtain ⟨start, hstart, rfl, rfl⟩ := createAnchor_eq_ok h
  obtain ⟨start', hstart', hposition, htext⟩ := Text.exists_lineStart_of_line? hline
  obtain rfl : start' = start := Option.some.inj (hstart'.symm.trans hstart)
  have hlive : start' < b.text.lineEnd start' := (Text.lt_lineEnd_iff htext).2 hl
  simp only [anchorStart?, lookup_append_next hb, Option.filter_some, decide_eq_true hlive, if_true, Option.map_some,
    hposition]

instance : LawfulBuffer MemoryBuffer where
  nextHandle := nextHandle
  Sound := Sound
  sound_fresh := fun a ha => absurd ha List.not_mem_nil
  sound_setText := fun t b hb => sound_insertAt (sound_deleteBetween hb 0 b.text.length) 0 t
  sound_insert := fun h hb => by
    obtain ⟨pos, rfl⟩ := insert_eq_ok h
    exact sound_insertAt hb pos _
  sound_delete := fun h hb => by
    obtain ⟨start, stop, rfl⟩ := delete_eq_ok h
    exact sound_deleteBetween hb start stop
  sound_releaseAnchor := fun handle b hb => below_filter hb _
  sound_clearAnchors := fun b hb a ha => absurd ha List.not_mem_nil
  nextHandle_insert := fun h => by
    obtain ⟨pos, rfl⟩ := insert_eq_ok h
    rfl
  nextHandle_delete := fun h => by
    obtain ⟨start, stop, rfl⟩ := delete_eq_ok h
    rfl
  nextHandle_releaseAnchor := fun _ _ => rfl
  text_releaseAnchor := fun _ _ => rfl
  anchorStart?_releaseAnchor := fun handle other b => by
    show anchorStart? other (releaseAnchor handle b) = _
    unfold anchorStart? releaseAnchor
    rw [lookup_filter_ne]
    by_cases ho : other = handle
    · rw [if_pos ho, if_pos ho]
      rfl
    · rw [if_neg ho, if_neg ho]
      rfl
  handle_createAnchor := fun h => by
    obtain ⟨start, -, rfl, rfl⟩ := createAnchor_eq_ok h
    exact ⟨rfl, rfl⟩
  sound_createAnchor := fun h hb => by
    obtain ⟨start, -, rfl, rfl⟩ := createAnchor_eq_ok h
    exact below_append hb _
  text_createAnchor := fun h => by
    obtain ⟨start, -, rfl, rfl⟩ := createAnchor_eq_ok h
    rfl
  anchorStart?_createAnchor_of_ne := fun h ho => by
    obtain ⟨start, -, rfl, rfl⟩ := createAnchor_eq_ok h
    show anchorStart? _ _ = anchorStart? _ _
    unfold anchorStart?
    rw [lookup_append_of_ne ho]
  anchorStart?_createAnchor := anchorStart?_createAnchor

end MemoryBuffer

namespace Widget

/-- All anchors have numbers below the next one. -/
def Sound (w : Widget) : Prop := ∀ a ∈ w.anchors, a.1 < w.nextHandle

/-- The numbers of anchors and of the next one, which typing and deleting leave alone. -/
def handles (w : Widget) : List Nat × Nat := (w.anchors.map Prod.fst, w.nextHandle)

theorem sound_of_handles_eq {w w' : Widget} (h : w'.handles = w.handles) (hw : w.Sound) : w'.Sound := by
  obtain ⟨hanchors, hnext⟩ := Prod.mk.inj h
  intro a ha
  have hmem : a.1 ∈ w.anchors.map Prod.fst := hanchors ▸ List.mem_map_of_mem ha
  obtain ⟨a', ha', heq⟩ := List.mem_map.1 hmem
  rw [hnext, ← heq]
  exact hw a' ha'

theorem handles_setModified (flag : Bool) (w : Widget) : (w.setModified flag).handles = w.handles := by
  unfold setModified
  split <;> rfl

theorem handles_moveMarks (move : Mark → Mark) (w : Widget) : (w.moveMarks move).handles = w.handles := by
  unfold handles moveMarks
  rw [List.map_map]
  rfl

theorem handles_insertAt (pos : Nat) (t : Text) (w : Widget) : (w.insertAt pos t).handles = w.handles := by
  unfold insertAt
  split
  · rfl
  · rw [handles_setModified, handles_moveMarks]
    rfl

theorem handles_deleteBetween (start stop : Nat) (w : Widget) : (w.deleteBetween start stop).handles = w.handles := by
  unfold deleteBetween
  split
  · rfl
  · rw [handles_setModified, handles_moveMarks]
    rfl

theorem handles_setText (t : Text) (w : Widget) : (w.setText t).handles = w.handles := by
  rw [setText, handles_insertAt, handles_deleteBetween]

theorem eq_of_whileAlive_eq_ok {α : Type} {w : Widget} {result r : α} (h : w.whileAlive result = .ok r) :
    w.alive = true ∧ r = result := by
  unfold whileAlive at h
  split at h
  · next halive => exact ⟨halive, (Except.ok.inj h).symm⟩
  · cases h

theorem createAnchor_eq_ok {line : Int} {w w' : Widget} {handle : Nat}
    (h : w.whileAlive (w.createAnchor line) = .ok (handle, w')) :
    w.alive = true ∧ handle = w.nextHandle ∧
      w' = { w with
        anchors := w.anchors ++ [(handle, ⟨w.offset line 0, .right⟩, ⟨w.endOfLine line, .left⟩)]
        nextHandle := handle + 1 } := by
  obtain ⟨halive, heq⟩ := eq_of_whileAlive_eq_ok h
  obtain ⟨rfl, rfl⟩ := Prod.mk.inj heq
  exact ⟨halive, rfl, rfl⟩

/-- The place of a line that exists is where it starts. -/
theorem offset_zero {w : Widget} {line : Int} {start : Nat} (h : w.content.lineStart? line = some start) :
    w.offset line 0 = start := by
  have hline : ¬ line < 1 := by
    intro hlt
    rw [Text.lineStart?, if_pos hlt] at h
    cases h
  have hstart : start ≤ w.content.lineEnd start := Nat.le_add_right _ _
  rw [offset, Text.nearestOffset, if_neg hline, Text.offset?, h, Option.map_some, Option.getD_some]
  exact Nat.min_eq_left hstart

theorem anchorStart?_createAnchor {line : Int} {l : Text} {w w' : Widget} {handle : Nat}
    (h : w.whileAlive (w.createAnchor line) = .ok (handle, w')) (hw : w.Sound) (hline : w.content.line? line = some l)
    (hl : l ≠ []) : w'.anchorStart? handle = some (line.toNat, 0) := by
  obtain ⟨halive, rfl, rfl⟩ := createAnchor_eq_ok h
  obtain ⟨start, hstart, hposition, htext⟩ := Text.exists_lineStart_of_line? hline
  have hoffset : w.offset line 0 = start := offset_zero hstart
  have hlive : start < w.endOfLine line := by
    rw [endOfLine, hoffset]
    exact (Text.lt_lineEnd_iff htext).2 hl
  simp only [anchorStart?, halive, if_true, lookup_append_next hw, Option.filter_some, hoffset, decide_eq_true hlive,
    Option.map_some, hposition]

instance : LawfulBuffer Widget where
  nextHandle := nextHandle
  Sound := Sound
  sound_fresh := fun a ha => absurd ha List.not_mem_nil
  sound_setText := fun t w hw => sound_of_handles_eq (handles_setText t w) hw
  sound_insert := fun h hw => by
    obtain ⟨-, rfl⟩ := eq_of_whileAlive_eq_ok h
    exact sound_of_handles_eq (handles_insertAt _ _ _) hw
  sound_delete := fun h hw => by
    obtain ⟨-, rfl⟩ := eq_of_whileAlive_eq_ok h
    exact sound_of_handles_eq (handles_deleteBetween _ _ _) hw
  sound_releaseAnchor := fun handle w hw => below_filter hw _
  sound_clearAnchors := fun w hw a ha => absurd ha List.not_mem_nil
  nextHandle_insert := fun h => by
    obtain ⟨-, rfl⟩ := eq_of_whileAlive_eq_ok h
    exact congrArg Prod.snd (handles_insertAt _ _ _)
  nextHandle_delete := fun h => by
    obtain ⟨-, rfl⟩ := eq_of_whileAlive_eq_ok h
    exact congrArg Prod.snd (handles_deleteBetween _ _ _)
  nextHandle_releaseAnchor := fun _ _ => rfl
  text_releaseAnchor := fun _ _ => rfl
  anchorStart?_releaseAnchor := fun handle other w => by
    show anchorStart? other { w with anchors := w.anchors.filter fun a => a.1 ≠ handle } = _
    unfold anchorStart?
    rw [lookup_filter_ne]
    by_cases ho : other = handle
    · rw [if_pos ho, if_pos ho, Option.filter_none, Option.map_none, ite_self]
    · rw [if_neg ho, if_neg ho]
      rfl
  handle_createAnchor := fun h => by
    obtain ⟨-, rfl, rfl⟩ := createAnchor_eq_ok h
    exact ⟨rfl, rfl⟩
  sound_createAnchor := fun h hw => by
    obtain ⟨-, rfl, rfl⟩ := createAnchor_eq_ok h
    exact below_append hw _
  text_createAnchor := fun h => by
    obtain ⟨-, rfl, rfl⟩ := createAnchor_eq_ok h
    rfl
  anchorStart?_createAnchor_of_ne := fun h ho => by
    obtain ⟨-, rfl, rfl⟩ := createAnchor_eq_ok h
    show anchorStart? _ _ = anchorStart? _ _
    unfold anchorStart?
    rw [lookup_append_of_ne ho]
  anchorStart?_createAnchor := anchorStart?_createAnchor

end Widget

end LineTags
