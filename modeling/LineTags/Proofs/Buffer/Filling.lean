import LineTags.Proofs.Buffer.Agreement
import LineTags.Proofs.Buffer.Anchoring

/-!
# Buffers that are filled anew

Whoever shows a file puts its text into a buffer that may have held another text before, with anchors of its own. For this a buffer has to take any text whole, to number its anchors on whatever becomes of its text, and to stay in use. A tracker over such a buffer is usable, `Tracker.Usable`, when its buffer is in use and its anchors are distinct and older than the next one; it stays so under all calls, those made on its buffer behind its back included. A usable tracker that is given identifiers for distinct free lines binds those whose line has code.
-/

namespace LineTags

open LineBuffer LawfulBuffer

class FillableBuffer (β : Type) [LineBuffer β] extends AnchoringBuffer β where
  isAlive_fresh : isAlive (fresh : β) = true
  isAlive_insert {line column : Int} {t : Text} {b b' : β} : insert line column t b = .ok b' → isAlive b' = isAlive b
  isAlive_delete {l c l' c' : Int} {b b' : β} : delete l c l' c' b = .ok b' → isAlive b' = isAlive b
  isAlive_setText (t : Text) (b : β) : isAlive (setText t b) = isAlive b
  isAlive_clearAnchors (b : β) : isAlive (clearAnchors b) = isAlive b
  text_setText (t : Text) (b : β) : text (setText t b) = t
  text_clearAnchors (b : β) : text (clearAnchors b) = text b
  nextHandle_setText (t : Text) (b : β) : nextHandle (setText t b) = nextHandle b
  nextHandle_clearAnchors (b : β) : nextHandle (clearAnchors b) = nextHandle b
  /-- Without anchors there is none with a wrong number. -/
  sound_cleared (b : β) : Sound (clearAnchors b)

instance : FillableBuffer MemoryBuffer where
  isAlive_fresh := rfl
  isAlive_insert := fun _ => rfl
  isAlive_delete := fun _ => rfl
  isAlive_setText := fun _ _ => rfl
  isAlive_clearAnchors := fun _ => rfl
  text_setText := fun t b => by
    show (b.deleteBetween 0 b.text.length).text.take 0 ++ t ++ (b.deleteBetween 0 b.text.length).text.drop 0 = t
    simp [MemoryBuffer.deleteBetween]
  text_clearAnchors := fun _ => rfl
  nextHandle_setText := fun _ _ => rfl
  nextHandle_clearAnchors := fun _ => rfl
  sound_cleared := fun _ _ ha => absurd ha List.not_mem_nil

theorem Widget.content_setText (t : Text) (w : Widget) : (w.setText t).content = t := by
  rw [setText, content_insertAt]
  rcases Nat.eq_zero_or_pos w.content.length with hempty | hpos
  · rw [deleteBetween, if_pos (Nat.le_of_eq hempty), List.eq_nil_of_length_eq_zero hempty]
    simp
  · rw [content_deleteBetween hpos]
    simp

instance : FillableBuffer Widget where
  isAlive_fresh := rfl
  isAlive_insert := fun h => by
    obtain ⟨-, rfl⟩ := Widget.eq_of_whileAlive_eq_ok h
    exact Widget.alive_insertAt _ _ _
  isAlive_delete := fun h => by
    obtain ⟨-, rfl⟩ := Widget.eq_of_whileAlive_eq_ok h
    exact Widget.alive_deleteBetween _ _ _
  isAlive_setText := fun t w => (Widget.alive_insertAt 0 t _).trans (Widget.alive_deleteBetween 0 _ w)
  isAlive_clearAnchors := fun _ => rfl
  text_setText := Widget.content_setText
  text_clearAnchors := fun _ => rfl
  nextHandle_setText := fun t w => congrArg Prod.snd (Widget.handles_setText t w)
  nextHandle_clearAnchors := fun _ => rfl
  sound_cleared := fun _ _ ha => absurd ha List.not_mem_nil

open AnchoringBuffer FillableBuffer

variable {β : Type} [LineBuffer β] [FillableBuffer β]

/-! ## What calls on a buffer keep -/

/-- A later state of a buffer: its numbers go on, and it is in use as before. -/
structure Continues (b b' : β) : Prop where
  sound : LawfulBuffer.Sound b → LawfulBuffer.Sound b'
  numbers : nextHandle b ≤ nextHandle b'
  alive : isAlive b' = isAlive b

namespace Continues

theorem refl (b : β) : Continues b b := ⟨id, Nat.le_refl _, rfl⟩

theorem insert (b : β) (line column : Int) (t : Text) :
    Continues b ((LineBuffer.insert line column t b).toOption.getD b) := by
  cases h : LineBuffer.insert line column t b with
  | error e => exact refl b
  | ok b' => exact ⟨sound_insert h, Nat.le_of_eq (nextHandle_insert h).symm, isAlive_insert h⟩

theorem delete (b : β) (l c l' c' : Int) : Continues b ((LineBuffer.delete l c l' c' b).toOption.getD b) := by
  cases h : LineBuffer.delete l c l' c' b with
  | error e => exact refl b
  | ok b' => exact ⟨sound_delete h, Nat.le_of_eq (nextHandle_delete h).symm, isAlive_delete h⟩

theorem insertLines (b : β) (before : Int) (ls : List Text) :
    Continues b ((LineBuffer.insertLines before ls b).toOption.getD b) := by
  unfold LineBuffer.insertLines
  dsimp only
  split
  · cases LineBuffer.getLine b (LineBuffer.lineCount b) with
    | error e => exact refl b
    | ok l => exact insert b _ _ _
  · exact insert b _ _ _

theorem deleteLines (b : β) (first last : Int) :
    Continues b ((LineBuffer.deleteLines first last b).toOption.getD b) := by
  unfold LineBuffer.deleteLines
  dsimp only
  split
  · exact delete b _ _ _ _
  split
  · cases LineBuffer.getLine b (first - 1) with
    | error e => exact refl b
    | ok l =>
      cases LineBuffer.getLine b (min last (LineBuffer.lineCount b)) with
      | error e => exact refl b
      | ok l' => exact delete b _ _ _ _
  · cases LineBuffer.getLine b (min last (LineBuffer.lineCount b)) with
    | error e => exact refl b
    | ok l => exact delete b _ _ _ _

theorem setText (t : Text) (b : β) : Continues b (LineBuffer.setText t b) :=
  ⟨sound_setText t b, Nat.le_of_eq (nextHandle_setText t b).symm, isAlive_setText t b⟩

theorem createAnchor (b : β) (line : Int) :
    Continues b (((LineBuffer.createAnchor line b).toOption.map Prod.snd).getD b) := by
  cases h : LineBuffer.createAnchor line b with
  | error e => exact refl b
  | ok made =>
    obtain ⟨hhandle, hnext⟩ := handle_createAnchor h
    refine ⟨sound_createAnchor h, ?_, unanchored_isAlive.create h⟩
    show nextHandle b ≤ nextHandle made.2
    omega

theorem releaseAnchor (handle : Nat) (b : β) : Continues b (LineBuffer.releaseAnchor handle b) :=
  ⟨sound_releaseAnchor handle b, Nat.le_of_eq (nextHandle_releaseAnchor handle b).symm, isAlive_releaseAnchor handle b⟩

theorem clearAnchors (b : β) : Continues b (LineBuffer.clearAnchors b) :=
  ⟨sound_clearAnchors b, Nat.le_of_eq (nextHandle_clearAnchors b).symm, isAlive_clearAnchors b⟩

theorem perform (b : β) (call : BufferCall) : Continues b (call.perform b) := by
  cases call with
  | insert line column t => exact insert b line column t
  | delete l c l' c' => exact delete b l c l' c'
  | insertLines before ls => exact insertLines b before ls
  | deleteLines first last => exact deleteLines b first last
  | setText t => exact setText t b
  | createAnchor line => exact createAnchor b line
  | releaseAnchor handle => exact releaseAnchor handle b
  | clearAnchors => exact clearAnchors b

end Continues

/-! ## Usable trackers -/

namespace Tracker

variable {t : Tracker β}

/-- A sound tracker over a buffer in use. -/
structure Usable (t : Tracker β) : Prop where
  sound : t.Sound
  alive : isAlive t.buffer = true

theorem usable_of_buffer {b : β} (hb : LawfulBuffer.Sound b) (halive : isAlive b = true) (file : Option Text) :
    Usable { buffer := b, file } := ⟨sound_of_buffer hb file, halive⟩

/-- What becomes of the buffer under its tracker leaves the tracker usable. -/
theorem Usable.withBuffer (h : t.Usable) {b : β} (hb : Continues t.buffer b) : Usable { t with buffer := b } where
  sound := ⟨hb.sound h.sound.buffer, h.sound.nodup, fun a ha => (h.sound.below a ha).trans_le hb.numbers⟩
  alive := hb.alive.trans h.alive

theorem Usable.tidy (h : t.Usable) : t.tidy.Usable := ⟨sound_tidy h.sound, (isAlive_tidy t).trans h.alive⟩

theorem Usable.bind (h : t.Usable) (line : Int) (identifier : Text) : (t.bind line identifier).2.Usable :=
  ⟨sound_bind h.sound line identifier, (trait_bind unanchored_isAlive t line identifier).trans h.alive⟩

theorem Usable.bindAll (h : t.Usable) (ids : List LineId) : (t.bindAll ids).Usable :=
  ⟨sound_bindAll h.sound ids, (trait_bindAll unanchored_isAlive t ids).trans h.alive⟩

theorem Usable.unbind (h : t.Usable) (identifier : Text) : (t.unbind identifier).Usable :=
  ⟨sound_unbind h.sound identifier, (trait_releaseAll unanchored_isAlive t _).trans h.alive⟩

theorem Usable.clear (h : t.Usable) : t.clear.Usable :=
  usable_of_buffer (sound_clearAnchors _ h.sound.buffer) ((isAlive_clearAnchors _).trans h.alive) t.file

theorem Usable.rebind (h : t.Usable) (file : Option Text) (ids : List LineId) : (t.rebind file ids).Usable :=
  Usable.bindAll (t := { t.clear with file }) ⟨⟨h.clear.sound.buffer, h.clear.sound.nodup, h.clear.sound.below⟩, h.clear.alive⟩
    ids

theorem Usable.perform (h : t.Usable) (call : TrackerCall) : (call.perform t).Usable := by
  cases call with
  | edit call => exact h.withBuffer (Continues.perform t.buffer call)
  | bind line identifier => exact h.bind line identifier
  | unbind identifier => exact h.unbind identifier
  | rebind file ids => exact h.rebind file ids
  | clear => exact h.clear
  | ask => exact h.tidy

theorem Usable.performAll (h : t.Usable) (calls : List TrackerCall) : (TrackerCall.performAll t calls).Usable := by
  induction calls generalizing t with
  | nil => exact h
  | cons call calls ih => exact ih (h.perform call)

/-! ## Filling a tracker -/

/-- The tracker with a new text, before the first identifier is bound. -/
def emptied (t : Tracker β) (file : Option Text) (clean : Text) : Tracker β :=
  { buffer := LineBuffer.clearAnchors (LineBuffer.setText clean t.buffer), file }

omit [FillableBuffer β] in
theorem load_eq (t : Tracker β) (file : Option Text) (e : Extraction) :
    t.load file e = (t.emptied file e.clean).bindAll e.ids := rfl

theorem text_emptied (t : Tracker β) (file : Option Text) (clean : Text) : (t.emptied file clean).text = clean :=
  (text_clearAnchors _).trans (text_setText clean t.buffer)

theorem text_load (t : Tracker β) (file : Option Text) (e : Extraction) : (t.load file e).text = e.clean := by
  rw [load_eq, text_bindAll, text_emptied]

omit [FillableBuffer β] in
theorem associations_emptied (t : Tracker β) (file : Option Text) (clean : Text) : (t.emptied file clean).associations = [] :=
  associations_of_bound_nil rfl

/-- Of the anchors from before nothing is left, so only the buffer has to be in use. -/
theorem usable_emptied (halive : isAlive t.buffer = true) (file : Option Text) (clean : Text) : (t.emptied file clean).Usable :=
  usable_of_buffer (sound_cleared _) (((isAlive_clearAnchors _).trans (isAlive_setText clean t.buffer)).trans halive) file

/-- The tracker shows the identifiers whose line has code in the new text. -/
theorem mem_associations_load (halive : isAlive t.buffer = true) (file : Option Text) {e : Extraction}
    (hlines : (e.ids.map LineId.line).Nodup) {x : LineId} :
    x ∈ (t.load file e).associations ↔ x ∈ e.ids ∧ (t.load file e).canCarry x.line = true := by
  have hstart := usable_emptied halive file e.clean
  have hfree : ∀ a ∈ e.ids, (t.emptied file e.clean).identifierAt? a.line = none := by
    intro a _
    rw [identifierAt?_eq_none_iff, associations_emptied]
    exact fun y hy => absurd hy List.not_mem_nil
  rw [load_eq, mem_associations_bindAll hstart.sound hstart.alive hfree hlines, associations_emptied,
    or_iff_right List.not_mem_nil, canCarry_of_text_eq (text_bindAll _ e.ids)]

end Tracker

end LineTags
