import LineTags.Proofs.Buffer.Binding

/-!
# Buffers that can be used

Trackers make and release anchors, and nothing else, so what anchors are no part of is left to the other users of a buffer. Whether a buffer can be used is such a trait: it can be used until it is destroyed, and while it can be used every line of it can be anchored. So a line with code that carries nothing takes an identifier exactly if its buffer can be used, and what a tracker does changes nothing about that.
-/

namespace LineTags

open LineBuffer

/-! ## What anchors are no part of -/

/-- A trait of buffers that making and releasing anchors leaves alone. -/
structure Unanchored {β γ : Type} [LineBuffer β] (g : β → γ) : Prop where
  release : ∀ handle b, g (releaseAnchor handle b) = g b
  create : ∀ {line : Int} {b b' : β} {handle : Nat}, createAnchor line b = .ok (handle, b') → g b' = g b

namespace Tracker

variable {β γ : Type} [LineBuffer β] {g : β → γ} (hg : Unanchored g)

include hg

theorem trait_releaseAll (t : Tracker β) (entries : List (Nat × Text)) : g (t.releaseAll entries).buffer = g t.buffer := by
  induction entries generalizing t with
  | nil => rfl
  | cons b r ih => exact (ih (t.release b.1)).trans (hg.release b.1 t.buffer)

theorem trait_tidy (t : Tracker β) : g t.tidy.buffer = g t.buffer := trait_releaseAll hg t _

theorem trait_bind (t : Tracker β) (line : Int) (identifier : Text) : g (t.bind line identifier).2.buffer = g t.buffer := by
  obtain h | h | ⟨-, h⟩ | ⟨t', hattached, h⟩ := bind_cases t line identifier
  · rw [h]
  · rw [h, trait_tidy hg]
  · rw [h, trait_tidy hg]
  · obtain ⟨handle, buffer, hcreate, rfl⟩ := hattached.created
    rw [h]
    exact (hg.create hcreate).trans (trait_tidy hg t)

theorem trait_bindAll (t : Tracker β) (ids : List LineId) : g (t.bindAll ids).buffer = g t.buffer := by
  induction ids generalizing t with
  | nil => rfl
  | cons a r ih => exact (ih (t.bind a.line a.identifier).2).trans (trait_bind hg t a.line a.identifier)

end Tracker

/-! ## Whether a buffer can be used -/

class AnchoringBuffer (β : Type) [LineBuffer β] extends LawfulBuffer β where
  isAlive_releaseAnchor (handle : Nat) (b : β) : isAlive (releaseAnchor handle b) = isAlive b
  isAlive_of_createAnchor {line : Int} {b b' : β} {handle : Nat} :
    createAnchor line b = .ok (handle, b') → isAlive b = true ∧ isAlive b' = true
  /-- While a buffer can be used, its lines can be anchored. -/
  exists_createAnchor {line : Int} {l : Text} {b : β} :
    isAlive b = true → line? b line = some l → ∃ handle b', createAnchor line b = .ok (handle, b')

instance : AnchoringBuffer MemoryBuffer where
  isAlive_releaseAnchor := fun _ _ => rfl
  isAlive_of_createAnchor := fun _ => ⟨rfl, rfl⟩
  exists_createAnchor := fun {line l b} _ hl => by
    obtain ⟨start, hstart, -, -⟩ := Text.exists_lineStart_of_line? hl
    refine ⟨b.nextHandle, { b with
      anchors := b.anchors ++ [(b.nextHandle, ⟨start, b.text.lineEnd start⟩)], nextHandle := b.nextHandle + 1 }, ?_⟩
    show MemoryBuffer.createAnchor line b = _
    rw [MemoryBuffer.createAnchor, show b.text.lineStart? line = some start from hstart]

instance : AnchoringBuffer Widget where
  isAlive_releaseAnchor := fun _ _ => rfl
  isAlive_of_createAnchor := fun h => by
    obtain ⟨halive, -, rfl⟩ := Widget.createAnchor_eq_ok h
    exact ⟨halive, halive⟩
  exists_createAnchor := fun {line l w} halive _ => ⟨_, _, if_pos halive⟩

open AnchoringBuffer in
theorem unanchored_isAlive {β : Type} [LineBuffer β] [AnchoringBuffer β] : Unanchored (isAlive : β → Bool) where
  release := isAlive_releaseAnchor
  create hcreate := by
    obtain ⟨halive, halive'⟩ := isAlive_of_createAnchor hcreate
    rw [halive, halive']

namespace Tracker

open AnchoringBuffer

variable {β : Type} [LineBuffer β] [AnchoringBuffer β] {t : Tracker β} {line : Int} {identifier : Text}

theorem isAlive_tidy (t : Tracker β) : isAlive t.tidy.buffer = isAlive t.buffer := trait_tidy unanchored_isAlive t

theorem isAlive_of_attached {t' : Tracker β} (h : t.Attached line identifier t') :
    isAlive t.buffer = true ∧ isAlive t'.buffer = true := by
  obtain ⟨handle, buffer, hcreate, rfl⟩ := h.created
  rw [← isAlive_tidy]
  exact isAlive_of_createAnchor hcreate

/-- Only a buffer that can be used takes an identifier on a line that carries none. -/
theorem isAlive_of_bind (hfree : t.identifierAt? line = none) (h : (t.bind line identifier).1 = true) :
    isAlive t.buffer = true := by
  obtain h' | h' | ⟨hholder, -⟩ | ⟨t', hattached, -⟩ := bind_cases t line identifier
  · rw [h'] at h
    cases h
  · rw [h'] at h
    cases h
  · rw [hfree] at hholder
    cases hholder
  · exact (isAlive_of_attached hattached).1

/-- A line with code that carries nothing takes an identifier. -/
theorem bind_of_isAlive (halive : isAlive t.buffer = true) (hcarry : t.canCarry line = true)
    (hfree : t.identifierAt? line = none) (identifier : Text) : (t.bind line identifier).1 = true := by
  obtain ⟨l, hl, -⟩ := canCarry_iff.1 hcarry
  have hl' : line? t.tidy.buffer line = some l := by
    rw [line?, show LineBuffer.text t.tidy.buffer = LineBuffer.text t.buffer from text_tidy t]
    exact hl
  obtain ⟨handle, buffer, hcreate⟩ := exists_createAnchor ((isAlive_tidy t).trans halive) hl'
  rw [bind, if_pos hcarry, hfree]
  dsimp only
  rw [hcreate]

/-- Of identifiers for distinct free lines, those are bound whose line has code. -/
theorem mem_associations_bindAll (ht : t.Sound) (halive : isAlive t.buffer = true) {ids : List LineId}
    (hfree : ∀ a ∈ ids, t.identifierAt? a.line = none) (hlines : (ids.map LineId.line).Nodup) {x : LineId} :
    x ∈ (t.bindAll ids).associations ↔ x ∈ t.associations ∨ x ∈ ids ∧ t.canCarry x.line = true := by
  induction ids generalizing t with
  | nil => exact (or_iff_left fun h => absurd h.1 List.not_mem_nil).symm
  | cons a ids ih =>
    rw [List.map_cons, List.nodup_cons] at hlines
    have hfirst := hfree a List.mem_cons_self
    have hbound : (t.bind a.line a.identifier).1 = true ↔ t.canCarry a.line = true :=
      ⟨canCarry_of_bind, fun hcarry => bind_of_isAlive halive hcarry hfirst a.identifier⟩
    have hafter : ∀ y, y ∈ (t.bind a.line a.identifier).2.associations ↔
        y ∈ t.associations ∨ y = a ∧ t.canCarry y.line = true := by
      intro y
      rw [mem_associations_bind ht hfirst, hbound, and_comm]
      exact or_congr_right (and_congr_right fun heq => by rw [heq])
    have halive' : isAlive (t.bind a.line a.identifier).2.buffer = true :=
      (trait_bind unanchored_isAlive t a.line a.identifier).trans halive
    refine (ih (sound_bind ht a.line a.identifier) halive' (fun b hb => ?_) hlines.2).trans ?_
    · rw [identifierAt?_eq_none_iff]
      intro y hy heq
      rcases (hafter y).1 hy with hy | ⟨rfl, -⟩
      · exact identifierAt?_eq_none_iff.1 (hfree b (List.mem_cons_of_mem _ hb)) y hy heq
      · exact hlines.1 (heq ▸ List.mem_map_of_mem hb)
    · rw [hafter, canCarry_of_text_eq (text_bind t a.line a.identifier), List.mem_cons, or_and_right, or_assoc]

end Tracker

end LineTags
