import LineTags.Proofs.Editor.Widgets

/-!
# What was saved last

A session is compared with what was saved last as long as it is not marked as dirty and all events were delivered. Then nothing was typed since, so identifiers were only added, and what would be saved differs exactly if one was added that shows. `Sealed` says this with one bit: whether a file was activated since for which an identifier waited that fits.
-/

namespace LineTags.Session

open Keyed

/-- Whether a file became active for which an identifier waited that fits. -/
def slips {β : Type} [LineBuffer β] (s s' : Session β) : Bool :=
  match s'.active with
  | none => false
  | some file => s.active ≠ some file && (s.waiting file).any (s.fits file)

variable {s s' s'' : Session Widget} {saved : List (Text × Text)} {slipped dirty : Bool} {listed : List Text} {file : Text}

theorem slips_of_active_eq (h : s'.active = s.active) : slips s s' = false := by
  unfold slips
  rw [h]
  cases s.active with
  | none => rfl
  | some file => simp

theorem slips_congr_right (h : s''.active = s'.active) : slips s s'' = slips s s' := by rw [slips, slips, h]

theorem slips_congr_left (h : Alike s s') (hactive : s'.active = s.active) (hstaged : s'.staged = s.staged) :
    slips s' s'' = slips s s'' := by
  have hfits : ∀ file, s'.fits file = s.fits file := fun file => funext (fits_congr h.grown (h.ids file))
  have hwaiting : ∀ file, s'.waiting file = s.waiting file := fun file => by rw [waiting, waiting, hstaged]
  unfold slips
  cases s''.active with
  | none => rfl
  | some file =>
    dsimp only
    rw [hactive, hwaiting, hfits]

/-- What would be saved, in a session that is not dirty, is what was saved unless something slipped. -/
structure Sealed (saved : List (Text × Text)) (slipped : Bool) (s : Session Widget) (dirty : Bool) (listed : List Text) :
    Prop extends s.Proper listed where
  kept : dirty = false → s.Delivered → ∃ s₀ : Session Widget, s₀.WellNamed ∧ (names s₀.files).Nodup ∧ s₀.projectFiles = saved ∧
    s₀.Extends s ∧ (s.projectFiles = saved ↔ slipped = false)

/-- At once after saving there is no difference. -/
theorem Proper.sealed (hp : s.Proper listed) (dirty : Bool) : Sealed s.projectFiles false s dirty listed where
  toProper := hp
  kept _ _ := ⟨s, hp.wellNamed, hp.distinct, rfl, .refl s, iff_of_true rfl rfl⟩

theorem Proper.sealed_of_dirty (hp : s.Proper listed) : Sealed saved slipped s true listed where
  toProper := hp
  kept := nofun

theorem Proper.sealed_of_not_delivered (hp : s.Proper listed) (h : ¬s.Delivered) : Sealed saved slipped s dirty listed where
  toProper := hp
  kept _ hdelivered := absurd hdelivered h

namespace Sealed

variable (h : Sealed saved slipped s dirty listed)

include h

/-- Identifiers are added, and what was typed is not passed over. -/
theorem grown (hp : s'.Proper listed) (hgrown : s.Extends s') (hdelivered : s'.Delivered → s.Delivered) {gained : Bool}
    (hgained : Gains s s' ↔ gained = true) : Sealed saved (slipped || gained) s' dirty listed where
  toProper := hp
  kept hclean hall := by
    obtain ⟨s₀, hnamed, hdistinct, rfl, hgrown₀, hiff⟩ := h.kept hclean (hdelivered hall)
    refine ⟨s₀, hnamed, hdistinct, rfl, hgrown₀.trans hgrown, ?_⟩
    rw [hgrown.projectFiles_eq_iff_of_between hgrown₀ hnamed hdistinct, hiff,
      hgrown.projectFiles_eq_iff_not_gains h.wellNamed h.distinct, hgained, Bool.or_eq_false_iff, Bool.not_eq_true]

/-- No identifiers are added either. -/
theorem of_sameIds (hp : s'.Proper listed) (hgrown : s.Extends s') (hids : ∀ file, ∀ x ∈ s'.idsOf file, x ∈ s.idsOf file)
    (hdelivered : s'.Delivered → s.Delivered) : Sealed saved slipped s' dirty listed := by
  have hgained : Gains s s' ↔ false = true := by
    refine iff_of_false ?_ Bool.false_ne_true
    rintro ⟨file, x, hx, hnew, -⟩
    exact hnew (hids file x hx)
  rw [← Bool.or_false slipped]
  exact h.grown hp hgrown hdelivered hgained

theorem alike (ha : Alike s s') : Sealed saved slipped s' dirty listed :=
  h.of_sameIds (h.toProper.enriched ha.toEnriched) ha.grown ha.ids ha.delivered_iff.1

/-- Activating a file is where something can slip. -/
theorem setActive (hopen : s.isOpen file = true) (hother : s.active ≠ some file) :
    Sealed saved (slipped || slips s (s.setActive file).2) (s.setActive file).2 dirty listed := by
  have hslips : slips s (s.setActive file).2 = (s.waiting file).any (s.fits file) := by
    rw [slips, active_setActive hopen]
    dsimp only
    rw [decide_eq_true hother, Bool.true_and]
  have he := enriched_setActive h.sound hopen
  rw [hslips]
  exact h.grown (h.toProper.enriched he) he.grown he.delivered_iff.1
    (gains_setActive_iff h.sound hopen (h.toProper.alive? hopen))

/-- A user looks at a text or changes it. -/
theorem handled {t : Tracker Widget} (hdoc : s.document? file = some t) {w : Widget} (hw : t.buffer.Handled w) :
    Sealed saved slipped (s.putDocument file { t with buffer := w }) dirty listed := by
  have ht : t.Sound := h.sound.of_document? hdoc
  have hsound : ({ t with buffer := w } : Tracker Widget).Sound :=
    Tracker.sound_withBuffer ht (Widget.sound_of_handles_eq hw.handles ht.buffer) (congrArg Prod.snd hw.handles)
  have hproper := h.toProper.putDocument hdoc hsound (hw.announcing (h.announcing file t hdoc))
  cases hw with
  | looked cursor selection => exact h.alike (alike_looked h.sound hdoc cursor selection)
  | changed hmodified hannouncing hhandles =>
    refine hproper.sealed_of_not_delivered fun hdelivered => ?_
    have hsame := hdelivered file { t with buffer := w } (by rw [document?_putDocument, if_pos rfl])
    rw [hmodified] at hsame
    cases hsame

/-- The events of a widget are delivered, and tell of no change. -/
theorem acknowledged {t : Tracker Widget} (hdoc : s.document? file = some t) (hsame : t.buffer.modified = false) :
    Sealed saved slipped (s.putDocument file { t with buffer := { t.buffer with modified := false, pendingEvents := 0 } }) dirty
      listed := by
  obtain ⟨hgrown, hids⟩ := sameIds_putDocument hdoc t.buffer.cursor t.buffer.selection false 0
  refine h.of_sameIds (h.toProper.acknowledged hdoc) hgrown hids fun hdelivered other r hother => ?_
  by_cases heq : other = file
  · rw [heq, hdoc] at hother
    obtain rfl := Option.some.inj hother
    exact hsame
  · refine hdelivered other r ?_
    rw [document?_putDocument, if_neg heq]
    exact hother

end Sealed

end LineTags.Session
