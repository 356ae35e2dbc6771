import LineTags.Proofs.Minting.Wanting
import LineTags.Proofs.Script.Modes
import LineTags.Proofs.Script.Shedding

/-!
# Scripts that come out as they went in

A line is settled if it is not refused, and if it comes out as it went in when its script is opened and saved. A script is fully tagged if no line of it that takes a tag wants one. These two are all that has to be known of the scripts of a project for nothing to be left to do.
-/

namespace LineTags

open Text

variable {mode : ExtractionMode} {script clean : Text} {ids ids' : List LineId}

/-! ### Scripts put together from entries that agree -/

theorem entryFor?_congr {number : Nat} (hlines : (ids'.map LineId.line).Nodup)
    (h : ∀ x : LineId, x.line = number → (x ∈ ids ↔ x ∈ ids')) : entryFor? ids number = entryFor? ids' number := by
  cases hentry : entryFor? ids number with
  | none =>
    refine (entryFor?_eq_none fun x hx hline => ?_).symm
    exact List.find?_eq_none.1 hentry x ((h x hline).2 hx) (beq_iff_eq.2 hline)
  | some x =>
    have hline : x.line = number := by simpa using List.find?_some hentry
    have hx : x ∈ ids' := (h x hline).1 (List.mem_of_find?_eq_some hentry)
    exact (entryFor?_eq_some hx hline fun y hy heq => List.inj_on_of_nodup_map hlines hy hx (heq.trans hline.symm)).symm

/-- Only the entries for lines that take a tag count. -/
theorem reconstruct_congr (hlines : (ids'.map LineId.line).Nodup)
    (h : ∀ (i : Nat) l, (lines clean)[i]? = some l → takesTag l → ∀ x : LineId, x.line = ((1 + i : Nat) : Int) →
      (x ∈ ids ↔ x ∈ ids')) : reconstruct clean ids = reconstruct clean ids' := by
  rw [reconstruct_eq, reconstruct_eq]
  refine congrArg unlines (List.map_congr_left fun ⟨l, number⟩ hmem => ?_)
  obtain ⟨i, hi⟩ := List.mem_iff_getElem?.1 hmem
  rw [List.getElem?_zipIdx, Option.map_eq_some_iff] at hi
  obtain ⟨l', hl, heq⟩ := hi
  obtain ⟨rfl, rfl⟩ := Prod.mk.inj heq
  by_cases htakes : takesTag l'
  · dsimp only
    rw [entryFor?_congr hlines (h i l' hl htakes)]
  · dsimp only
    rw [tagged_of_not_takesTag htakes, tagged_of_not_takesTag htakes]

/-! ### Settled lines -/

/-- A line that is not refused, and that comes out as it went in when its script is opened and saved. -/
def Settled (mode : ExtractionMode) (line : Text) : Prop :=
  (Extraction.ofLine mode line).isOk = true ∧ restored (mode.prepare line) = line

instance : DecidablePred (Settled mode) := fun line =>
  inferInstanceAs (Decidable ((Extraction.ofLine mode line).isOk = true ∧ restored (mode.prepare line) = line))

theorem exists_ofScript_of_settled (h : ∀ l ∈ lines script, Settled mode l) : ∃ e, Extraction.ofScript mode script = .ok e := by
  have hparts : ∀ ls : List Text, (∀ l ∈ ls, Settled mode l) → ∃ parts, ls.mapM (Extraction.ofLine mode) = .ok parts := by
    intro ls
    induction ls with
    | nil => exact fun _ => ⟨[], rfl⟩
    | cons l ls ih =>
      intro hls
      obtain ⟨parts, hparts⟩ := ih fun k hk => hls k (List.mem_cons_of_mem _ hk)
      have hfirst := (hls l List.mem_cons_self).1
      cases hpart : Extraction.ofLine mode l with
      | error e => rw [hpart] at hfirst; cases hfirst
      | ok part =>
        rw [List.mapM_cons, hpart, hparts]
        exact ⟨part :: parts, rfl⟩
  obtain ⟨parts, hparts⟩ := hparts (lines script) h
  unfold Extraction.ofScript
  rw [hparts]
  exact ⟨_, rfl⟩

/-- A script of settled lines comes out as it went in. -/
theorem reconstruct_extract_of_settled (h : ∀ l ∈ lines script, Settled mode l) :
    reconstruct (extract (mode.prepareScript script)).clean (extract (mode.prepareScript script)).ids = script := by
  have hlines := lines_reconstruct_extract (mode.prepareScript script)
  rw [lines_prepareScript, List.map_map] at hlines
  have hsame : (lines script).map (restored ∘ mode.prepare) = lines script := by
    conv => rhs; rw [← List.map_id (lines script)]
    exact List.map_congr_left fun l hl => (h l hl).2
  rw [← unlines_lines (reconstruct _ _), hlines, hsame, unlines_lines]

/-- A settled line that has no tag is shown as it stands. -/
theorem Settled.eq_of_codeTag?_eq_none {line : Text} (h : Settled mode line) (htag : codeTag? (mode.prepare line) = none) :
    mode.prepare line = line := by
  have hrestored := h.2
  rwa [restored, partsOf_of_codeTag?_eq_none htag] at hrestored

/-! ### Fully tagged scripts -/

/-- No line that takes a tag wants one. -/
def FullyTagged (script : Text) : Prop := ∀ l ∈ lines script, takesTag l → ¬WantsTag l

/-- The marks at the start of a file do not keep its first line from taking a tag. -/
theorem takesTag_of_dropMarks {line : Text} (h : takesTag (dropMarks line)) : takesTag line := by
  obtain ⟨marks, read, rfl, hmarks, -, hdrop⟩ := exists_marks_append line
  have hcode := codeOf_append_of_isPlain (fun c hc => isPlain_of_mark (hmarks c hc)) read
  rw [hdrop] at h
  have hhash : '#' ∉ marks := fun hmem => absurd (hmarks _ hmem) (by decide)
  obtain ⟨htag, hsome⟩ := takesTag_iff.1 h
  refine takesTag_iff.2 ⟨?_, ?_⟩
  · rw [← findTags_codeOf_eq_nil_iff, findTags] at htag ⊢
    rw [hcode, tagsFrom_append_of_not_mem 0 hhash]
    exact (tagsFrom_eq_nil_iff 0 _ _).1 htag
  · rw [hasNoCode, hcode, isBlankText_append, show isBlankText (codeOf read) = false from hsome, Bool.and_false]

end LineTags
