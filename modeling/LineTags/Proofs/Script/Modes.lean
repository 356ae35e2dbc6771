import LineTags.Proofs.Script.Survival
import LineTags.Proofs.Tag.Spacing

/-!
# Taking a script apart with repair and strict checking

Strict checking only refuses: a script that it lets pass is taken apart like any other. The repair works on each line by itself and puts in nothing but spaces, so taking a script apart with the repair is the same as taking the repaired script apart as it is.
-/

namespace LineTags

open Text

/-! ### The repair puts in nothing but spaces -/

theorem mem_repairLine {c : Char} {line : Text} (h : c ∈ repairLine line) : c = ' ' ∨ c ∈ line := by
  rw [← codeOf_append_commentOf line, List.mem_append]
  rcases List.mem_append.1 h with h | h
  · exact ((spaced_repairSpacing _).mem h).imp_right .inl
  · exact .inr (.inr h)

/-! ### Lines and scripts -/

/-- The line that is taken apart in a mode. -/
def ExtractionMode.prepare (mode : ExtractionMode) (line : Text) : Text := if mode.repair then repairLine line else line

variable {mode : ExtractionMode}

theorem lineFeed_not_mem_prepare {line : Text} (h : '\n' ∉ line) : '\n' ∉ mode.prepare line := by
  unfold ExtractionMode.prepare
  split
  · intro hmem
    exact (mem_repairLine hmem).elim (fun heq => absurd heq (by decide)) h
  · exact h

theorem onlyCodeTag?_eq {line : Text} {tag? : Option TagMatch} (h : onlyCodeTag? line = .ok tag?) : tag? = codeTag? line := by
  unfold onlyCodeTag? onlyTag? at h
  split at h
  · cases h
  · rw [← Except.ok.inj h]
    rfl

theorem ofLine_eq {line : Text} {part : Text × Option Text} (h : Extraction.ofLine mode line = .ok part) :
    part = partsOf (mode.prepare line) := by
  unfold Extraction.ofLine at h
  dsimp only at h
  split at h
  · cases hstrict : onlyCodeTag? (mode.prepare line) with
    | error e => rw [ExtractionMode.prepare] at hstrict; rw [hstrict] at h; cases h
    | ok tag? =>
      obtain rfl := onlyCodeTag?_eq hstrict
      rw [ExtractionMode.prepare] at hstrict
      rw [hstrict] at h
      exact (Except.ok.inj h).symm
  · exact (Except.ok.inj h).symm

theorem eq_map_of_mapM {ε α β : Type} {f : α → Except ε β} {g : α → β} (hf : ∀ a b, f a = .ok b → b = g a) {l : List α}
    {bs : List β} (h : l.mapM f = .ok bs) : bs = l.map g := by
  induction l generalizing bs with
  | nil => exact (Except.ok.inj h).symm
  | cons a l ih =>
    rw [List.mapM_cons] at h
    cases hfirst : f a with
    | error e => rw [hfirst] at h; cases h
    | ok b =>
      rw [hfirst] at h
      cases hrest : l.mapM f with
      | error e => rw [hrest] at h; cases h
      | ok bs' =>
        rw [hrest] at h
        rw [← Except.ok.inj h, hf a b hfirst, ih hrest, List.map_cons]

/-- The script whose lines are taken apart in a mode. -/
def ExtractionMode.prepareScript (mode : ExtractionMode) (script : Text) : Text := unlines ((lines script).map mode.prepare)

theorem lines_prepareScript (script : Text) : lines (mode.prepareScript script) = (lines script).map mode.prepare := by
  refine lines_unlines ?_ fun line hline => ?_
  · rw [Ne, List.map_eq_nil_iff]
    exact lines_ne_nil script
  · obtain ⟨l, hl, rfl⟩ := List.mem_map.1 hline
    exact lineFeed_not_mem_prepare (lineFeed_not_mem_of_mem_lines hl)

theorem prepareScript_eq (h : mode.repair = false) (script : Text) : mode.prepareScript script = script := by
  have hline : mode.prepare = id := by
    funext line
    rw [ExtractionMode.prepare, h, if_neg Bool.false_ne_true, id]
  rw [ExtractionMode.prepareScript, hline, List.map_id, unlines_lines]

/-- A script that is not refused is taken apart as it is once its lines are repaired, if they are to be. -/
theorem ofScript_eq {script : Text} {e : Extraction} (h : Extraction.ofScript mode script = .ok e) :
    e = extract (mode.prepareScript script) := by
  unfold Extraction.ofScript at h
  cases hparts : (lines script).mapM (Extraction.ofLine mode) with
  | error e => rw [hparts] at h; cases h
  | ok parts =>
    rw [hparts] at h
    obtain rfl := eq_map_of_mapM (fun _ _ => ofLine_eq) hparts
    rw [← Except.ok.inj h, extract_eq, lines_prepareScript, List.map_map, List.map_map, List.map_map]
    rfl

/-- Nothing but strict checking refuses a script. -/
theorem ofScript_lenient (repair : Bool) (script : Text) :
    Extraction.ofScript { repair } script = .ok (extract (ExtractionMode.prepareScript { repair } script)) := by
  have hline : Extraction.ofLine { repair } = fun line => pure (partsOf (ExtractionMode.prepare { repair } line)) := by
    funext line
    rfl
  have hok : ∃ e, Extraction.ofScript { repair } script = .ok e := by
    rw [Extraction.ofScript, hline, List.mapM_pure]
    exact ⟨_, rfl⟩
  obtain ⟨e, he⟩ := hok
  rw [he, ofScript_eq he]

theorem isIdentifier_of_mem_ids_ofScript {script : Text} {e : Extraction} (h : Extraction.ofScript mode script = .ok e)
    {entry : LineId} (hmem : entry ∈ e.ids) : isIdentifier entry.identifier := by
  rw [ofScript_eq h] at hmem
  exact isIdentifier_of_mem_ids_extract hmem

end LineTags
