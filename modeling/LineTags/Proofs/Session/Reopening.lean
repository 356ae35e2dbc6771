import LineTags.Proofs.Script.Rereading
import LineTags.Proofs.Session.Gains

/-!
# Opening what was saved

What a tracker saves shows which lines are free: a line that takes a tag is free, and a free line is saved as it is shown. And a script whose lines are settled is shown, when it is opened, in such a way that saving gives it back, and its free lines are lines that take a tag. So the free lines of a session can be told from the scripts it saves, and found again in the session that opens these scripts.
-/

namespace LineTags

open Text Keyed LineBuffer

namespace Tracker

variable {t : Tracker MemoryBuffer} {mode : ExtractionMode} {file script l : Text} {i : Nat}

theorem canCarry_iff_getElem? {β : Type} [LineBuffer β] {t : Tracker β} :
    t.canCarry ((1 + i : Nat) : Int) = true ↔ ∃ l, (lines t.text)[i]? = some l ∧ hasNoCode l = false := by
  have hindex : (((1 + i : Nat) : Int)).toNat - 1 = i := by omega
  rw [canCarry_iff, LineBuffer.line?, Text.line?_eq_getElem?, if_neg (by omega), hindex]
  rfl

/-! ### What is saved of a line -/

section

variable (hids : ∀ a ∈ t.associations, isIdentifier a.identifier)

include hids

theorem getElem?_lines_fullContent : (lines t.fullContent)[i]? =
    (lines t.text)[i]?.map fun line => tagged line (entryFor? t.associations (1 + i)) := by
  rw [fullContent, lines_reconstruct fun a ha => isWord_of_isIdentifier (hids a ha), List.getElem?_map, List.getElem?_zipIdx,
    Option.map_map]
  rfl

theorem getElem?_lines_fullContent_of_free (hfree : t.identifierAt? ((1 + i : Nat) : Int) = none) :
    (lines t.fullContent)[i]? = (lines t.text)[i]? := by
  rw [getElem?_lines_fullContent hids, entryFor?_eq_none (identifierAt?_eq_none_iff.1 hfree)]
  exact Option.map_id'

/-- A line that is saved without a tag, and takes one, is free. -/
theorem free_of_takesTag (hl : (lines t.fullContent)[i]? = some l) (htakes : takesTag l) :
    t.canCarry ((1 + i : Nat) : Int) = true ∧ t.identifierAt? ((1 + i : Nat) : Int) = none := by
  rw [getElem?_lines_fullContent hids] at hl
  obtain ⟨line, hline, rfl⟩ := Option.map_eq_some_iff.1 hl
  have hshown : takesTag line := by
    by_contra hnot
    rw [tagged_of_not_takesTag hnot] at htakes
    exact hnot htakes
  obtain ⟨htag, hcode⟩ := takesTag_iff.1 hshown
  refine ⟨canCarry_iff_getElem?.2 ⟨line, hline, hcode⟩, identifierAt?_eq_none_iff.2 fun a ha hat => ?_⟩
  have hentry : entryFor? t.associations (1 + i) = some a :=
    entryFor?_eq_some ha hat fun b hb heq => List.inj_on_of_nodup_map t.nodup_line_associations hb ha (heq.trans hat.symm)
  rw [hentry, tagged, if_pos hshown] at htakes
  obtain ⟨m, hm, -, -⟩ := findTags_codeOf_insertTag hcode htag (hids a ha)
  have hnone := findTags_codeOf_eq_nil_iff.2 (takesTag_iff.1 htakes).1
  rw [hm] at hnone
  cases hnone

end

/-! ### Opening a script of settled lines -/

/-- What a tracker leaves out of the identifiers that it is given would not be saved: their lines take no tag. -/
theorem fullContent_load {β : Type} [LineBuffer β] [FillableBuffer β] {t : Tracker β} (halive : isAlive t.buffer = true)
    (file : Option Text) {e : Extraction} (hlines : (e.ids.map LineId.line).Nodup) :
    (t.load file e).fullContent = reconstruct e.clean e.ids := by
  rw [fullContent, text_load]
  refine reconstruct_congr hlines fun i l hl htakes x hline => ?_
  rw [mem_associations_load halive file hlines, hline]
  refine and_iff_left_of_imp fun _ => canCarry_iff_getElem?.2 ⟨l, ?_, (takesTag_iff.1 htakes).2⟩
  rwa [text_load]

theorem fullContent_opened (file content : Text) :
    (opened file content).fullContent = reconstruct (extract content).clean (extract content).ids :=
  fullContent_load rfl file (nodup_line_ids_extract content)

theorem fullContent_opened_of_settled (h : ∀ l ∈ lines script, Settled mode l) (file : Text) :
    (opened file (mode.prepareScript script)).fullContent = script :=
  (fullContent_opened file _).trans (reconstruct_extract_of_settled h)

/-- The free lines of a script have no tag. -/
theorem codeTag?_eq_none_of_free {content : Text} (hl : (lines content)[i]? = some l)
    (hcarry : (opened file content).canCarry ((1 + i : Nat) : Int) = true)
    (hfree : (opened file content).identifierAt? ((1 + i : Nat) : Int) = none) : codeTag? l = none := by
  rw [Option.eq_none_iff_forall_not_mem]
  intro m hm
  have hentry : (⟨((1 + i : Nat) : Int), m.identifier⟩ : LineId) ∈ (extract content).ids := by
    rw [extract_eq]
    refine mem_numbered.2 ⟨i, partsOf l, ?_, rfl, ?_⟩
    · rw [List.getElem?_map, hl, Option.map_some]
    · rw [snd_partsOf, hm, Option.map_some]
  exact identifierAt?_eq_none_iff.1 hfree _ ((mem_associations_opened file _).2 ⟨hentry, hcarry⟩) rfl

/-- The free lines of a script of settled lines take a tag. -/
theorem takesTag_of_free (hl : (lines script)[i]? = some l) (hsettled : Settled mode l)
    (hcarry : (opened file (mode.prepareScript script)).canCarry ((1 + i : Nat) : Int) = true)
    (hfree : (opened file (mode.prepareScript script)).identifierAt? ((1 + i : Nat) : Int) = none) : takesTag l := by
  have hprepared : (lines (mode.prepareScript script))[i]? = some (mode.prepare l) := by
    rw [lines_prepareScript, List.getElem?_map, hl, Option.map_some]
  have htag : codeTag? (mode.prepare l) = none := codeTag?_eq_none_of_free hprepared hcarry hfree
  have hsame := hsettled.eq_of_codeTag?_eq_none htag
  obtain ⟨line, hline, hcode⟩ := canCarry_iff_getElem?.1 hcarry
  rw [text_opened, lines_clean_extract, List.getElem?_map, hprepared, Option.map_some,
    partsOf_of_codeTag?_eq_none htag, hsame] at hline
  obtain rfl : l = line := Option.some.inj hline
  rw [hsame] at htag
  exact takesTag_iff.2 ⟨htag, hcode⟩

/-- As identifiers accumulate, each line is saved as it was in the script that was opened, or as it will be saved at the end. -/
theorem getElem?_lines_fullContent_between {content : Text} {t t' : Tracker MemoryBuffer}
    (htext : t.text = (opened file content).text) (hold : ∀ x ∈ (opened file content).associations, x ∈ t.associations)
    (htext' : t'.text = t.text) (hgrown : ∀ x ∈ t.associations, x ∈ t'.associations)
    (hids : ∀ a ∈ t'.associations, isIdentifier a.identifier) (i : Nat) :
    (lines t.fullContent)[i]? = (lines content)[i]? ∨ (lines t.fullContent)[i]? = (lines t'.fullContent)[i]? := by
  rw [getElem?_lines_fullContent fun a ha => hids a (hgrown a ha), getElem?_lines_fullContent hids, htext']
  by_cases hcarried : ∃ a ∈ t.associations, a.line = ((1 + i : Nat) : Int)
  · obtain ⟨a, ha, hline⟩ := hcarried
    have hentry : ∀ {t : Tracker MemoryBuffer}, a ∈ t.associations → entryFor? t.associations (1 + i) = some a := fun ha =>
      entryFor?_eq_some ha hline fun b hb heq =>
        List.inj_on_of_nodup_map (nodup_line_associations _) hb ha (heq.trans hline.symm)
    rw [hentry ha, hentry (hgrown a ha)]
    exact .inr rfl
  have hnone : ∀ a ∈ t.associations, a.line ≠ ((1 + i : Nat) : Int) := fun a ha hline => hcarried ⟨a, ha, hline⟩
  rw [entryFor?_eq_none hnone]
  cases hshown : (lines t.text)[i]? with
  | none => exact .inr rfl
  | some shown =>
    rw [Option.map_some, Option.map_some]
    by_cases htakes : takesTag shown
    · left
      rw [htext, text_opened, lines_clean_extract, List.getElem?_map, Option.map_eq_some_iff] at hshown
      obtain ⟨l, hl, rfl⟩ := hshown
      have hcarry : (opened file content).canCarry ((1 + i : Nat) : Int) = true := by
        refine canCarry_iff_getElem?.2 ⟨_, ?_, (takesTag_iff.1 htakes).2⟩
        rw [text_opened, lines_clean_extract, List.getElem?_map, hl, Option.map_some]
      have htag := codeTag?_eq_none_of_free hl hcarry (identifierAt?_eq_none_iff.2 fun a ha => hnone a (hold a ha))
      rw [hl, partsOf_of_codeTag?_eq_none htag]
      rfl
    · right
      rw [tagged_of_not_takesTag htakes, tagged_of_not_takesTag htakes]

end Tracker

namespace Session

variable {s s₀ : Session MemoryBuffer}

/-- An idle session saves what the one before it would have saved. -/
theorem Idle.projectFiles (h : Idle s₀ s) (hnamed : s₀.WellNamed) (hfiles : (names s₀.files).Nodup) :
    s.projectFiles = s₀.projectFiles := by
  refine (h.grown.projectFiles_eq_iff_not_gains hnamed hfiles).2 ?_
  rintro ⟨file, x, hx, hnew, -⟩
  exact hnew (h.ids file x hx)

/-- Files whose lines are not refused can be opened one after the other. -/
theorem exists_openAll {order : List Text} {contentOf : Text → Text} (hstaged : s.staged = [])
    (hcontent : ∀ file ∈ order, s.files.lookup file = some (contentOf file)) (hnodup : (names s.documents ++ order).Nodup)
    (haccepted : ∀ file ∈ order, ∃ e, Extraction.ofScript s.mode (contentOf file) = .ok e) :
    ∃ s', Tagging.openAll order s = .ok s' := by
  induction order generalizing s with
  | nil => exact ⟨s, rfl⟩
  | cons file order ih =>
    obtain ⟨e, he⟩ := haccepted file List.mem_cons_self
    have hopened : (s.openDocument file none none).1 = .ok () := by
      have hcontent : (none : Option Text).getD (s.stored file) = contentOf file := by
        rw [Option.getD_none, stored, hcontent file List.mem_cons_self, Option.getD_some]
      have hmode : (s.putDocument file (s.trackerFor file none)).mode = s.mode := rfl
      unfold openDocument
      dsimp only
      rw [hcontent, hmode, he]
    have hclosed : file ∉ names s.documents := fun hmem =>
      (List.nodup_append.1 hnodup).2.2 file hmem file List.mem_cons_self rfl
    cases heq : s.openDocument file none none with
    | mk outcome s₁ =>
      rw [heq] at hopened
      obtain rfl : outcome = .ok () := hopened
      have hs₁ := openDocument_eq_ok hstaged hclosed (hcontent file List.mem_cons_self) heq
      rw [Tagging.openAll, heq]
      refine ih (by rw [hs₁]; exact hstaged) (fun other hother => ?_) ?_ fun other hother => ?_
      · rw [hs₁]
        exact hcontent other (List.mem_cons_of_mem _ hother)
      · rw [hs₁]
        simpa [names] using hnodup
      · rw [hs₁]
        exact haccepted other (List.mem_cons_of_mem _ hother)

end Session

end LineTags
