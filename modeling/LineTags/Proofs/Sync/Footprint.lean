import LineTags.Proofs.Session.Gains
import LineTags.Proofs.Sync.Reservation

/-!
# What a run touches

A run that ends binds identifiers to lines, and nothing else that is shown or saved changes: every buffer has its text, every identifier is on the line where it was, and a file that the run is not for has the same identifiers and is saved as before. In the file of the run, the lines with a new identifier are those of the edits that the run answers, each of which carried none; they are saved with the tag, if they take one, and every other line is saved as before.

What is saved of a line is told by the line of the buffer. While all identifiers are words, these are the lines of the saved text.
-/

namespace LineTags

open Text

/-! ## The lines that are saved -/

namespace Tracker

variable {β : Type} [LineBuffer β] {t t' : Tracker β} {i : Nat}

/-- The lines of the buffer as they are saved, each with the tag of its identifier. -/
def savedLines (t : Tracker β) : List Text :=
  ((lines t.text).zipIdx 1).map fun (line, number) => tagged line (entryFor? t.associations number)

theorem unlines_savedLines (t : Tracker β) : unlines t.savedLines = t.fullContent := (reconstruct_eq t.text t.associations).symm

theorem lines_fullContent (hwords : ∀ a ∈ t.associations, IsWord a.identifier) : lines t.fullContent = t.savedLines :=
  lines_reconstruct hwords

theorem getElem?_savedLines :
    t.savedLines[i]? = (lines t.text)[i]?.map fun line => tagged line (entryFor? t.associations (1 + i)) := by
  rw [savedLines, List.getElem?_map, List.getElem?_zipIdx, Option.map_map]
  rfl

theorem getElem?_savedLines_congr (htext : t'.text = t.text)
    (hsame : ∀ x : LineId, x.line = ((1 + i : Nat) : Int) → (x ∈ t.associations ↔ x ∈ t'.associations)) :
    t'.savedLines[i]? = t.savedLines[i]? := by
  rw [getElem?_savedLines, getElem?_savedLines, htext, entryFor?_congr t'.nodup_line_associations hsame]

theorem getElem?_savedLines_of_free (hfree : ∀ x ∈ t.associations, x.line ≠ ((1 + i : Nat) : Int)) :
    t.savedLines[i]? = (lines t.text)[i]? := by
  rw [getElem?_savedLines, entryFor?_eq_none hfree]
  exact Option.map_id'

theorem getElem?_savedLines_of_mem {x : LineId} (hx : x ∈ t.associations) (hline : x.line = ((1 + i : Nat) : Int)) :
    t.savedLines[i]? = (lines t.text)[i]?.map fun line => if takesTag line then insertTag line x.identifier else line := by
  have hentry : entryFor? t.associations (1 + i) = some x :=
    entryFor?_eq_some hx hline fun y hy heq => List.inj_on_of_nodup_map t.nodup_line_associations hy hx (heq.trans hline.symm)
  rw [getElem?_savedLines, hentry]
  rfl

end Tracker

namespace Session

variable {β : Type} [LineBuffer β] {s s' : Session β} {file : Text}

/-- The lines of a file as they are saved. -/
def savedLines (s : Session β) (file : Text) : List Text :=
  match s.document? file with
  | some t => t.savedLines
  | none => lines (s.stored file)

theorem savedLines_of_document? {t : Tracker β} (hdoc : s.document? file = some t) : s.savedLines file = t.savedLines := by
  rw [savedLines, hdoc]

theorem unlines_savedLines (s : Session β) (file : Text) : unlines (s.savedLines file) = s.fullContent file := by
  unfold savedLines fullContent
  cases s.document? file with
  | some t => exact t.unlines_savedLines
  | none => exact unlines_lines _

theorem lines_fullContent (hwords : ∀ a ∈ s.idsOf file, IsWord a.identifier) : lines (s.fullContent file) = s.savedLines file := by
  unfold savedLines fullContent
  cases hdoc : s.document? file with
  | some t => exact Tracker.lines_fullContent (idsOf_of_document? hdoc ▸ hwords)
  | none => rfl

/-- From one session to the other, the lines of some edits for a file have got their identifiers, and nothing else has changed that is shown or saved. -/
structure OnlyTags (file : Text) (applied : List IdEdit) (s s' : Session β) : Prop where
  text : ∀ other, (s'.document? other).map Tracker.text = (s.document? other).map Tracker.text
  kept : ∀ other, ∀ a ∈ s.idsOf other, a ∈ s'.idsOf other
  others : ∀ other, other ≠ file → s'.idsOf other = s.idsOf other ∧ s'.fullContent other = s.fullContent other
  active : applied ≠ [] → s.active = some file ∧ ∀ e ∈ applied, e.file = some file
  gained : ∀ a, a ∈ s'.idsOf file ↔ a ∈ s.idsOf file ∨ ∃ e ∈ applied, a = ⟨e.line, e.identifier⟩
  free : ∀ e ∈ applied, ∀ a ∈ s.idsOf file, a.line ≠ e.line
  oneEach : (applied.map IdEdit.line).Nodup
  elsewhere : ∀ i : Nat, (∀ e ∈ applied, e.line ≠ ((1 + i : Nat) : Int)) →
    (s'.savedLines file)[i]? = (s.savedLines file)[i]?
  there : ∀ e ∈ applied, ∃ (i : Nat) (l : Text), e.line = ((1 + i : Nat) : Int) ∧ s.Reads file e.line l ∧
    hasNoCode l = false ∧ (s.savedLines file)[i]? = some l ∧
    (s'.savedLines file)[i]? = some (if takesTag l then insertTag l e.identifier else l)
  lines : (∀ a ∈ s'.idsOf file, IsWord a.identifier) →
    Text.lines (s.fullContent file) = s.savedLines file ∧ Text.lines (s'.fullContent file) = s'.savedLines file

theorem Extends.idsOf_of_closed (h : s.Extends s') (hdoc : s'.document? file = none) : s'.idsOf file = s.idsOf file := by
  rw [idsOf, idsOf, hdoc, h.document?_eq_none hdoc]
  dsimp only
  rw [stored, stored, h.files]

theorem Extends.savedLines_of_closed (h : s.Extends s') (hdoc : s'.document? file = none) :
    s'.savedLines file = s.savedLines file := by
  rw [savedLines, savedLines, hdoc, h.document?_eq_none hdoc]
  dsimp only
  rw [stored, stored, h.files]

/-- Where no identifier was added, the list of identifiers is the same, and so is what is saved. -/
theorem Extends.same_of_ids (h : s.Extends s') (hids : ∀ a ∈ s'.idsOf file, a ∈ s.idsOf file) :
    s'.idsOf file = s.idsOf file ∧ s'.fullContent file = s.fullContent file := by
  cases hdoc' : s'.document? file with
  | none => exact ⟨h.idsOf_of_closed hdoc', h.fullContent_of_closed hdoc'⟩
  | some t' =>
    obtain ⟨t, hdoc, htext, hkept⟩ := h.exists_document? hdoc'
    rw [idsOf_of_document? hdoc', idsOf_of_document? hdoc] at hids ⊢
    have hsame := Tracker.associations_eq_of_mem_iff fun x => ⟨hids x, hkept x⟩
    rw [fullContent, fullContent, hdoc', hdoc]
    dsimp only
    rw [Tracker.fullContent, Tracker.fullContent, htext, hsame]
    exact ⟨rfl, rfl⟩

/-- All that has to be known of what was applied: which identifiers came, and that their lines were free. -/
theorem Extends.onlyTags {applied : List IdEdit} (h : s.Extends s')
    (hothers : ∀ other, other ≠ file → ∀ a ∈ s'.idsOf other, a ∈ s.idsOf other)
    (hactive : applied ≠ [] → s.active = some file ∧ ∀ e ∈ applied, e.file = some file)
    (hgained : ∀ a, a ∈ s'.idsOf file ↔ a ∈ s.idsOf file ∨ ∃ e ∈ applied, a = ⟨e.line, e.identifier⟩)
    (hfree : ∀ e ∈ applied, s.Free file e.line) (hone : (applied.map IdEdit.line).Nodup) : OnlyTags file applied s s' where
  text := h.text
  kept := h.ids
  others := fun other hother => h.same_of_ids (hothers other hother)
  active := hactive
  gained := hgained
  free := by
    intro e he a ha
    obtain ⟨t, hdoc, -, hnone⟩ := hfree e he
    exact Tracker.identifierAt?_eq_none_iff.1 hnone a (idsOf_of_document? hdoc ▸ ha)
  oneEach := hone
  elsewhere := by
    intro i hi
    cases hdoc' : s'.document? file with
    | none => rw [h.savedLines_of_closed hdoc']
    | some t' =>
      obtain ⟨t, hdoc, htext, hkept⟩ := h.exists_document? hdoc'
      rw [savedLines_of_document? hdoc, savedLines_of_document? hdoc']
      rw [idsOf_of_document? hdoc, idsOf_of_document? hdoc'] at hgained
      refine Tracker.getElem?_savedLines_congr htext fun x hline => ⟨hkept x, fun hx => ((hgained x).1 hx).resolve_right ?_⟩
      rintro ⟨e, he, rfl⟩
      exact hi e he hline
  there := by
    intro e he
    obtain ⟨t, hdoc, hcarry, hnone⟩ := hfree e he
    obtain ⟨l, hline, hcode⟩ := Tracker.canCarry_iff.1 hcarry
    have hat : e.line = ((1 + (e.line.toNat - 1) : Nat) : Int) := by
      have := Tracker.one_le_of_line? hline
      omega
    have hreads : s.Reads file e.line l := ⟨t, hdoc, hline⟩
    have hshown : (Text.lines t.text)[e.line.toNat - 1]? = some l := (reads_iff_getElem? hdoc).1 (hat ▸ hreads)
    obtain ⟨t', hdoc', htext⟩ := Option.map_eq_some_iff.1 ((h.text file).trans (congrArg (Option.map Tracker.text) hdoc))
    have hmem : (⟨e.line, e.identifier⟩ : LineId) ∈ t'.associations := by
      rw [← idsOf_of_document? hdoc']
      exact (hgained _).2 (.inr ⟨e, he, rfl⟩)
    refine ⟨e.line.toNat - 1, l, hat, hreads, hcode, ?_, ?_⟩
    · rw [savedLines_of_document? hdoc, Tracker.getElem?_savedLines_of_free, hshown]
      exact hat ▸ Tracker.identifierAt?_eq_none_iff.1 hnone
    · rw [savedLines_of_document? hdoc', Tracker.getElem?_savedLines_of_mem hmem hat, htext, hshown]
      rfl
  lines := fun hwords => ⟨lines_fullContent fun a ha => hwords a (h.ids file a ha), lines_fullContent hwords⟩

theorem onlyTags_nil (file : Text) (s : Session β) : OnlyTags file [] s s :=
  (Extends.refl s).onlyTags (fun _ _ _ ha => ha) (fun hne => absurd rfl hne)
    (fun _ => (or_iff_left fun ⟨_, he, _⟩ => absurd he List.not_mem_nil).symm) (fun _ he => absurd he List.not_mem_nil)
    List.nodup_nil

end Session

namespace TagDriver

open Session

variable {β : Type} [LineBuffer β] [LawfulBuffer β] {d : TagDriver β} {s : Session β}

theorem free_of_mem_answer (hs : s.Sound) {run : Run} {es : List IdEdit} {e : IdEdit} (he : e ∈ (deliverAll run es s).1) :
    e ∈ es ∧ e.file = some run.file ∧ s.Free run.file e.line := by
  obtain ⟨before, after, expected, rfl, hfile, -, hbound⟩ := exists_applyEdit_of_mem_deliverAll he
  have hmem : e ∈ before ++ e :: after := List.mem_append_right before List.mem_cons_self
  exact ⟨hmem, hfile, (extends_deliverAll hs run before).free (free_of_applyEdit hbound)⟩

/-- A line that got an identifier is not free for the next ones. -/
theorem nodup_line_deliverAll (hs : s.Sound) (run : Run) (es : List IdEdit) : ((deliverAll run es s).1.map IdEdit.line).Nodup := by
  induction es generalizing s with
  | nil => exact List.nodup_nil
  | cons e es ih =>
    have hrest := ih (sound_deliver hs run e)
    rw [deliverAll_cons]
    dsimp only
    split
    · next hbound =>
      refine List.nodup_cons.2 ⟨fun hmem => ?_, hrest⟩
      obtain ⟨other, hother, hline⟩ := List.mem_map.1 hmem
      have hnew : (⟨e.line, e.identifier⟩ : LineId) ∈ (deliver run e s).2.idsOf run.file :=
        (mem_idsOf_deliver hs run e run.file _).2 (.inr ⟨hbound, rfl, rfl⟩)
      obtain ⟨-, -, t, hdoc, -, hnone⟩ := free_of_mem_answer (sound_deliver hs run e) hother
      rw [idsOf_of_document? hdoc] at hnew
      exact Tracker.identifierAt?_eq_none_iff.1 hnone _ hnew hline.symm
    · exact hrest

theorem onlyTags_delivered (hs : d.session.Sound) {run : Run} (hcurrent : d.isCurrent run = true) (story : Story) :
    OnlyTags run.file (deliverAll run (d.generator.run d.session.existingIds story.root).1.edits d.session.tidy).1 d.session
      (d.delivered run story).session := by
  have htidy : d.session.tidy.Sound := sound_tidy hs
  refine (extends_delivered hs run story).onlyTags (fun other hother _ ha => ?_) (fun _ => ⟨?_, fun e he => ?_⟩)
    (fun _ => ?_) (fun e he => ?_) (nodup_line_deliverAll htidy run _)
  · exact ((mem_idsOf_delivered hs run story other _).1 ha).resolve_right fun hnew => hother hnew.1
  · exact (isCurrent_iff.1 hcurrent).2.2
  · exact (free_of_mem_answer htidy he).2.1
  · rw [mem_idsOf_delivered hs]
    exact or_congr_right (and_iff_right rfl)
  · exact (extends_tidy hs).free (free_of_mem_answer htidy he).2.2

/-- Whatever compiling came to, a run does nothing but bind identifiers to the lines of the edits that it answers, one to each. -/
theorem onlyTags_finishRun (hs : d.session.Sound) (run : Run) (outcome : Compiled) :
    OnlyTags run.file ((d.finishRun run outcome).1.toOption.getD []) d.session (d.finishRun run outcome).2.session := by
  obtain ⟨phase, -, h⟩ | ⟨story, -, hcurrent, h⟩ := finishRun_cases run outcome d
  · have hnone : (emptyAnswer outcome).toOption.getD [] = [] := by
      cases outcome <;> rfl
    rw [h, hnone]
    exact onlyTags_nil run.file d.session
  · rw [h]
    exact onlyTags_delivered hs hcurrent story

/-- The run tags the first line. The second has a tag already, and the third has no code. -/
theorem onlyTags_finishRun_besideTagged :
    let d := (Interleaving.opening [("a.ink".toList, "x\ny #id:AAAA\n// z".toList), ("b.ink".toList, "w".toList)] [1]).driver
    let run : Run :=
      { token := 1, file := "a.ink".toList, content := "x\ny #id:AAAA\n// z".toList, files := d.session.projectFiles
        snapshot := d.session.snapshot ["a.ink".toList, "b.ink".toList] }
    let outcome := Compiled.story
      { root := .branch .group none [.text ['x'] (some ⟨some "a.ink".toList, 1⟩), .text ['z'] (some ⟨some "a.ink".toList, 3⟩)]
        fileNames := []
        knots := [] }
    d.startRun.1 = some run ∧ d.startRun.2.session.Sound ∧
    (d.startRun.2.finishRun run outcome).1.toOption.getD [] = [⟨some "a.ink".toList, 1, ['x'], "BBBB".toList⟩] ∧
    OnlyTags run.file ((d.startRun.2.finishRun run outcome).1.toOption.getD []) d.startRun.2.session
      (d.startRun.2.finishRun run outcome).2.session := by
  intro d run outcome
  have hsound : d.startRun.2.session.Sound := by
    have hreachable : d.session.Reachable :=
      .openDocument "a.ink".toList none none (.ofFiles _ _) fun _ h => absurd h (Option.not_mem_none _)
    exact hreachable.tidy.sound
  exact ⟨by decide +kernel, hsound, by decide +kernel, onlyTags_finishRun hsound run outcome⟩

end TagDriver

end LineTags
