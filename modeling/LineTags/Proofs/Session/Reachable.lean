import LineTags.Proofs.Session.Delivery

/-!
# Sessions that can occur

A session starts with the files of a project and changes by its operations, by questions about identifiers, which tidy, and by what a user types into an open buffer. A buffer that is handed in when a file is opened must be sound; nothing else is asked of those who use a session. Every session that can occur has sound trackers.
-/

namespace LineTags.Session

variable {β : Type} [LineBuffer β] [LawfulBuffer β] {s : Session β}

inductive Reachable : Session β → Prop
  | ofFiles (files : List (Text × Text)) (mode : ExtractionMode) : Reachable (ofFiles files mode)
  | openDocument {s : Session β} (file : Text) (content? : Option Text) (buffer? : Option β) :
    Reachable s → (∀ b ∈ buffer?, LawfulBuffer.Sound b) → Reachable (s.openDocument file content? buffer?).2
  | closeDocument {s : Session β} (file : Text) : Reachable s → Reachable (s.closeDocument file)
  | setActive {s : Session β} (file : Text) : Reachable s → Reachable (s.setActive file).2
  | clear {s : Session β} : Reachable s → Reachable s.clear
  | tidy {s : Session β} : Reachable s → Reachable s.tidy
  | tidyFile {s : Session β} (file : Text) : Reachable s → Reachable (s.tidyFile file)
  | edited {s : Session β} {file : Text} {t t' : Tracker β} :
    Reachable s → s.document? file = some t → t.Edited t' → Reachable (s.putDocument file t')
  | bind {s : Session β} {file : Text} {t : Tracker β} (line : Int) (identifier : Text) :
    Reachable s → s.document? file = some t → Reachable (s.putDocument file (t.bind line identifier).2)
  | unbind {s : Session β} {file : Text} {t : Tracker β} (identifier : Text) :
    Reachable s → s.document? file = some t → Reachable (s.putDocument file (t.unbind identifier))
  | applyEdit {s : Session β} (file : Text) (e : IdEdit) (expected : Text) :
    Reachable s → Reachable (s.applyEdit file e expected).2
  | stage {s : Session β} (e : IdEdit) (lineText : Text) : Reachable s → Reachable (s.stage e lineText).2

theorem sound_trackerFor (hs : s.Sound) (file : Text) (buffer? : Option β)
    (hbuffer : ∀ b ∈ buffer?, LawfulBuffer.Sound b) : (s.trackerFor file buffer?).Sound := by
  unfold trackerFor
  split
  · next t hdoc => exact hs.of_document? hdoc
  · next b => exact Tracker.sound_of_buffer (hbuffer b rfl) file
  · exact Tracker.sound_of_buffer LawfulBuffer.sound_fresh file

theorem sound_openDocument (hs : s.Sound) (file : Text) (content? : Option Text) (buffer? : Option β)
    (hbuffer : ∀ b ∈ buffer?, LawfulBuffer.Sound b) : (s.openDocument file content? buffer?).2.Sound := by
  have ht : (s.trackerFor file buffer?).Sound := sound_trackerFor hs file buffer? hbuffer
  have hput : (s.putDocument file (s.trackerFor file buffer?)).Sound := sound_putDocument hs file ht
  unfold openDocument
  dsimp only
  split
  · exact hput
  · next extraction _ =>
    have hload : ((s.trackerFor file buffer?).load file extraction).Sound := Tracker.sound_load ht file extraction
    apply sound_applyStaged
    exact (sound_putDocument hput file hload).of_documents_eq rfl

theorem sound_closeDocument (hs : s.Sound) (file : Text) : (s.closeDocument file).Sound := by
  unfold closeDocument
  split
  · exact hs
  · exact fun d hd => hs d (List.mem_filter.1 hd).1

theorem sound_setActive (hs : s.Sound) (file : Text) : (s.setActive file).2.Sound := by
  have hopen : (s.openDocument file none none).2.Sound :=
    sound_openDocument hs file none none fun b hb => absurd hb (Option.not_mem_none b)
  unfold setActive
  by_cases h : s.isOpen file = true
  · rw [if_pos h]
    apply sound_applyStaged
    exact hs.of_documents_eq rfl
  · rw [if_neg h]
    split
    · next e r heq =>
      rw [heq] at hopen
      exact hopen
    · next r heq =>
      rw [heq] at hopen
      apply sound_applyStaged
      exact hopen.of_documents_eq rfl

theorem sound_tidyFile (hs : s.Sound) (file : Text) : (s.tidyFile file).Sound := by
  intro d hd
  obtain ⟨d', hd', rfl⟩ := List.mem_map.1 hd
  dsimp only
  split
  · exact Tracker.sound_tidy (hs d' hd')
  · exact hs d' hd'

theorem Reachable.sound (h : Reachable s) : s.Sound := by
  induction h with
  | ofFiles files mode => exact fun d hd => absurd hd List.not_mem_nil
  | openDocument file content? buffer? _ hbuffer ih => exact sound_openDocument ih file content? buffer? hbuffer
  | closeDocument file _ ih => exact sound_closeDocument ih file
  | setActive file _ ih => exact sound_setActive ih file
  | clear _ _ => exact fun d hd => absurd hd List.not_mem_nil
  | tidy _ ih => exact sound_tidy ih
  | tidyFile file _ ih => exact sound_tidyFile ih file
  | edited _ hdoc hedited ih => exact sound_putDocument ih _ (hedited.sound (ih.of_document? hdoc))
  | bind line identifier _ hdoc ih => exact sound_putDocument ih _ (Tracker.sound_bind (ih.of_document? hdoc) _ _)
  | unbind identifier _ hdoc ih => exact sound_putDocument ih _ (Tracker.sound_unbind (ih.of_document? hdoc) _)
  | applyEdit file e expected _ ih => exact sound_applyEdit ih file e expected
  | stage e lineText _ ih => exact sound_stage ih e lineText

end LineTags.Session
