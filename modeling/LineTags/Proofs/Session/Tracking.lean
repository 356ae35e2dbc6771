import LineTags.Proofs.Buffer.Filling
import LineTags.Proofs.Buffer.SheetRun
import LineTags.Proofs.Session.Reopening
import LineTags.Proofs.Session.Staging

/-!
# What an opened file shows

A script can be taken apart and put together directly, as two texts and a list. A session goes another way: it puts the clean text into a buffer that may have held another one, binds the identifiers one after the other to anchors, and reads them back from where the anchors start. The two ways agree. Whatever the buffer held before, the file shows the clean text, the identifiers of those lines that have code, and when it is saved all that putting the parts together gives. The identifiers that the tracker did not bind make no difference to what is saved, because their lines take no tag.
-/

namespace LineTags

open LineBuffer AnchoringBuffer FillableBuffer

/-! ## Scripts -/

/-- Whether a line of a text has code that a tag can go to. -/
def hasCodeAt (t : Text) (line : Int) : Bool := (t.line? line).any fun l => !hasNoCode l

theorem hasCodeAt_iff {t : Text} {line : Int} : hasCodeAt t line = true ↔ ∃ l, t.line? line = some l ∧ hasNoCode l = false := by
  simp [hasCodeAt, Option.any_eq_true]

theorem pairwise_ids_extract (script : Text) : (extract script).ids.Pairwise fun x y => x.line < y.line := by
  rw [extract_eq]
  exact pairwise_numbered 1 _

/-! ## Trackers -/

namespace Tracker

variable {β : Type} [LineBuffer β] [FillableBuffer β] {t : Tracker β} {e : Extraction}

theorem canCarry_load (t : Tracker β) (file : Option Text) (e : Extraction) (line : Int) :
    (t.load file e).canCarry line = hasCodeAt e.clean line := by
  rw [Bool.eq_iff_iff, canCarry_iff, hasCodeAt_iff, LineBuffer.line?]
  rw [show LineBuffer.text (t.load file e).buffer = e.clean from text_load t file e]

/-- The tracker says the list, but for the lines without code. -/
theorem associations_load (halive : isAlive t.buffer = true) (file : Option Text)
    (hordered : e.ids.Pairwise fun x y => x.line < y.line) :
    (t.load file e).associations = e.ids.filter fun a => hasCodeAt e.clean a.line := by
  have hlines : (e.ids.map LineId.line).Nodup := List.pairwise_map.2 (hordered.imp fun h => by omega)
  refine eq_of_pairwise_line (pairwise_associations _) (hordered.filter _) fun x => ?_
  rw [mem_associations_load halive file hlines, canCarry_load, List.mem_filter]

end Tracker

/-! ## Sessions -/

namespace Session

variable {β : Type} [LineBuffer β] {s : Session β} {file : Text} {content? : Option Text} {buffer? : Option β}

theorem document?_applyStaged_of_waiting (h : s.waiting file = []) : (s.applyStaged file).document? file = s.document? file := by
  rw [applyStaged, show (s.staged.lookup file).getD [] = [] from h]
  rfl

/-- A file for which nothing waits is filled with what its script gives, and nothing else happens to it. -/
theorem document?_openDocument (hwaiting : s.waiting file = []) (hopened : (s.openDocument file content? buffer?).1 = .ok ()) :
    ∃ e, Extraction.ofScript s.mode (content?.getD (s.stored file)) = .ok e ∧
      (s.openDocument file content? buffer?).2.document? file = some ((s.trackerFor file buffer?).load file e) := by
  unfold openDocument at hopened ⊢
  dsimp only at hopened ⊢
  split at hopened
  · cases hopened
  · next e he =>
    refine ⟨e, he, (document?_applyStaged_of_waiting ?_).trans ?_⟩
    · exact hwaiting
    · exact (document?_putDocument _ file file _).trans (if_pos rfl)

/-- A file shows a script that is taken apart: its clean text, the identifiers of the lines with code, and when it is saved the parts put together. -/
structure Shows (s : Session β) (file : Text) (e : Extraction) : Prop where
  clean : s.cleanContent file = e.clean
  tracked : ∃ t, s.document? file = some t ∧ t.associations = e.ids.filter fun a => hasCodeAt e.clean a.line
  full : s.fullContent file = reconstruct e.clean e.ids

variable [FillableBuffer β]

/-- Opening a file in a buffer in use shows what taking its script apart gives. -/
theorem shows_openDocument (hwaiting : s.waiting file = []) (halive : isAlive (s.trackerFor file buffer?).buffer = true)
    (hopened : (s.openDocument file content? buffer?).1 = .ok ()) :
    ∃ e, Extraction.ofScript { repair := s.mode.repair } (content?.getD (s.stored file)) = .ok e ∧
      (s.openDocument file content? buffer?).2.Shows file e := by
  obtain ⟨e, he, hdoc⟩ := document?_openDocument hwaiting hopened
  have hextract : e = extract (s.mode.prepareScript (content?.getD (s.stored file))) := ofScript_eq he
  have hordered : e.ids.Pairwise fun x y => x.line < y.line := hextract ▸ pairwise_ids_extract _
  refine ⟨e, ?_, ⟨?_, ⟨_, hdoc, Tracker.associations_load halive _ hordered⟩, ?_⟩⟩
  · rw [ofScript_lenient, hextract]
    rfl
  · rw [cleanContent, hdoc]
    exact Tracker.text_load _ _ e
  · rw [fullContent, hdoc]
    exact Tracker.fullContent_load halive _ (hextract ▸ nodup_line_ids_extract _)

/-- A script with an identifier on two lines and one on a line without code, shown by a widget that held another text with an anchor. -/
theorem shows_openDocument_widget :
    let file := "a.ink".toList
    let script := "Hi#id:AAAA\n#id:BBBB // aside\n\nHo #id:AAAA".toList
    let s : Session Widget := ofFiles [(file, "old #id:AAAA".toList)] { repair := true, strict := true }
    let w : Widget := { content := "left over".toList, anchors := [(3, ⟨0, .right⟩, ⟨4, .left⟩)], nextHandle := 4 }
    s.waiting file = [] ∧ isAlive (s.trackerFor file (some w)).buffer = true ∧
      (s.openDocument file (some script) (some w)).1 = .ok () ∧
      ∃ e, Extraction.ofScript { repair := true } script = .ok e ∧
        (s.openDocument file (some script) (some w)).2.Shows file e := by
  intro file script s w
  have hwaiting : s.waiting file = [] := by decide +kernel
  have halive : isAlive (s.trackerFor file (some w)).buffer = true := by decide +kernel
  have hopened : (s.openDocument file (some script) (some w)).1 = .ok () := by decide +kernel
  have hshown := shows_openDocument hwaiting halive hopened
  rw [Option.getD_some, show s.mode.repair = true from rfl] at hshown
  exact ⟨hwaiting, halive, hopened, hshown⟩

end Session

end LineTags
