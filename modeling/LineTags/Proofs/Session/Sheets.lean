import LineTags.Proofs.Buffer.SheetRun

/-!
# Documents that were opened

Opening a file fills a tracker that follows a sheet, whatever the session was before and whichever buffer the file is opened into: the old anchors are cleared, and all that happens then is binding. So everything that edits by whole lines, binding and unbinding do to an opened document can be read off the rows that it showed first.
-/

namespace LineTags

open Text

namespace Session

variable {s s' : Session MemoryBuffer} {file : Text}

/-- A document is open and follows some sheet. -/
def ShowsSheet (s : Session MemoryBuffer) (file : Text) : Prop :=
  ∃ t sheet, s.document? file = some t ∧ Follows t sheet

theorem ShowsSheet.putDocument (h : s.ShowsSheet file) {other : Text} {t' : Tracker MemoryBuffer}
    (hput : other = file → ∃ sheet, Follows t' sheet) : (s.putDocument other t').ShowsSheet file := by
  obtain ⟨t, sheet, hdoc, hfollows⟩ := h
  by_cases heq : other = file
  · obtain ⟨sheet', hfollows'⟩ := hput heq
    exact ⟨t', sheet', by rw [document?_putDocument, if_pos heq.symm], hfollows'⟩
  · exact ⟨t, sheet, by rw [document?_putDocument, if_neg (Ne.symm heq), hdoc], hfollows⟩

theorem ShowsSheet.exists_follows (h : s.ShowsSheet file) {t : Tracker MemoryBuffer} (hdoc : s.document? file = some t) :
    ∃ sheet, Follows t sheet := by
  obtain ⟨t', sheet, hdoc', hfollows⟩ := h
  obtain rfl := Option.some.inj (hdoc'.symm.trans hdoc)
  exact ⟨sheet, hfollows⟩

theorem ShowsSheet.applyEdit (h : s.ShowsSheet file) (other : Text) (e : IdEdit) (expected : Text) :
    (s.applyEdit other e expected).2.ShowsSheet file := by
  obtain heq | ⟨t, hdoc, heq⟩ | ⟨t, hdoc, -, -, heq⟩ := applyEdit_cases s other e expected
  · rwa [heq]
  · rw [heq]
    apply h.putDocument
    intro hfile
    subst hfile
    obtain ⟨sheet, hfollows⟩ := h.exists_follows hdoc
    exact ⟨sheet, hfollows.tidy⟩
  · rw [heq]
    apply h.putDocument
    intro hfile
    subst hfile
    obtain ⟨sheet, hfollows⟩ := h.exists_follows hdoc
    exact ⟨_, hfollows.tidy.bind e.line e.identifier⟩

theorem showsSheet_applyStaged (h : s.ShowsSheet file) (other : Text) : (s.applyStaged other).ShowsSheet file :=
  applyStaged_induction (P := fun r => r.ShowsSheet file) other h fun _ w _ hr => hr.applyEdit other w.edit w.lineText

/-- Whatever a tracker held, it follows a sheet once it was filled from a file. -/
theorem exists_follows_load (t : Tracker MemoryBuffer) (file : Option Text) (e : Extraction) :
    ∃ sheet, Follows (t.load file e) sheet := by
  have hblank := Follows.of_noAnchors (b := LineBuffer.clearAnchors (LineBuffer.setText e.clean t.buffer)) rfl file
  exact hblank.bindAll e.ids

theorem showsSheet_openDocument {content? : Option Text} {buffer? : Option MemoryBuffer}
    (hopen : s.openDocument file content? buffer? = (.ok (), s')) : s'.ShowsSheet file := by
  unfold openDocument at hopen
  dsimp only at hopen
  split at hopen
  · cases hopen
  · next extraction _ =>
    obtain ⟨-, rfl⟩ := Prod.mk.inj hopen
    apply showsSheet_applyStaged
    obtain ⟨sheet, hfollows⟩ := exists_follows_load (s.trackerFor file buffer?) file extraction
    refine ⟨_, sheet, ?_, hfollows⟩
    rw [document?, putDocument, Keyed.lookup_put, if_pos rfl]

/-- An opened document goes on to show the rows of its sheet, whatever is done to it line by line. -/
theorem sheet_performAll_of_openDocument {content? : Option Text} {buffer? : Option MemoryBuffer}
    (hopen : s.openDocument file content? buffer? = (.ok (), s')) :
    ∃ t, s'.document? file = some t ∧ ∀ edits, LineEdit.FitsAll t.sheet edits →
      ∃ t', LineEdit.performAll t edits = .ok t' ∧ t'.text = (LineEdit.allOnSheet t.sheet edits).text ∧
        t'.associations = (LineEdit.allOnSheet t.sheet edits).ids := by
  obtain ⟨t, sheet, hdoc, hfollows⟩ := showsSheet_openDocument hopen
  refine ⟨t, hdoc, fun edits hfits => ?_⟩
  rw [hfollows.sheet_eq] at hfits ⊢
  obtain ⟨t', hperform, hfollows'⟩ := hfollows.performAll hfits
  exact ⟨t', hperform, hfollows'.text, hfollows'.associations_eq⟩

/-- A line comes in above the tagged ones, takes an identifier and goes again, and the first tagged one loses its own. -/
theorem sheet_performAll_of_openDocument_twoTags :
    let s := Session.ofFiles [("a.ink".toList, "x #id:AAAA\n\ny #id:BBBB".toList)] {}
    let edits : List LineEdit := [.insertLines 1 ["z".toList], .bind 1 "CCCC".toList, .deleteLines 1 1, .unbind "AAAA".toList]
    ∃ t, (s.openDocument "a.ink".toList none none).2.document? "a.ink".toList = some t ∧
      ∃ t', LineEdit.performAll t edits = .ok t' ∧ t'.text = (LineEdit.allOnSheet t.sheet edits).text ∧
        t'.associations = (LineEdit.allOnSheet t.sheet edits).ids := by
  intro s edits
  have hopen : s.openDocument "a.ink".toList none none = (.ok (), (s.openDocument "a.ink".toList none none).2) := by
    apply Prod.ext
    · decide +kernel
    · rfl
  obtain ⟨t, hdoc, hall⟩ := sheet_performAll_of_openDocument hopen
  refine ⟨t, hdoc, hall edits ⟨⟨by decide, by decide, by decide⟩, trivial, ⟨by decide, by decide, ?_⟩, trivial, trivial⟩⟩
  simp [LineEdit.onSheet, Sheet.insertLines, Sheet.bind, splice]

end Session

end LineTags
