import LineTags.Proofs.Minting.Wanting
import LineTags.Proofs.Session.FreeLines

/-!
# Lines that want a tag when a run is issued

A run that counts and has a story delivers an identifier for each line of its file that wants a tag, or reports the line. What was noted of a line is how it still reads when the run delivers, so a free line takes the identifier that comes for it, as long as the buffer of the file can be used. So no line that wants a tag, and that is not reported, is free after the run. And nothing is bound but to a line that was free, in a buffer that can be used.
-/

namespace LineTags.TagDriver

open Text LineBuffer Session

section

variable {β : Type} [LineBuffer β] {d d' : TagDriver β} {run : Run}

/-- What a run compiles is what its file would be saved as. -/
theorem content_of_startRun (h : d.startRun = (some run, d')) (hs : d.session.WellNamed) :
    run.files.lookup run.file = some run.content ∧ run.content = d.session.fullContent run.file := by
  have hissued := startRun_issued h
  have hcontent : run.files = d.session.projectFiles ∧ run.content = (run.files.lookup run.file).getD [] := by
    unfold startRun at h
    split at h
    · cases h
    · obtain ⟨hrun, -⟩ := Prod.mk.inj h
      obtain rfl := Option.some.inj hrun
      exact ⟨rfl, rfl⟩
  obtain ⟨t, hdoc, -⟩ := hissued.snapshot
  have hlookup := lookup_projectFiles_of_isOpen hs (isOpen_of_document? hdoc)
  rw [← hcontent.1] at hlookup
  rw [hcontent.2, hlookup]
  exact ⟨rfl, rfl⟩

/-- What was noted of a line that is free is how it reads as long as nobody types. -/
theorem Issued.exists_expected (h : Issued d run d') {s : Session β} (hsteady : Steady d.session s) {e : IdEdit}
    (hfile : e.file = some run.file) (hfree : s.Free run.file e.line) :
    ∃ expected, expectedLine? run e = some expected ∧ s.Reads run.file e.line expected := by
  obtain ⟨t, hdoc, hsnapshot⟩ := h.snapshot
  obtain ⟨t', hdoc', hcarry, -⟩ := hfree
  obtain ⟨expected, hl, -⟩ := Tracker.exists_line_of_canCarry hcarry
  have htext := hsteady.text run.file
  rw [hdoc, hdoc', Option.map_some, Option.map_some, Option.some_inj] at htext
  refine ⟨expected, ?_, t', hdoc', hl⟩
  rw [LineBuffer.line?, show LineBuffer.text t'.buffer = t.text from htext, Text.line?_eq_getElem?] at hl
  rw [expectedLine?, hfile, Option.bind_some, hsnapshot, Option.bind_some]
  exact hl

end

variable {β : Type} [LineBuffer β] [AnchoringBuffer β] {d d' : TagDriver β} {run : Run} {s : Session β} {e : IdEdit}

theorem Issued.alive? (h : Issued d run d') (file : Text) : d'.session.alive? file = d.session.alive? file := by
  rw [h.session_eq, alive?_tidy]

theorem alive?_delivered (d : TagDriver β) (run : Run) (story : Story) (file : Text) :
    (d.delivered run story).session.alive? file = d.session.alive? file := by
  rw [delivered, alive?_deliverAll, alive?_tidy]

/-- What was bound came for a free line, in a buffer that can be used. -/
theorem free_of_mem_deliverAll (hs : s.Sound) {es : List IdEdit} (he : e ∈ (deliverAll run es s).1) :
    e ∈ es ∧ s.Free run.file e.line ∧ s.alive? run.file = some true := by
  obtain ⟨before, after, expected, rfl, -, -, hbound⟩ := exists_applyEdit_of_mem_deliverAll he
  have halive := alive?_of_applyEdit (sound_deliverAll hs run before) hbound
  rw [alive?_deliverAll] at halive
  exact ⟨by simp, (extends_deliverAll hs run before).free (free_of_applyEdit hbound), halive⟩

/-- A line of the run's file that wants a tag is not free after the run has delivered, unless it was reported. -/
theorem Issued.not_free_delivered (h : Issued d run d') (hs : d.session.Sound) (halive : d.session.alive? run.file = some true)
    {library : Library} {story : Story} (hparse : Story.parse library run.file run.content = .ok story) {i : Nat} {l : Text}
    (hl : (lines (dropMarks run.content))[i]? = some l) (hwants : WantsTag l)
    (hreported : ∀ f ∈ (d'.generator.run d'.session.existingIds story.root).1.failures,
      f.place ≠ ⟨some run.file, ((1 + i : Nat) : Int)⟩) :
    ¬(d'.delivered run story).session.Free run.file ((1 + i : Nat) : Int) := by
  intro hfree
  have hsound : d'.session.tidy.Sound := sound_tidy (h.sound hs)
  have halive' : d'.session.tidy.alive? run.file = some true := by rw [alive?_tidy, h.alive?, halive]
  have hsteady : Steady d.session d'.session.tidy := by
    rw [h.session_eq]
    exact (steady_tidy d.session).trans (steady_tidy d.session.tidy)
  obtain ⟨e, he, hplace⟩ | ⟨f, hf, hplace⟩ :=
    answers_of_wantsTag hparse d'.generator d'.session.existingIds hl hwants
  · have hfile : e.file = some run.file := congrArg Place.file hplace
    have hline : e.line = ((1 + i : Nat) : Int) := congrArg Place.line hplace
    rw [← hline] at hfree
    obtain ⟨expected, hexpected, hreads⟩ :=
      h.exists_expected hsteady hfile ((extends_deliverAll hsound run _).free hfree)
    exact not_free_deliverAll hsound run halive' he hfile hexpected hreads hfree
  · exact hreported f hf hplace

end LineTags.TagDriver
