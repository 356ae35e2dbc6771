import LineTags.Proofs.Sync.Footprint

/-!
# Identifiers that were answered and are not saved

A run answers the edits that it bound, and the user is told of them. What is saved of such a line has the tag if the line shows no managed tag. But a line that shows one, to which the run mints an identifier all the same, takes no further tag: the identifier is bound and answered, and whatever is saved has the old tag instead, unless both are the same.

A run mints for lines on which reading the story finds no identifier. An interpolation is not read for tags, so a line can come to show one there by typing.
-/

namespace LineTags

open Text

/-- The tag that a line with code shows when it is saved with an identifier. -/
theorem codeTag?_saved_iff {line identifier : Text} (hcode : hasNoCode line = false) (hword : IsWord identifier) :
    (codeTag? (if takesTag line then insertTag line identifier else line)).map TagMatch.identifier = some identifier ↔
      isIdentifier identifier ∧ ∀ m ∈ codeTag? line, m.identifier = identifier := by
  cases htag : codeTag? line with
  | none =>
    obtain ⟨m, hm, hsame, -⟩ := findTags_codeOf_insertTag_of_isWord hcode htag hword
    rw [if_pos (takesTag_iff.2 ⟨htag, hcode⟩), codeTag?, firstTag?, hm]
    by_cases hid : isIdentifier identifier
    · rw [if_pos hid, List.head?_cons, Option.map_some, hsame]
      exact iff_of_true rfl ⟨hid, fun _ hmem => absurd hmem (Option.not_mem_none _)⟩
    · rw [if_neg hid]
      exact iff_of_false (fun h => Option.some_ne_none identifier h.symm) fun h => hid h.1
  | some m =>
    have hnot : ¬takesTag line := fun htakes => Option.some_ne_none m (htag.symm.trans (takesTag_iff.1 htakes).1)
    rw [if_neg hnot, htag, Option.map_some, Option.some.injEq]
    constructor
    · rintro rfl
      refine ⟨isIdentifier_of_codeTag? htag, fun n hn => ?_⟩
      rw [Option.some.inj hn]
    · exact fun h => h.2 m rfl

/-- A session whose anchors carry words has words on all its lines, as no tag is anything else. -/
theorem Session.Orderly.isWord {β : Type} [LineBuffer β] [LawfulBuffer β] {s : Session β} (hs : s.Orderly) {file : Text} {a : LineId}
    (ha : a ∈ s.idsOf file) : IsWord a.identifier := by
  cases hdoc : s.document? file with
  | some t => exact hs.words.isWord hdoc (idsOf_of_document? hdoc ▸ ha)
  | none =>
    rw [idsOf, hdoc] at ha
    exact isWord_of_isIdentifier (isIdentifier_of_mem_ids_extract ha)

namespace Interleaving

open TagDriver Session

variable {β : Type} [LineBuffer β] [LawfulBuffer β] {c c' : Interleaving β} {run : Run} {outcome : Compiled}
  {applied : List IdEdit} {e : IdEdit}

/-- A run with an answer that is not empty was current, had a story, and delivered it. -/
theorem Step.delivered_of_mem (h : Step c (.completed run outcome (.ok applied)) c') (he : e ∈ applied) :
    ∃ story, outcome = .story story ∧ c.driver.isCurrent run = true ∧ c'.driver = c.driver.delivered run story ∧
      applied = (deliverAll run (c.driver.generator.run c.driver.session.existingIds story.root).1.edits
        c.driver.session.tidy).1 := by
  generalize hevent : Event.completed run outcome (.ok applied) = event at h
  cases h with
  | complete run' outcome' hrun =>
    obtain ⟨rfl, rfl, hanswer⟩ := Event.completed.inj hevent
    obtain ⟨phase, -, h⟩ | ⟨story, rfl, hcurrent, h⟩ := finishRun_cases run outcome c.driver
    · rw [h] at hanswer
      cases outcome <;> cases hanswer <;> cases he
    · rw [h] at hanswer
      exact ⟨story, rfl, hcurrent, by rw [h], Except.ok.inj hanswer⟩
  | _ => cases hevent

/-- What is saved, right after a run, of the line of an edit that the run answers. The identifier is found there exactly if the line showed no tag before, or one of the same identifier, and if it is an identifier at all, as those of a generator of codes of the usual length are. -/
theorem Attained.detects_answered_iff (h : Attained c) (hstep : Step c (.completed run outcome (.ok applied)) c')
    (hnames : outcome.ValidNames) (he : e ∈ applied) :
    e.file = some run.file ∧ ∃ shown saved, c.driver.session.Reads run.file e.line shown ∧
      (c'.driver.session.fullContent run.file).line? e.line = some saved ∧
      saved = (if (codeTag? shown).isNone then insertTag shown e.identifier else shown) ∧
      ((codeTag? saved).map TagMatch.identifier = some e.identifier ↔
        isIdentifier e.identifier ∧ ∀ m ∈ codeTag? shown, m.identifier = e.identifier) ∧
      (c.driver.generator.length = codeLength → isIdentifier e.identifier) := by
  have horderly' : c'.driver.session.Orderly := (Attained.step h hstep hnames).orderly
  obtain ⟨story, rfl, hcurrent, hdriver, rfl⟩ := hstep.delivered_of_mem he
  rw [hdriver] at horderly' ⊢
  have hsound := h.orderly.sound
  have honly := onlyTags_delivered hsound hcurrent story
  obtain ⟨i, shown, hline, hreads, hcode, -, hsaved⟩ := honly.there e he
  obtain ⟨hmem, hfile, -⟩ := free_of_mem_answer (sound_tidy hsound) he
  have hword : IsWord e.identifier := Generator.isWord_of_mem_run hnames hmem
  refine ⟨hfile, shown, _, hreads, ?_, ?_, codeTag?_saved_iff hcode hword, fun hlength => ?_⟩
  · have hindex : e.line.toNat - 1 = i := by omega
    rw [line?_eq_getElem?, if_neg (by omega), hindex, (honly.lines fun a ha => horderly'.isWord ha).2]
    exact hsaved
  · rw [takesTag, hcode, Bool.not_false, Bool.and_true]
  · exact Generator.isIdentifier_of_mem_run hlength hnames hmem

/-! ## A tag in an interpolation -/

/-- The first run for a file of one line that carries nothing. -/
def lineRun (line : Text) : Run where
  token := 1
  file := "a.ink".toList
  content := line
  files := [("a.ink".toList, line)]
  snapshot := [("a.ink".toList, [line])]

def compiledLine (line : Text) : Compiled := .ofParse (Story.parse {} "a.ink".toList line)

/-- The driver when the run is in flight. -/
def issuing (c : Interleaving MemoryBuffer) (run : Run) : Interleaving MemoryBuffer :=
  { c with driver := c.driver.stopTimer.startRun.2, inFlight := run :: c.inFlight }

theorem attained_issuing {c : Interleaving MemoryBuffer} (h : Attained c) {run : Run}
    (hrun : c.driver.stopTimer.startRun.1 = some run) : Attained (issuing c run) :=
  .step h (.runNow run _ (Prod.ext hrun rfl)) trivial

/-- The driver when the run has ended. -/
def ending (c : Interleaving MemoryBuffer) (run : Run) (outcome : Compiled) : Interleaving MemoryBuffer :=
  { issuing c run with
    driver := ((issuing c run).driver.finishRun run outcome).2
    inFlight := (issuing c run).inFlight.erase run }

theorem step_ending (c : Interleaving MemoryBuffer) {run : Run} {outcome : Compiled} {applied : List IdEdit}
    (hanswer : ((issuing c run).driver.finishRun run outcome).1 = .ok applied) :
    Step (issuing c run) (.completed run outcome (.ok applied)) (ending c run outcome) := by
  rw [← hanswer]
  exact .complete run outcome List.mem_cons_self

/-- The tag in the comment does not count, and the one of the run goes before it. -/
theorem detects_answered_iff_commented :
    let line := "x // #id:AAAA".toList
    let c := issuing (opening [("a.ink".toList, line)] [1]) (lineRun line)
    let c' := ending (opening [("a.ink".toList, line)] [1]) (lineRun line) (compiledLine line)
    let e : IdEdit := ⟨some "a.ink".toList, 1, ['x'], "BBBB".toList⟩
    Attained c ∧ Step c (.completed (lineRun line) (compiledLine line) (.ok [e])) c' ∧ (compiledLine line).ValidNames ∧
    c'.driver.session.fullContent "a.ink".toList = "x #id:BBBB // #id:AAAA".toList ∧
    e.file = some (lineRun line).file ∧ ∃ shown saved, c.driver.session.Reads (lineRun line).file e.line shown ∧
      (c'.driver.session.fullContent (lineRun line).file).line? e.line = some saved ∧
      saved = (if (codeTag? shown).isNone then insertTag shown e.identifier else shown) ∧
      ((codeTag? saved).map TagMatch.identifier = some e.identifier ↔
        isIdentifier e.identifier ∧ ∀ m ∈ codeTag? shown, m.identifier = e.identifier) ∧
      (c.driver.generator.length = codeLength → isIdentifier e.identifier) := by
  intro line c c' e
  have hattained : Attained c := attained_issuing (attained_opening _ _) (by decide +kernel)
  have hstep : Step c (.completed (lineRun line) (compiledLine line) (.ok [e])) c' := step_ending _ (by decide +kernel)
  have hnames : (compiledLine line).ValidNames := Compiled.validNames_ofParse _ _ _
  exact ⟨hattained, hstep, hnames, by decide +kernel, hattained.detects_answered_iff hstep hnames List.mem_cons_self⟩

/-- What was typed, if the file was opened with one letter. -/
def interpolatedTracker : Tracker MemoryBuffer where
  buffer := { text := "x \x7b#id:AAAA\x7d".toList }
  file := some "a.ink".toList

/-- A driver with a file in which an interpolation with a tag was typed. -/
def interpolated : Interleaving MemoryBuffer :=
  let c := opening [("a.ink".toList, ['x'])] [1]
  c.withSession (c.driver.session.putDocument "a.ink".toList interpolatedTracker)

theorem attained_interpolated : Attained interpolated := by
  let t : Tracker MemoryBuffer := { buffer := { text := ['x'] }, file := some "a.ink".toList }
  have htyped : t.edit (LineBuffer.insert 1 1 " \x7b#id:AAAA\x7d".toList) = .ok interpolatedTracker := rfl
  exact .step (attained_opening [("a.ink".toList, ['x'])] [1]) (.edit "a.ink".toList t interpolatedTracker rfl (.insert htyped)) trivial

/-- The run answers that `BBBB` was bound, but the line is saved as it was typed. -/
theorem not_detected_interpolated :
    let line := "x \x7b#id:AAAA\x7d".toList
    let c := issuing interpolated (lineRun line)
    let c' := ending interpolated (lineRun line) (compiledLine line)
    let e : IdEdit := ⟨some "a.ink".toList, 1, ['x'], "BBBB".toList⟩
    Attained c ∧ Step c (.completed (lineRun line) (compiledLine line) (.ok [e])) c' ∧ (compiledLine line).ValidNames ∧
    (c'.driver.session.fullContent "a.ink".toList).line? e.line = some line ∧
    (codeTag? line).map TagMatch.identifier ≠ some e.identifier := by
  intro line c c' e
  exact ⟨attained_issuing attained_interpolated (by decide +kernel), step_ending interpolated (by decide +kernel),
    Compiled.validNames_ofParse _ _ _, by decide +kernel, by decide +kernel⟩

end Interleaving

end LineTags
