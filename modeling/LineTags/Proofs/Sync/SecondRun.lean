import LineTags.Proofs.Minting.WantingBefore
import LineTags.Proofs.Script.Growing
import LineTags.Proofs.Story.Unreadable
import LineTags.Proofs.Sync.Interleaving
import LineTags.Proofs.Sync.Wanting
import LineTags.Sync.Schedule

/-!
# A second run has nothing to do

A run that reported no line has left no free line that wanted a tag when it was issued. The second run compiles what the file would be saved as then: the lines of before, of which some got a word more. A line with a word more wants no tag that it did not want before, whether or not its story is read as before, so each line the second run draws an identifier for wanted one at the issue of the first, and is not free. Nothing is bound, and the session says of every line what it said.
-/

namespace LineTags

open Text LineBuffer

/-- A run that is compiled by parsing its content among its files. -/
def Run.parsed (run : Run) : Compiled := Compiled.ofParse (Story.parse { files := run.files } run.file run.content)

theorem Run.parsed_ne_failed (run : Run) (e : CompileFailure) : run.parsed ≠ .failed e := by
  unfold Run.parsed Compiled.ofParse
  split
  · exact nofun
  · exact nofun
  · next e hparse => exact absurd hparse (parse_ne_unreadable _ _ _ e)

namespace Session

variable {β : Type} [LineBuffer β] {s s' : Session β} {file : Text}

/-- What an open file shows: its text and the identifiers of its lines. -/
def shown (s : Session β) (file : Text) : Option (Text × List LineId) :=
  (s.document? file).map fun t => (t.text, t.associations)

theorem shown_eq_of_extends (hextends : s.Extends s') (hnew : ∀ x ∈ s'.idsOf file, x ∈ s.idsOf file) :
    s'.shown file = s.shown file := by
  have htext := hextends.text file
  have hkept := hextends.ids file
  unfold shown
  cases hdoc : s.document? file with
  | none =>
    rw [hdoc] at htext
    rw [Option.map_eq_none_iff.1 htext]
  | some t =>
    rw [hdoc] at htext
    obtain ⟨t', hdoc', htext⟩ := Option.map_eq_some_iff.1 htext
    rw [idsOf_of_document? hdoc, idsOf_of_document? hdoc'] at hkept hnew
    have hids : t'.associations = t.associations := Tracker.associations_eq_of_mem_iff fun x => ⟨hnew x, hkept x⟩
    rw [hdoc', Option.map_some, Option.map_some, htext, hids]

/-- A line that wants a tag as it would be saved now wanted one as it would have been saved before words were added. -/
theorem exists_wanting_before (hextends : s.Extends s') (hopen : s.isOpen file = true)
    (hnew : ∀ x ∈ s'.idsOf file, x ∈ s.idsOf file ∨ IsWord x.identifier) {library : Library} {story : Story}
    (hparse : Story.parse library file (s.fullContent file) = .ok story) {i : Nat} {l : Text}
    (hl : (lines (dropMarks (s'.fullContent file)))[i]? = some l) (hwants : WantsTag l) :
    ∃ l₀, (lines (dropMarks (s.fullContent file)))[i]? = some l₀ ∧ WantsTag l₀ := by
  obtain ⟨t, hdoc⟩ := Option.isSome_iff_exists.1 hopen
  have htext := hextends.text file
  have hkept := hextends.ids file
  rw [hdoc] at htext
  obtain ⟨t', hdoc', htext⟩ := Option.map_eq_some_iff.1 htext
  rw [idsOf_of_document? hdoc, idsOf_of_document? hdoc'] at hkept hnew
  have hgained : List.Forall₂ MayGain (lines t.fullContent) (lines t'.fullContent) := by
    rw [Tracker.fullContent, Tracker.fullContent, htext]
    exact forall₂_lines_reconstruct t.text t'.nodup_line_associations hkept hnew
  rw [fullContent, hdoc] at hparse ⊢
  rw [fullContent, hdoc'] at hl
  obtain ⟨line', hline', rfl⟩ := getElem?_lines_dropMarks.1 hl
  obtain ⟨line, hline, hgain⟩ := exists_getElem?_of_forall₂ hgained hline'
  refine ⟨readAs i line, getElem?_lines_dropMarks.2 ⟨line, hline, rfl⟩, ?_⟩
  rcases hgain with rfl | ⟨word, hword, hcode, rfl⟩
  · exact hwants
  · exact wantsTag_of_insertTag hword hcode (isReadable_of_parse hparse hline) hwants

/-- No line of a file that wants a tag, as the file would be saved, can take one. -/
def Served (s : Session β) (file : Text) : Prop :=
  ∀ i l, (lines (dropMarks (s.fullContent file)))[i]? = some l → WantsTag l → s.alive? file = some true →
    ¬s.Free file ((1 + i : Nat) : Int)

end Session

namespace TagDriver

open Session

variable {β : Type} [LineBuffer β] [AnchoringBuffer β] {d d' : TagDriver β} {run : Run} {story : Story}

/-- A run that reported no line leaves its file served. -/
theorem served_delivered (h : d.startRun = (some run, d')) (hs : d.session.Sound) (hnamed : d.session.WellNamed)
    {library : Library} (hparse : Story.parse library run.file run.content = .ok story)
    (hfailures : (d'.generator.run d'.session.existingIds story.root).1.failures = []) :
    (d'.delivered run story).session.Served run.file := by
  intro i l hl hwants halive
  have hissued := startRun_issued h
  have hsound := hissued.sound hs
  have hextends := (hissued.extends hs).trans (extends_delivered hsound run story)
  have hcontent := (content_of_startRun h hnamed).2
  rw [alive?_delivered, hissued.alive?] at halive
  -- what came to the file was drawn for the story, so it is words
  have hnew : ∀ x ∈ (d'.delivered run story).session.idsOf run.file,
      x ∈ d.session.idsOf run.file ∨ IsWord x.identifier := by
    intro x hx
    rcases (mem_idsOf_delivered hsound run story run.file x).1 hx with hx | ⟨-, e, he, rfl⟩
    · exact .inl ((hissued.mem_idsOf hs run.file x).1 hx)
    · have hmem := (free_of_mem_deliverAll (sound_tidy hsound) he).1
      exact .inr (Generator.isWord_of_mem_run (isContainerName_of_parse hparse) hmem)
  obtain ⟨t, hdoc, -⟩ := hissued.snapshot
  obtain ⟨l₀, hl₀, hwants₀⟩ :=
    exists_wanting_before hextends (isOpen_of_document? hdoc) hnew (hcontent ▸ hparse) hl hwants
  rw [← hcontent] at hl₀
  apply hissued.not_free_delivered hs halive hparse hl₀ hwants₀
  simp [hfailures]

/-- A run for a file that is served binds nothing. -/
theorem deliverAll_eq_nil_of_served (h : d.startRun = (some run, d')) (hs : d.session.Sound) (hnamed : d.session.WellNamed)
    (hserved : d.session.Served run.file) {library : Library} (hlibrary : library.files = run.files)
    (hparse : Story.parse library run.file run.content = .ok story) :
    (deliverAll run (d'.generator.run d'.session.existingIds story.root).1.edits d'.session.tidy).1 = [] := by
  have hissued := startRun_issued h
  have hsound := hissued.sound hs
  have hextends := (hissued.extends hs).trans (extends_tidy hsound)
  obtain ⟨hlookup, hcontent⟩ := content_of_startRun h hnamed
  have hfind : library.find? run.file = some (.ok run.content) := Library.find?_of_lookup (hlibrary ▸ hlookup)
  rw [List.eq_nil_iff_forall_not_mem]
  intro e he
  obtain ⟨hmem, hfree, halive⟩ := free_of_mem_deliverAll (sound_tidy hsound) he
  obtain ⟨file, content, i, l, hfind', hl, hplace, hwants⟩ := exists_wanting_of_mem_run hfind hparse hmem
  obtain rfl : run.file = file :=
    Option.some.inj ((reads_of_mem_deliverAll he).1.symm.trans (congrArg Place.file hplace))
  obtain rfl := Except.ok.inj (Option.some.inj (hfind.symm.trans hfind'))
  rw [alive?_tidy, hissued.alive?] at halive
  rw [show e.line = ((1 + i : Nat) : Int) from congrArg Place.line hplace] at hfree
  exact hserved i l (hcontent ▸ hl) hwants halive (hextends.free hfree)

/-- Such a run changes nothing that the session shows. -/
theorem finishRun_of_served (h : d.startRun = (some run, d')) (hs : d.session.Sound) (hnamed : d.session.WellNamed)
    (hserved : d.session.Served run.file) : (d'.finishRun run run.parsed).1 = .ok [] ∧
      ∀ file, (d'.finishRun run run.parsed).2.session.shown file = d.session.shown file := by
  have hissued := startRun_issued h
  have hsound := hissued.sound hs
  obtain ⟨phase, -, hfinish⟩ | ⟨story, hstory, -, hfinish⟩ := finishRun_cases run run.parsed d'
  · rw [hfinish]
    refine ⟨?_, fun file => shown_eq_of_extends (hissued.extends hs) fun x hx => (hissued.mem_idsOf hs file x).1 hx⟩
    cases hcompiled : run.parsed with
    | story story => rfl
    | nothing => rfl
    | failed e => exact absurd hcompiled (run.parsed_ne_failed e)
  · have hnothing := deliverAll_eq_nil_of_served h hs hnamed hserved rfl (Compiled.eq_ok_of_ofParse hstory)
    rw [hfinish, hnothing]
    refine ⟨rfl, fun file => ?_⟩
    apply shown_eq_of_extends ((hissued.extends hs).trans (extends_delivered hsound run story))
    intro x hx
    rcases (mem_idsOf_delivered hsound run story file x).1 hx with hx | ⟨-, e, he, -⟩
    · exact (hissued.mem_idsOf hs file x).1 hx
    · simp [hnothing] at he

omit [AnchoringBuffer β] in
/-- A run that was issued and has a result counts and has a story. -/
theorem exists_delivered_of_lastResult (h : d.startRun = (some run, d')) {outcome : Compiled} {result : Generation}
    (hresult : (d'.finishRun run outcome).2.lastResult = some result) :
    ∃ story, outcome = .story story ∧ result = (d'.generator.run d'.session.existingIds story.root).1 ∧
      (d'.finishRun run outcome).2 = d'.delivered run story := by
  obtain ⟨phase, -, hfinish⟩ | ⟨story, hstory, -, hfinish⟩ := finishRun_cases run outcome d'
  · rw [hfinish, (startRun_issued h).after] at hresult
    cases hresult
  · rw [hfinish] at hresult ⊢
    exact ⟨story, hstory, (Option.some.inj hresult).symm, rfl⟩

omit [AnchoringBuffer β] in
theorem steady_finishRun [LawfulBuffer β] (d : TagDriver β) (run : Run) (outcome : Compiled) :
    Steady d.session (d.finishRun run outcome).2.session := by
  obtain ⟨phase, -, hfinish⟩ | ⟨story, -, -, hfinish⟩ := finishRun_cases run outcome d
  · rw [hfinish]
    exact .refl _
  · rw [hfinish]
    exact steady_delivered d run story

/-- The run after one that came to a result without failures binds nothing and changes nothing that the session shows. -/
theorem finishRun_again (h : d.startRun = (some run, d')) (hs : d.session.Sound) (hnamed : d.session.WellNamed)
    {result : Generation} (hresult : (d'.finishRun run run.parsed).2.lastResult = some result)
    (hfailures : result.failures = []) {d₁ d₂ : TagDriver β} {again : Run}
    (hsession : d₁.session = (d'.finishRun run run.parsed).2.session) (hagain : d₁.startRun = (some again, d₂)) :
    (d₂.finishRun again again.parsed).1 = .ok [] ∧
      ∀ file, (d₂.finishRun again again.parsed).2.session.shown file = d₁.session.shown file := by
  obtain ⟨story, hstory, rfl, hdelivered⟩ := exists_delivered_of_lastResult h hresult
  rw [hdelivered] at hsession
  have hissued := startRun_issued h
  have hsound := hissued.sound hs
  have hextends := (hissued.extends hs).trans (extends_delivered hsound run story)
  have hserved := served_delivered h hs hnamed (Compiled.eq_ok_of_ofParse hstory) hfailures
  have hnamed' := hnamed.of_names_eq hextends.names fun _ hname => hextends.files ▸ hname
  have hactive := hissued.steady.active.trans hissued.active
  rw [← (steady_delivered d' run story).active, ← hsession] at hactive
  rw [← hsession] at hserved hnamed'
  have hfile : run.file = again.file := Option.some.inj (hactive.symm.trans (startRun_issued hagain).active)
  exact finishRun_of_served hagain (hsession ▸ sound_delivered hsound run story) hnamed' (hfile ▸ hserved)

end TagDriver

/-- What is logged when a caller's run ends. -/
def SyncEvent.ofAnswer (number : Nat) : Except CompileFailure (List IdEdit) → List SyncEvent
  | .ok (e :: es) => [.applied (e :: es), .answered number (.ok (e :: es))]
  | result => [.answered number result]

namespace Schedule

open TagDriver Session

variable {β : Type} [LineBuffer β] {s : Schedule β}

theorem finish_caller (s : Schedule β) (run : Run) (number : Nat) (outcome : Compiled) :
    s.finish ⟨run, .caller number⟩ outcome =
      { s with
        driver := (s.driver.finishRun run outcome).2
        events := s.events ++ SyncEvent.ofAnswer number (s.driver.finishRun run outcome).1 } := by
  unfold finish
  obtain ⟨result, driver⟩ := s.driver.finishRun run outcome
  cases result with
  | error e => rfl
  | ok es =>
    cases es with
    | nil => rfl
    | cons e es => simp [report, log, SyncEvent.ofAnswer]

/-- A caller's run that is not held is issued, compiled and ended at once. -/
theorem runNow_of_startRun {run : Run} {d : TagDriver β} (h : s.driver.stopTimer.startRun = (some run, d))
    (hholding : s.holding = false) : s.runNow.2 =
      { s with
        driver := (d.finishRun run (s.compile run)).2
        callers := s.callers + 1
        events := s.events ++ .compiling run.file run.content (Keyed.names run.files) ::
          SyncEvent.ofAnswer (s.callers + 1) (d.finishRun run (s.compile run)).1 } := by
  unfold runNow start
  dsimp only
  rw [h]
  refine (if_neg (Bool.eq_false_iff.1 hholding)).trans ?_
  rw [finish_caller]
  simp [log]

theorem lastResult_runNow_of_holding {run : Run} {d : TagDriver β} (h : s.driver.stopTimer.startRun = (some run, d))
    (hholding : s.holding = true) : s.runNow.2.driver.lastResult = none := by
  have hnone : d.lastResult = none := by rw [(startRun_issued h).after]
  simp [runNow, start, h, log, hholding, hnone]

/-- A second run has nothing to do. Whatever the session and the source of codes are, when a caller's run for an open file has come to a result without failures, a caller's run right after it answers that nothing was bound, and all that the session shows stays as it is. -/
theorem runNow_again [AnchoringBuffer β] (hs : s.driver.session.Reachable) (hcompile : s.compile = Run.parsed)
    (hactive : s.driver.session.activeDocument?.isSome = true) {result : Generation}
    (hresult : s.runNow.2.driver.lastResult = some result) (hfailures : result.failures = []) :
    (∃ file content files, s.runNow.2.runNow.2.events =
      s.runNow.2.events ++ [.compiling file content files, .answered s.runNow.2.runNow.1 (.ok [])]) ∧
    ∀ file, s.runNow.2.runNow.2.driver.session.shown file = s.runNow.2.driver.session.shown file := by
  obtain ⟨run, d, hstart⟩ := exists_startRun (d := s.driver.stopTimer) hactive
  have hholding : s.holding = false := by
    by_contra hholding
    rw [lastResult_runNow_of_holding hstart (Bool.of_not_eq_false hholding)] at hresult
    cases hresult
  have hfirst := runNow_of_startRun hstart hholding
  rw [hcompile] at hfirst
  generalize s.runNow.2 = s₁ at hresult hfirst ⊢
  have hdriver : s₁.driver = (d.finishRun run run.parsed).2 := by rw [hfirst]
  have hparsed : s₁.compile = Run.parsed := by rw [hfirst]
  have hsession : s₁.driver.stopTimer.session = (d.finishRun run run.parsed).2.session := by
    rw [← hdriver]
    rfl
  have hsteady : Steady s.driver.session s₁.driver.stopTimer.session := by
    rw [hsession]
    exact (startRun_issued hstart).steady.trans (steady_finishRun d run run.parsed)
  obtain ⟨again, d₁, hagain⟩ := exists_startRun (d := s₁.driver.stopTimer) (hsteady.activeDocument? hactive)
  rw [hdriver] at hresult
  obtain ⟨hanswer, hshown⟩ := finishRun_again hstart hs.sound hs.wellNamed hresult hfailures hsession hagain
  rw [runNow_of_startRun hagain (by rw [hfirst, hholding]), hparsed]
  refine ⟨⟨again.file, again.content, Keyed.names again.files, ?_⟩, hshown⟩
  rw [hanswer]
  rfl

/-- The first run for a file with one line binds an identifier to it. -/
theorem runNow_again_oneLine :
    let s : Schedule MemoryBuffer := { driver := Interleaving.oneLine.driver, compile := Run.parsed }
    s.driver.session.Reachable ∧ s.driver.session.activeDocument?.isSome = true ∧
      s.runNow.2.driver.session.shown ['a'] = some (['x'], [⟨1, ['A', 'A', 'A', 'A']⟩]) ∧
      (∃ result, s.runNow.2.driver.lastResult = some result ∧ result.failures = []) ∧
      (∃ file content files, s.runNow.2.runNow.2.events =
        s.runNow.2.events ++ [.compiling file content files, .answered s.runNow.2.runNow.1 (.ok [])]) ∧
      ∀ file, s.runNow.2.runNow.2.driver.session.shown file = s.runNow.2.driver.session.shown file := by
  intro s
  have hactive : s.driver.session.activeDocument?.isSome = true := by decide +kernel
  have hsome : s.runNow.2.driver.lastResult.isSome = true := by decide +kernel
  obtain ⟨result, hresult⟩ := Option.isSome_iff_exists.1 hsome
  have hnone : (s.runNow.2.driver.lastResult.map Generation.failures).getD [] = [] := by decide +kernel
  have hfailures : result.failures = [] := by
    rw [hresult] at hnone
    exact hnone
  exact ⟨Interleaving.reachable_oneLine, hactive, by decide +kernel, ⟨result, hresult, hfailures⟩,
    runNow_again Interleaving.reachable_oneLine rfl hactive hresult hfailures⟩

end Schedule

end LineTags
