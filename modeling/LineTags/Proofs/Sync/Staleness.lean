import LineTags.Proofs.Sync.Interleaving

/-!
# Stale results are dropped

A run counts as long as its number is the last one given and the phase is that of tagging. Both are written by several operations, by late runs among them. What keeps stale results out is that no step leads back: a step that supersedes either gives a new number or leaves the phase of tagging, and only a new number brings this phase back. So when a run still counts, nothing since its issue superseded it, and what it noted of the lines is what each new identifier is checked against.
-/

namespace LineTags.Interleaving

variable {β : Type} [LineBuffer β] [LawfulBuffer β] {c c' c'' : Interleaving β} {e : Event} {run : Run}
  {after : List Event}

/-- A step gives a new number, or it brings the phase of tagging to an end, or it supersedes nothing. -/
theorem Step.number_or_phase (h : Step c e c') :
    c.driver.issued < c'.driver.issued ∨
      (c'.driver.issued = c.driver.issued ∧
        (c'.driver.phase ≠ .tagging ∨ (c'.driver.phase = c.driver.phase ∧ ¬ e.Supersedes))) := by
  have hsuperseded := c.driver.phase_supersede_ne_tagging
  cases h with
  | notify now => exact .inr ⟨rfl, .inl hsuperseded⟩
  | notifyUnarmed => exact .inr ⟨rfl, .inl hsuperseded⟩
  | close => exact .inl (Nat.lt_succ_self _)
  | scheduleNow => exact .inr ⟨rfl, .inr ⟨rfl, not_false⟩⟩
  | scheduleNowUnarmed => exact .inr ⟨rfl, .inr ⟨rfl, not_false⟩⟩
  | fire due harmed => exact .inr ⟨rfl, .inr ⟨rfl, not_false⟩⟩
  | runNow run d hstart =>
    rw [(TagDriver.startRun_issued hstart).after]
    exact .inl (Nat.lt_succ_self _)
  | runNowInVain d hstart =>
    rw [TagDriver.startRun_none hstart]
    exact .inr ⟨rfl, .inr ⟨rfl, not_false⟩⟩
  | start run d n hscheduled hstart =>
    rw [(TagDriver.startRun_issued hstart).after]
    exact .inl (Nat.lt_succ_self _)
  | startInVain d n hscheduled hstart =>
    rw [TagDriver.startRun_none hstart]
    exact .inr ⟨rfl, .inr ⟨rfl, not_false⟩⟩
  | complete run outcome hrun =>
    dsimp only
    obtain ⟨phase, hphase, h⟩ | ⟨story, -, -, h⟩ := TagDriver.finishRun_cases run outcome c.driver
    · rw [h]
      rcases hphase with rfl | rfl
      · exact .inr ⟨rfl, .inr ⟨rfl, not_false⟩⟩
      · exact .inr ⟨rfl, .inl nofun⟩
    · rw [h]
      exact .inr ⟨rfl, .inl nofun⟩
  | edit file t t' hdoc hedited => exact .inr ⟨rfl, .inr ⟨rfl, not_false⟩⟩
  | activate file hopen => exact .inr ⟨rfl, .inr ⟨rfl, not_false⟩⟩
  | activateUnopened file hopen => exact .inr ⟨rfl, .inr ⟨rfl, not_false⟩⟩
  | openDocument file content? buffer? hbuffer => exact .inr ⟨rfl, .inr ⟨rfl, not_false⟩⟩
  | closeDocument file => exact .inr ⟨rfl, .inr ⟨rfl, not_false⟩⟩

/-- What holds after a run was issued: its number is no later than the last one, and while it is the last one and the phase is that of tagging, nothing has superseded the run. -/
structure Follows (run : Run) (after : List Event) (c : Interleaving β) : Prop where
  token : run.token ≤ c.driver.issued
  unsuperseded : run.token = c.driver.issued → c.driver.phase = .tagging → ∀ e ∈ after, ¬ e.Supersedes

theorem Follows.step (h : Follows run after c) (hstep : Step c e c') : Follows run (after ++ [e]) c' := by
  have htoken := h.token
  rcases hstep.number_or_phase with hlater | ⟨hsame, hphase⟩
  · refine ⟨by omega, fun htoken' => ?_⟩
    omega
  · refine ⟨by omega, fun htoken' htagging => ?_⟩
    rcases hphase with hended | ⟨hkept, he⟩
    · exact absurd htagging hended
    · intro e' he'
      rcases List.mem_append.1 he' with he' | he'
      · exact h.unsuperseded (htoken'.trans hsame) (hkept.symm.trans htagging) e' he'
      · rw [List.mem_singleton.1 he']
        exact he

/-- The state in which a step issues a run: what was noted is how the lines of the active file read. -/
theorem Step.issue (h : Step c (.issued run) c') :
    ∃ d, TagDriver.Issued d run c'.driver ∧ d.session = c.driver.session := by
  cases h with
  | runNow run d hstart => exact ⟨_, TagDriver.startRun_issued hstart, rfl⟩
  | start run d n hscheduled hstart => exact ⟨_, TagDriver.startRun_issued hstart, rfl⟩

theorem Path.follows (hissue : Step c (.issued run) c') (h : Path c' after c'') : Follows run after c'' := by
  induction h with
  | nil =>
    obtain ⟨d, hissued, -⟩ := hissue.issue
    have htoken : run.token = c'.driver.issued := by
      rw [hissued.after]
      exact hissued.token
    exact ⟨Nat.le_of_eq htoken, fun _ _ e he => absurd he List.not_mem_nil⟩
  | snoc _ hstep ih => exact ih.step hstep

/-! ## What a completed run comes to -/

/-- The completion of a run without effect on identifiers: it answers with no edits, or with the failure of compiling, and neither the session nor the last result changes. -/
structure Inert (outcome : Compiled) (answer : Except CompileFailure (List IdEdit)) (c c' : Interleaving β) : Prop where
  answer : answer = TagDriver.emptyAnswer outcome
  session : c'.driver.session = c.driver.session
  lastResult : c'.driver.lastResult = c.driver.lastResult

/-- The completion of a run, issued in the state `c₁`, that binds the identifiers `applied`. Nothing superseded it since then, its file is the active one, and each identifier goes to a line of this file that reads now as it did in `c₁`. The session says of the lines what it said before and the identifiers that were bound. -/
structure Delivers (run : Run) (applied : List IdEdit) (after : List Event) (c₁ c c' : Interleaving β) : Prop where
  current : ∀ e ∈ after, ¬ e.Supersedes
  active : c.driver.session.active = some run.file
  reads : ∀ e ∈ applied, ∃ l,
    c.driver.session.Reads run.file e.line l ∧ c₁.driver.session.Reads run.file e.line l
  associations : ∀ file x, x ∈ c'.driver.session.idsOf file ↔
    x ∈ c.driver.session.idsOf file ∨ (file = run.file ∧ ∃ e ∈ applied, x = ⟨e.line, e.identifier⟩)

variable {c₀ c₁ c₂ : Interleaving β} {outcome : Compiled} {answer : Except CompileFailure (List IdEdit)}

theorem inert_or_delivers_of_issue (hissue : Step c₁ (.issued run) c₂) (hafter : Path c₂ after c)
    (hs : c.driver.session.Sound) (h : Step c (.completed run outcome answer) c') :
    Inert outcome answer c c' ∨
      ∃ story applied, outcome = .story story ∧ answer = .ok applied ∧ Delivers run applied after c₁ c c' := by
  cases h with
  | complete run outcome hrun =>
    obtain ⟨phase, -, h⟩ | ⟨story, rfl, hcurrent, h⟩ := TagDriver.finishRun_cases run outcome c.driver
    · refine .inl ?_
      rw [h]
      exact ⟨rfl, rfl, rfl⟩
    · obtain ⟨htoken, hphase, hactive⟩ := TagDriver.isCurrent_iff.1 hcurrent
      obtain ⟨d, hissued, hsession⟩ := hissue.issue
      refine .inr ⟨story, _, rfl, by rw [h], (hafter.follows hissue).unsuperseded htoken hphase, hactive, ?_, ?_⟩
      · intro e he
        obtain ⟨hfile, l, hnoted, hreads⟩ := TagDriver.reads_of_mem_deliverAll he
        refine ⟨l, ((Session.steady_tidy _).reads_iff _ _ _).1 hreads, ?_⟩
        rw [← hsession]
        exact hissued.reads hfile hnoted
      · intro file x
        rw [h]
        exact TagDriver.mem_idsOf_delivered hs run story file x

/-- In every interleaving, a run that has come to its end was issued at some point before. Either its completion has no effect on identifiers, or since its issue there was no other issue, no notice of an edit and no close, its file is the active one, and each identifier it binds goes to a line of this file that reads as it did at the issue. -/
theorem completed_inert_or_delivers {es : List Event} (hinit : c₀.Initial) (hpath : Path c₀ es c)
    (hstep : Step c (.completed run outcome answer) c') :
    ∃ before after c₁ c₂, es = before ++ .issued run :: after ∧ Path c₀ before c₁ ∧ Step c₁ (.issued run) c₂ ∧
      Path c₂ after c ∧
      (Inert outcome answer c c' ∨
        ∃ story applied, outcome = .story story ∧ answer = .ok applied ∧ Delivers run applied after c₁ c c') := by
  have hrun : run ∈ c.inFlight := by
    cases hstep with
    | complete run outcome hrun => exact hrun
  obtain ⟨before, after, c₁, c₂, hes, hbefore, hissue, hafter⟩ := hpath.exists_issue hinit.inFlight hrun
  have hs : c.driver.session.Sound := hpath.sound hinit.session.sound
  exact ⟨before, after, c₁, c₂, hes, hbefore, hissue, hafter, inert_or_delivers_of_issue hissue hafter hs hstep⟩

/-- A run for one line, whose compiling ends before anything else happens, binds an identifier to it. -/
theorem completed_inert_or_delivers_oneRun : ∃ c c', oneLine.Initial ∧ Path oneLine [.issued oneRun] c ∧
    Step c (.completed oneRun oneText (.ok [oneEdit])) c' ∧
    ∃ before after c₁ c₂, [.issued oneRun] = before ++ .issued oneRun :: after ∧ Path oneLine before c₁ ∧
      Step c₁ (.issued oneRun) c₂ ∧ Path c₂ after c ∧
      (Inert oneText (.ok [oneEdit]) c c' ∨
        ∃ story applied, oneText = .story story ∧ .ok [oneEdit] = (.ok applied : Except CompileFailure (List IdEdit)) ∧
          Delivers oneRun applied after c₁ c c') :=
  ⟨_, _, initial_oneLine, issued_oneRun, completed_oneRun,
    completed_inert_or_delivers initial_oneLine issued_oneRun completed_oneRun⟩

end LineTags.Interleaving
