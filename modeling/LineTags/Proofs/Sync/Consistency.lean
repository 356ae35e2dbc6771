import LineTags.Proofs.Sync.History

/-!
# What the numbers, the phase and the timer of a driver say

The driver keeps no list of its runs. It has the newest number, a phase, a timer and the last result, and six operations and four ways for a run to end write them. Together they say as much as is needed of what happened: which run counts, whether it is in flight, which change the timer is for, and which run the last result is from. It rests on numbers: a run that does not hold the newest one has no way to write anything.
-/

namespace LineTags.Interleaving

variable {β : Type} [LineBuffer β] [LawfulBuffer β] {c₀ c c' : Interleaving β} {σ : Signal} {σs : List Signal} {run : Run}

/-! ## Numbers -/

/-- The runs in flight have different numbers, and none is later than the newest. -/
structure Numbered (c : Interleaving β) : Prop where
  distinct : (c.inFlight.map Run.token).Nodup
  bounded : ∀ run ∈ c.inFlight, run.token ≤ c.driver.issued

namespace Numbered

omit [LineBuffer β] [LawfulBuffer β]

/-- Runs may end and numbers may be given. -/
theorem mono (h : c.Numbered) (hruns : c'.inFlight.Sublist c.inFlight) (hissued : c.driver.issued ≤ c'.driver.issued) :
    c'.Numbered where
  distinct := (hruns.map Run.token).nodup h.distinct
  bounded run hrun := Nat.le_trans (h.bounded run (hruns.subset hrun)) hissued

theorem token_ne_of_mem_erase (h : c.Numbered) (hrun : run ∈ c.inFlight) {run' : Run} (hrun' : run' ∈ c.inFlight.erase run) :
    run'.token ≠ run.token := by
  intro htoken
  have hsame : run' = run := List.inj_on_of_nodup_map h.distinct (List.mem_of_mem_erase hrun') hrun htoken
  rw [hsame] at hrun'
  exact h.distinct.of_map.not_mem_erase hrun'

end Numbered

theorem Turn.numbered (h : Turn c σ c') (hc : c.Numbered) : c'.Numbered := by
  cases h.move with
  | closed => exact hc.mono (List.Sublist.refl _) (Nat.le_succ _)
  | issued run s due? n htoken hdue =>
    have hbounded : ∀ run' ∈ c.inFlight, run'.token < run.token := fun run' hrun' => by
      have := hc.bounded run' hrun'
      omega
    constructor
    · refine List.nodup_cons.2 ⟨fun hmem => ?_, hc.distinct⟩
      obtain ⟨run', hrun', htoken'⟩ := List.mem_map.1 hmem
      exact Nat.ne_of_lt (hbounded run' hrun') htoken'
    · intro run' hrun'
      rcases List.mem_cons.1 hrun' with rfl | hrun'
      · exact Nat.le_refl _
      · exact Nat.le_of_lt (hbounded run' hrun')
  | superseded run outcome answer hrun htoken => exact hc.mono List.erase_sublist (Nat.le_refl _)
  | ended run outcome answer phase hrun htoken htagging hphase => exact hc.mono List.erase_sublist (Nat.le_refl _)
  | delivered run story answer hrun hcurrent => exact hc.mono List.erase_sublist (Nat.le_refl _)
  | quiet s hquiet => exact hc.mono (List.Sublist.refl _) (Nat.le_refl _)
  | notified now => exact hc.mono (List.Sublist.refl _) (Nat.le_refl _)
  | notifiedUnheard => exact hc.mono (List.Sublist.refl _) (Nat.le_refl _)
  | scheduled hσ => exact hc.mono (List.Sublist.refl _) (Nat.le_refl _)
  | scheduledUnheard => exact hc.mono (List.Sublist.refl _) (Nat.le_refl _)
  | foundNothing due? n hdue => exact hc.mono (List.Sublist.refl _) (Nat.le_refl _)

theorem History.numbered (hfresh : c₀.Fresh) (h : History c₀ σs c) : c.Numbered := by
  induction h with
  | nil =>
    constructor
    · rw [hfresh.inFlight]
      exact List.nodup_nil
    · rw [hfresh.inFlight]
      exact nofun
  | snoc _ hturn ih => exact hturn.numbered ih

/-- A run in flight that holds the newest number was issued last, and there was no close since then. -/
theorem History.since_issued (hfresh : c₀.Fresh) (h : History c₀ σs c) (hrun : run ∈ c.inFlight)
    (htoken : run.token = c.driver.issued) : Since (· = .heard (.issued run)) Signal.Renews σs := by
  induction h with
  | nil =>
    rw [hfresh.inFlight] at hrun
    cases hrun
  | @snoc σs σ c c' hhistory hturn ih =>
    have hkept (hrun : run ∈ c.inFlight) (htoken : run.token = c.driver.issued) (hrenews : ¬ σ.Renews) :
        Since (· = .heard (.issued run)) Signal.Renews (σs ++ [σ]) :=
      since_snoc.2 (.inr ⟨ih hrun htoken, hrenews⟩)
    have hbounded := (hhistory.numbered hfresh).bounded run
    cases hturn.move with
    | closed =>
      have hbounded := hbounded hrun
      have hclosed : run.token = c.driver.issued + 1 := htoken
      omega
    | issued run' s due? n htoken' hdue =>
      rcases List.mem_cons.1 hrun with rfl | hrun
      · exact since_snoc.2 (.inl rfl)
      · have hbounded := hbounded hrun
        have hnewest : run.token = run'.token := htoken
        omega
    | quiet s hquiet => exact hkept hrun htoken hquiet.calm.1
    | notified now => exact hkept hrun htoken not_false
    | notifiedUnheard => exact hkept hrun htoken not_false
    | scheduled hσ => exact hkept hrun htoken (by rcases hσ with rfl | rfl <;> exact not_false)
    | scheduledUnheard => exact hkept hrun htoken not_false
    | foundNothing due? n hdue => exact hkept hrun htoken not_false
    | superseded run' outcome answer hrun' htoken' => exact hkept (List.mem_of_mem_erase hrun) htoken not_false
    | ended run' outcome answer phase hrun' htoken' htagging hphase =>
      exact hkept (List.mem_of_mem_erase hrun) htoken not_false
    | delivered run' story answer hrun' hcurrent => exact hkept (List.mem_of_mem_erase hrun) htoken not_false

/-! ## The phase -/

/-- The run that holds the newest number is in flight, and no change was noticed and nothing was closed since its issue. -/
def Counts (σs : List Signal) (c : Interleaving β) : Prop :=
  ∃ run ∈ c.inFlight, run.token = c.driver.issued ∧ Since (· = .heard (.issued run)) Signal.Disturbs σs

omit [LineBuffer β] [LawfulBuffer β] in
/-- What leaves the newest number and the run that holds it alone changes nothing about it. -/
theorem counts_snoc (hissued : c'.driver.issued = c.driver.issued)
    (hruns : ∀ run, run.token = c.driver.issued → (run ∈ c'.inFlight ↔ run ∈ c.inFlight)) (hissues : ¬ σ.Issues)
    (hdisturbs : ¬ σ.Disturbs) : Counts (σs ++ [σ]) c' ↔ Counts σs c := by
  unfold Counts
  rw [hissued]
  refine exists_congr fun run => ?_
  have hsince : Since (· = .heard (.issued run)) Signal.Disturbs (σs ++ [σ]) ↔
      Since (· = .heard (.issued run)) Signal.Disturbs σs := by
    refine since_snoc_of_not ?_ hdisturbs
    rintro rfl
    exact hissues trivial
  rw [hsince]
  exact ⟨fun ⟨hrun, htoken, hsince⟩ => ⟨(hruns run htoken).1 hrun, htoken, hsince⟩,
    fun ⟨hrun, htoken, hsince⟩ => ⟨(hruns run htoken).2 hrun, htoken, hsince⟩⟩

omit [LineBuffer β] [LawfulBuffer β] in
theorem not_counts_of_disturbs (hissues : ¬ σ.Issues) (hdisturbs : σ.Disturbs) : ¬ Counts (σs ++ [σ]) c := by
  rintro ⟨run, -, -, hsince⟩
  refine not_since_snoc ?_ hdisturbs hsince
  rintro rfl
  exact hissues trivial

/-- The phase is that of tagging exactly as long as the newest run counts. -/
theorem History.tagging_iff (hfresh : c₀.Fresh) (h : History c₀ σs c) : c.driver.phase = .tagging ↔ Counts σs c := by
  induction h with
  | nil =>
    refine iff_of_false ?_ ?_
    · rw [hfresh.phase]
      exact nofun
    · rintro ⟨run, -, -, hsince⟩
      exact not_since_nil hsince
  | @snoc σs σ c c' hhistory hturn ih =>
    have hnumbered := hhistory.numbered hfresh
    have hsuperseded := c.driver.phase_supersede_ne_tagging
    have hkept (hphase : c'.driver.phase = c.driver.phase) (hissued : c'.driver.issued = c.driver.issued)
        (hruns : ∀ run, run.token = c.driver.issued → (run ∈ c'.inFlight ↔ run ∈ c.inFlight)) (hissues : ¬ σ.Issues)
        (hdisturbs : ¬ σ.Disturbs) : c'.driver.phase = .tagging ↔ Counts (σs ++ [σ]) c' := by
      rw [hphase, counts_snoc hissued hruns hissues hdisturbs]
      exact ih
    -- the newest run has ended, and no other run has its number
    have hended {run : Run} (hrun : run ∈ c.inFlight) (htoken : run.token = c.driver.issued)
        (hissued : c'.driver.issued = c.driver.issued) (hruns : c'.inFlight = c.inFlight.erase run) :
        ¬ Counts (σs ++ [σ]) c' := by
      rintro ⟨run', hrun', htoken', -⟩
      rw [hruns] at hrun'
      exact hnumbered.token_ne_of_mem_erase hrun hrun' (by rw [htoken', hissued, htoken])
    cases hturn.move with
    | quiet s hquiet =>
      have hissues : ¬ σ.Issues := fun hissues => hquiet.calm.1 hissues.renews
      exact hkept rfl rfl (fun _ _ => Iff.rfl) hissues hquiet.calm.2.1
    | notified now => exact iff_of_false hsuperseded (not_counts_of_disturbs not_false trivial)
    | notifiedUnheard => exact iff_of_false hsuperseded (not_counts_of_disturbs not_false trivial)
    | closed => exact iff_of_false nofun (not_counts_of_disturbs not_false trivial)
    | scheduled hσ =>
      rcases hσ with rfl | rfl
      · exact hkept rfl rfl (fun _ _ => Iff.rfl) not_false not_false
      · exact hkept rfl rfl (fun _ _ => Iff.rfl) not_false not_false
    | scheduledUnheard => exact hkept rfl rfl (fun _ _ => Iff.rfl) not_false not_false
    | issued run s due? n htoken hdue =>
      exact iff_of_true rfl ⟨run, List.mem_cons_self, rfl, since_snoc.2 (.inl rfl)⟩
    | foundNothing due? n hdue => exact hkept rfl rfl (fun _ _ => Iff.rfl) not_false not_false
    | superseded run outcome answer hrun htoken =>
      refine hkept rfl rfl (fun run' htoken' => ?_) not_false not_false
      refine List.mem_erase_of_ne ?_
      rintro rfl
      exact htoken htoken'
    | ended run outcome answer phase hrun htoken htagging hphase =>
      exact iff_of_false htagging (hended hrun htoken rfl rfl)
    | delivered run story answer hrun hcurrent =>
      exact iff_of_false nofun (hended hrun (TagDriver.isCurrent_iff.1 hcurrent).1 rfl rfl)

/-! ## The timer -/

/-- A timer that is armed was armed by the last notice of a change, and nothing has stopped it since then. -/
theorem History.since_notified (hfresh : c₀.Fresh) (h : History c₀ σs c) (harmed : c.driver.timer ≠ none) :
    Since (· = .heard .notified) Signal.StopsTimer σs := by
  induction h with
  | nil => exact absurd hfresh.timer harmed
  | @snoc σs σ c c' _ hturn ih =>
    have hkept (harmed : c.driver.timer ≠ none) (hstops : ¬ σ.StopsTimer) :
        Since (· = .heard .notified) Signal.StopsTimer (σs ++ [σ]) := since_snoc.2 (.inr ⟨ih harmed, hstops⟩)
    -- a run that starts may have stopped the timer, and did not arm it
    have hdue {due? : Option Int} (hdue : due? = none ∨ due? = c.driver.timer) (harmed : due? ≠ none) :
        c.driver.timer ≠ none := by
      rcases hdue with rfl | rfl
      · exact absurd rfl harmed
      · exact harmed
    cases hturn.move with
    | quiet s hquiet => exact hkept harmed hquiet.calm.2.2
    | notified now => exact since_snoc.2 (.inl rfl)
    | notifiedUnheard => exact absurd rfl harmed
    | closed => exact absurd rfl harmed
    | scheduled hσ => exact absurd rfl harmed
    | scheduledUnheard => exact absurd rfl harmed
    | issued run s due? n htoken hrest => exact hkept (hdue hrest harmed) not_false
    | foundNothing due? n hrest => exact hkept (hdue hrest harmed) not_false
    | superseded run outcome answer hrun htoken => exact hkept harmed not_false
    | ended run outcome answer phase hrun htoken htagging hphase => exact hkept harmed not_false
    | delivered run story answer hrun hcurrent => exact hkept harmed not_false

/-! ## The last result -/

/-- A result was noted when a run ended that was the last one to be issued, with no close between. No run has been issued since then. -/
def NotedBy (c₀ : Interleaving β) (σs : List Signal) (result : Generation) (run : Run) : Prop :=
  ∃ before after c c' story answer,
    σs = before ++ .heard (.completed run (.story story) answer) :: after ∧ History c₀ before c ∧
    Turn c (.heard (.completed run (.story story) answer)) c' ∧
    result = (c.driver.generator.run c.driver.session.existingIds story.root).1 ∧ c'.driver.lastResult = some result ∧
    Since (· = .heard (.issued run)) Signal.Renews before ∧ ∀ σ ∈ after, ¬ σ.Issues

theorem NotedBy.snoc {result : Generation} (h : NotedBy c₀ σs result run) (hissues : ¬ σ.Issues) :
    NotedBy c₀ (σs ++ [σ]) result run := by
  obtain ⟨before, after, c, c', story, answer, rfl, hbefore, hturn, hresult, hnoted, hsince, hafter⟩ := h
  refine ⟨before, after ++ [σ], c, c', story, answer, by simp, hbefore, hturn, hresult, hnoted, hsince, fun τ hτ => ?_⟩
  rcases List.mem_append.1 hτ with hτ | hτ
  · exact hafter τ hτ
  · rwa [List.mem_singleton.1 hτ]

theorem History.exists_notedBy (hfresh : c₀.Fresh) (h : History c₀ σs c) {result : Generation}
    (hresult : c.driver.lastResult = some result) : ∃ run, NotedBy c₀ σs result run := by
  induction h with
  | nil => cases hfresh.lastResult.symm.trans hresult
  | @snoc σs σ c c' hhistory hturn ih =>
    have hkept (hresult : c.driver.lastResult = some result) (hissues : ¬ σ.Issues) :
        ∃ run, NotedBy c₀ (σs ++ [σ]) result run := by
      obtain ⟨run, hrun⟩ := ih hresult
      exact ⟨run, hrun.snoc hissues⟩
    cases hturn.move with
    | delivered run story answer hrun hcurrent =>
      have hsince := hhistory.since_issued hfresh hrun (TagDriver.isCurrent_iff.1 hcurrent).1
      exact ⟨run, σs, [], c, _, story, answer, rfl, hhistory, hturn, (Option.some.inj hresult).symm, hresult, hsince, nofun⟩
    | quiet s hquiet => exact hkept hresult fun hissues => hquiet.calm.1 hissues.renews
    | notified now => exact hkept hresult not_false
    | notifiedUnheard => exact hkept hresult not_false
    | closed => exact hkept hresult not_false
    | scheduled hσ => exact hkept hresult (by rcases hσ with rfl | rfl <;> exact not_false)
    | scheduledUnheard => exact hkept hresult not_false
    | issued run s due? n htoken hdue => cases hresult
    | foundNothing due? n hdue => exact hkept hresult not_false
    | superseded run outcome answer hrun htoken => exact hkept hresult not_false
    | ended run outcome answer phase hrun htoken htagging hphase => exact hkept hresult not_false

/-! ## All of it -/

/-- What a driver says at a moment of its history. -/
structure Consistent (c₀ : Interleaving β) (σs : List Signal) (c : Interleaving β) : Prop where
  numbered : c.Numbered
  tagging : c.driver.phase = .tagging ↔ Counts σs c
  outdated : ∀ run outcome answer c', run.token ≠ c.driver.issued →
    Turn c (.heard (.completed run outcome answer)) c' → c'.driver = c.driver
  timer : c.driver.timer ≠ none → Since (· = .heard .notified) Signal.StopsTimer σs
  lastResult : ∀ result, c.driver.lastResult = some result → ∃ run, NotedBy c₀ σs result run

/-- Whatever the operations, the ends of runs and the changes of the session are: the runs in flight have different numbers, none later than the newest; the phase is that of tagging exactly when the run with the newest number is in flight and no change was noticed and nothing was closed since its issue; the end of any other run changes nothing; an armed timer is that of the last notice of a change, so there is one at most; and the last result is from the run that was issued last, or last before a close. -/
theorem History.consistent (hfresh : c₀.Fresh) (h : History c₀ σs c) : Consistent c₀ σs c where
  numbered := h.numbered hfresh
  tagging := h.tagging_iff hfresh
  outdated run outcome answer c' htoken hturn := by
    cases hturn.move with
    | quiet s hquiet => exact hquiet.elim
    | scheduled hσ => rcases hσ with hσ | hσ <;> cases hσ
    | superseded _ _ _ hrun htoken' => rfl
    | ended _ _ _ phase hrun htoken' htagging hphase => exact absurd htoken' htoken
    | delivered _ story _ hrun hcurrent => exact absurd (TagDriver.isCurrent_iff.1 hcurrent).1 htoken
  timer := h.since_notified hfresh
  lastResult _ := h.exists_notedBy hfresh

/-- After a run has delivered and another change was noticed. -/
theorem consistent_oneLine : ∃ c σs, Fresh oneLine ∧ History oneLine σs c ∧ c.driver.lastResult ≠ none ∧
    c.driver.timer ≠ none ∧ Consistent oneLine σs c := by
  have hissued : Turn oneLine (.heard (.issued oneRun)) _ :=
    .heard (Step.runNow oneRun oneLine.driver.stopTimer.startRun.2 (Prod.ext (by decide +kernel) rfl)) trivial
  have hhistory := ((History.nil.snoc hissued).snoc (.heard completed_oneRun trivial)).snoc
    (.heard (Step.notify 0) (Option.some_ne_none _))
  refine ⟨_, _, initial_oneLine.fresh, hhistory, ?_, Option.some_ne_none _, hhistory.consistent initial_oneLine.fresh⟩
  show (oneLine.driver.stopTimer.startRun.2.finishRun oneRun oneText).2.lastResult ≠ none
  decide +kernel

end LineTags.Interleaving
