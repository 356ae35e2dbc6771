import LineTags.Proofs.Sync.History

/-!
# No change is forgotten

A change that was noticed is remembered by the timer alone, and the timer is dropped in four places. Two of them, the timer that is due and the call for a run at once, put a scheduled run in its place. A caller's own run takes the file as it is at that moment, with the change in it, and so do the scheduled runs when they start. Only a close gives the change up.

Two things must go right for this. The loop must be there when something is given to it: a notice of a change that finds no loop has already stopped the timer of the one before, and has made the run in flight stale. And a run must find an open file when it starts.
-/

namespace LineTags.Interleaving

namespace Signal

/-- A timer or a scheduled run was given up and nothing took its place. -/
def Loses (σ : Signal) : Prop := σ.Unheard ∨ σ = heard .foundNothing

end Signal

variable {β : Type} [LineBuffer β] [LawfulBuffer β] {c₀ c c' : Interleaving β} {σ : Signal} {σs : List Signal}

/-- A run will come: a timer is armed, or a run is scheduled and has not started. -/
def Pending (c : Interleaving β) : Prop := c.driver.timer ≠ none ∨ 0 < c.scheduled

/-- A run that will come is forgotten only when a number is given or something is lost. -/
theorem Turn.pending (h : Turn c σ c') (hpending : c.Pending) (hrenews : ¬ σ.Renews) (hloses : ¬ σ.Loses) : c'.Pending := by
  cases h.move with
  | quiet s hquiet => exact hpending
  | notified now => exact .inl (Option.some_ne_none _)
  | notifiedUnheard => exact absurd (.inl trivial) hloses
  | closed => exact absurd trivial hrenews
  | scheduled hσ => exact .inr (Nat.succ_pos _)
  | scheduledUnheard => exact absurd (.inl trivial) hloses
  | issued run s due? n htoken hdue => exact absurd trivial hrenews
  | foundNothing due? n hdue => exact absurd (.inr rfl) hloses
  | superseded run outcome answer hrun htoken => exact hpending
  | ended run outcome answer phase hrun htoken htagging hphase => exact hpending
  | delivered run story answer hrun hcurrent => exact hpending

theorem History.pending_of_since (h : History c₀ σs c)
    (hsince : Since (· = .heard .notified) (fun σ => σ.Renews ∨ σ.Loses) σs) : c.Pending := by
  induction h with
  | nil => exact absurd hsince not_since_nil
  | snoc _ hturn ih =>
    rcases since_snoc.1 hsince with rfl | ⟨hsince, hσ⟩
    · cases hturn.move with
      | quiet s hquiet => exact hquiet.elim
      | notified now => exact .inl (Option.some_ne_none _)
      | scheduled hσ => exact .inr (Nat.succ_pos _)
    · rw [not_or] at hσ
      exact hturn.pending (ih hsince) hσ.1 hσ.2

/-- When the phase is stale, a run will come, or one was lost since the last number was given. -/
theorem History.pending_or_lost (hfresh : c₀.Fresh) (h : History c₀ σs c) (hstale : c.driver.phase = .stale) :
    c.Pending ∨ Since Signal.Loses Signal.Renews σs := by
  induction h with
  | nil => cases hfresh.phase.symm.trans hstale
  | @snoc σs σ c c' _ hturn ih =>
    by_cases hloses : σ.Loses
    · exact .inr (since_snoc.2 (.inl hloses))
    -- a phase that was stale before stays accounted for
    have hkept (hstale : c.driver.phase = .stale) (hrenews : ¬ σ.Renews) :
        c'.Pending ∨ Since Signal.Loses Signal.Renews (σs ++ [σ]) := by
      rcases ih hstale with hpending | hlost
      · exact .inl (hturn.pending hpending hrenews hloses)
      · exact .inr (since_snoc.2 (.inr ⟨hlost, hrenews⟩))
    cases hturn.move with
    | quiet s hquiet => exact hkept hstale hquiet.calm.1
    | notified now => exact .inl (.inl (Option.some_ne_none _))
    | notifiedUnheard => exact absurd (.inl trivial) hloses
    | closed => cases hstale
    | scheduled hσ => exact .inl (.inr (Nat.succ_pos _))
    | scheduledUnheard => exact absurd (.inl trivial) hloses
    | issued run s due? n htoken hdue => cases hstale
    | foundNothing due? n hdue => exact absurd (.inr rfl) hloses
    | superseded run outcome answer hrun htoken => exact hkept hstale not_false
    | ended run outcome answer phase hrun htoken htagging hphase =>
      rcases hphase with rfl | rfl
      · exact hkept hstale not_false
      · cases hstale
    | delivered run story answer hrun hcurrent => cases hstale

/-- No change is forgotten. If runs always find an open file, then a run will come whenever a change was noticed, no number was given since, and every call found the loop. The same holds whenever the phase is stale, if every call since the last number found the loop. -/
theorem History.pending_since_notified (hfresh : c₀.Fresh) (h : History c₀ σs c) (hopen : .heard .foundNothing ∉ σs) :
    (Since (· = .heard .notified) (fun σ => σ.Renews ∨ σ.Unheard) σs → c.Pending) ∧
      (c.driver.phase = .stale → ¬ Since Signal.Unheard Signal.Renews σs → c.Pending) := by
  have hloses {σ : Signal} (hmem : σ ∈ σs) (hσ : σ.Loses) : σ.Unheard := by
    rcases hσ with hσ | rfl
    · exact hσ
    · exact absurd hmem hopen
  refine ⟨fun hsince => h.pending_of_since ?_, fun hstale hheard => ?_⟩
  · obtain ⟨before, σ, after, rfl, hσ, hafter⟩ := hsince
    refine ⟨before, σ, after, rfl, hσ, fun τ hτ hτ' => hafter τ hτ ?_⟩
    exact hτ'.imp_right (hloses (by simp [hτ]))
  · rcases h.pending_or_lost hfresh hstale with hpending | ⟨before, σ, after, rfl, hσ, hafter⟩
    · exact hpending
    · exact absurd ⟨before, σ, after, rfl, hloses (by simp) hσ, hafter⟩ hheard

/-- A change while a run is in flight, and the loop is there. -/
theorem pending_since_notified_oneLine : ∃ c, Fresh oneLine ∧
    History oneLine [.heard (.issued oneRun), .heard .notified] c ∧ c.driver.phase = .stale ∧ c.Pending := by
  have hissued : Turn oneLine (.heard (.issued oneRun)) _ :=
    .heard (Step.runNow oneRun oneLine.driver.stopTimer.startRun.2 (Prod.ext (by decide +kernel) rfl)) trivial
  have hhistory := (History.nil.snoc hissued).snoc (.heard (Step.notify 0) (Option.some_ne_none _))
  refine ⟨_, initial_oneLine.fresh, hhistory, rfl, ?_⟩
  refine (hhistory.pending_since_notified initial_oneLine.fresh (by simp)).1 ?_
  exact ⟨[.heard (.issued oneRun)], _, [], rfl, rfl, nofun⟩

/-- Without a loop the change is forgotten: the run in flight is stale, and no other will come. -/
theorem not_pending_notifiedUnheard :
    let c : Interleaving MemoryBuffer :=
      { driver := oneLine.driver.stopTimer.startRun.2.supersede, inFlight := [oneRun] }
    Fresh oneLine ∧ History oneLine [.heard (.issued oneRun), .unheard .notified] c ∧
      .heard .foundNothing ∉ [Signal.heard (.issued oneRun), .unheard .notified] ∧
      Since Signal.Notifies Signal.Renews [.heard (.issued oneRun), .unheard .notified] ∧ c.driver.phase = .stale ∧
      ¬ c.Pending := by
  have hissued : Turn oneLine (.heard (.issued oneRun)) _ :=
    .heard (Step.runNow oneRun oneLine.driver.stopTimer.startRun.2 (Prod.ext (by decide +kernel) rfl)) trivial
  refine ⟨initial_oneLine.fresh, (History.nil.snoc hissued).snoc (.unheard .notifyUnarmed (fun h => h rfl)), by simp, ?_, rfl, ?_⟩
  · exact ⟨[.heard (.issued oneRun)], _, [], rfl, trivial, nofun⟩
  · rintro (hpending | hpending)
    · exact hpending rfl
    · exact Nat.lt_irrefl _ hpending

end LineTags.Interleaving
