import LineTags.Proofs.Sync.Interleaving
import LineTags.Sync.Schedule
import Mathlib.Data.List.Induction

/-!
# Changes in quick succession lead to one run

A notice of a change arms the timer, and so does the next one, anew. Which runs the timer starts can therefore be told from the calls alone, without looking at the driver: the run that a notice leads to is started by the first call that brings the clock as far as the notice asks, unless the timer was armed or stopped again before. Every call is taken in two parts, what it does itself, `SyncCall.enter`, and the turn that the loop gets after it, in which a timer that is due starts its run. The invariant that carries the proof says of the timer after any calls that it is armed exactly for the last notice, if that one was neither served nor given up.
-/

namespace LineTags

/-- What happens to a driver: it is called, time passes, or a run that was held ends. -/
inductive SyncCall
  | notify
  | scheduleNow
  | runNow
  | close
  | advance (ticks : Nat)
  | release (index : Nat) (outcome? : Option Compiled)

namespace SyncCall

/-- The calls that arm the timer or stop it. -/
def resets : SyncCall → Bool
  | notify | scheduleNow | runNow | close => true
  | advance _ | release _ _ => false

def ticks : SyncCall → Nat
  | advance n => n
  | _ => 0

/-- The time that passes with some calls. -/
def elapsed (calls : List SyncCall) : Nat := (calls.map ticks).sum

@[simp] theorem elapsed_nil : elapsed [] = 0 := rfl

@[simp] theorem elapsed_append (calls more : List SyncCall) : elapsed (calls ++ more) = elapsed calls + elapsed more := by
  simp [elapsed]

@[simp] theorem elapsed_cons (call : SyncCall) (calls : List SyncCall) : elapsed (call :: calls) = call.ticks + elapsed calls := by
  simp [elapsed]

theorem elapsed_le_of_prefix {calls more : List SyncCall} (h : calls <+: more) : elapsed calls ≤ elapsed more := by
  obtain ⟨rest, rfl⟩ := h
  simp

variable {β : Type} [LineBuffer β]

/-- What a call does before the loop gets its turn. -/
def enter (s : Schedule β) : SyncCall → Schedule β
  | notify => { s with driver := s.driver.notify s.now }
  | scheduleNow => s.scheduleNow.2
  | runNow => s.runNow.2
  | close => s.close
  | advance n => { s with now := s.now + n }
  | release index outcome? => (s.release index outcome?).2

def perform (s : Schedule β) : SyncCall → Schedule β
  | notify => s.notify.2
  | scheduleNow => s.scheduleNow.2
  | runNow => s.runNow.2
  | close => s.close
  | advance n => s.advance n
  | release index outcome? => (s.release index outcome?).2

def performAll (s : Schedule β) (calls : List SyncCall) : Schedule β := calls.foldl perform s

@[simp] theorem performAll_concat (s : Schedule β) (calls : List SyncCall) (call : SyncCall) :
    performAll s (calls ++ [call]) = call.perform (performAll s calls) := by
  simp [performAll]

end SyncCall

/-! ## The clock of a schedule -/

/-- The parts of a schedule that have to do with time. -/
structure Clock where
  now : Int
  timer : Option Int
  debounce : Int
  hasLoop : Bool

namespace Clock

def IsDue (c : Clock) : Prop := ∃ due, c.timer = some due ∧ due ≤ c.now

/-- What a call does to the clock. -/
def enter (c : Clock) : SyncCall → Clock
  | .notify => { c with timer := some (c.now + c.debounce) }
  | .scheduleNow | .runNow | .close => { c with timer := none }
  | .advance n => { c with now := c.now + n }
  | .release _ _ => c

/-- What the turn of the loop does to the clock. -/
def settle (c : Clock) : Clock :=
  match c.timer with
  | some due => if due ≤ c.now then { c with timer := none } else c
  | none => c

@[simp] theorem now_enter (c : Clock) (call : SyncCall) : (c.enter call).now = c.now + call.ticks := by
  cases call <;> simp [enter, SyncCall.ticks]

@[simp] theorem debounce_enter (c : Clock) (call : SyncCall) : (c.enter call).debounce = c.debounce := by
  cases call <;> rfl

@[simp] theorem hasLoop_enter (c : Clock) (call : SyncCall) : (c.enter call).hasLoop = c.hasLoop := by
  cases call <;> rfl

theorem enter_of_resets_eq_false (c : Clock) {call : SyncCall} (h : call.resets = false) :
    c.enter call = { c with now := c.now + call.ticks } := by
  cases call <;> simp_all [SyncCall.resets, enter, SyncCall.ticks]

theorem enter_of_resets (c : Clock) {call : SyncCall} (h : call.resets = true) (hnotify : call ≠ .notify) :
    c.enter call = { c with timer := none } := by
  cases call <;> simp_all [SyncCall.resets, enter]

/-- The turn of the loop changes the timer alone. -/
theorem settle_eq (c : Clock) : c.settle = { c with timer := c.settle.timer } := by
  unfold settle
  split
  · split <;> rfl
  · rfl

@[simp] theorem now_settle (c : Clock) : c.settle.now = c.now := by rw [settle_eq]

@[simp] theorem debounce_settle (c : Clock) : c.settle.debounce = c.debounce := by rw [settle_eq]

@[simp] theorem hasLoop_settle (c : Clock) : c.settle.hasLoop = c.hasLoop := by rw [settle_eq]

/-- After the turn of the loop only a timer that is not due is armed. -/
theorem timer_settle_eq_some_iff {c : Clock} {due : Int} : c.settle.timer = some due ↔ c.timer = some due ∧ c.now < due := by
  unfold settle
  cases htimer : c.timer with
  | none => simp [htimer]
  | some due' =>
    by_cases hdue : due' ≤ c.now
    · simp only [hdue, if_true, reduceCtorEq, Option.some.injEq, false_iff, not_and]
      omega
    · simp only [hdue, if_false, htimer, Option.some.injEq]
      omega

theorem settle_of_not_isDue {c : Clock} (h : ¬c.IsDue) : c.settle = c := by
  unfold settle
  split
  · next due htimer => exact if_neg fun hle => h ⟨due, htimer, hle⟩
  · rfl

end Clock

namespace Schedule

variable {β : Type} [LineBuffer β] {s : Schedule β}

omit [LineBuffer β]

def clock (s : Schedule β) : Clock := ⟨s.now, s.driver.timer, s.driver.debounce, s.hasLoop⟩

theorem clock_report (s : Schedule β) (origin : Origin) (result : Except CompileFailure (List IdEdit)) :
    (s.report origin result).clock = s.clock := by
  cases origin <;> cases result <;> rfl

variable [LineBuffer β]

theorem clock_finish (s : Schedule β) (h : HeldRun) (outcome : Compiled) : (s.finish h outcome).clock = s.clock := by
  have hdriver : (s.driver.finishRun h.run outcome).2.timer = s.driver.timer ∧
      (s.driver.finishRun h.run outcome).2.debounce = s.driver.debounce := by
    obtain ⟨phase, -, heq⟩ | ⟨story, -, -, heq⟩ := TagDriver.finishRun_cases h.run outcome s.driver
    · simp [heq]
    · simp [heq, TagDriver.delivered]
  unfold finish
  rw [clock_report]
  split
  · simp [clock, log, hdriver]
  · simp [clock, hdriver]

/-- A run that starts, and whatever comes of it, leaves the clock alone. -/
theorem clock_start (s : Schedule β) (origin : Origin) : (s.start origin).clock = s.clock := by
  unfold start
  split
  · next d hnone =>
    rw [clock_report, TagDriver.startRun_none hnone]
  · next run d hsome =>
    have hissued : d.timer = s.driver.timer ∧ d.debounce = s.driver.debounce := by
      simp [(TagDriver.startRun_issued hsome).after]
    dsimp only
    split
    · simp [clock, log, hissued]
    · rw [clock_finish]
      simp [clock, log, hissued]

/-! ### The turn of the loop -/

/-- A timer that is due starts its run and is stopped. -/
theorem settle_of_isDue (h : s.clock.IsDue) : s.settle = { s with driver := s.driver.stopTimer }.start .scheduled := by
  obtain ⟨due, htimer, hle⟩ := h
  rw [settle, show s.driver.timer = some due from htimer]
  exact if_pos hle

/-- Otherwise nothing happens. -/
theorem settle_of_not_isDue (h : ¬s.clock.IsDue) : s.settle = s := by
  unfold settle
  split
  · next due htimer => exact if_neg fun hle => h ⟨due, htimer, hle⟩
  · rfl

theorem clock_settle (s : Schedule β) : s.settle.clock = s.clock.settle := by
  by_cases hdue : s.clock.IsDue
  · rw [settle_of_isDue hdue, clock_start]
    obtain ⟨due, htimer, hle⟩ := hdue
    rw [Clock.settle, htimer]
    exact (if_pos hle).symm
  · rw [settle_of_not_isDue hdue, Clock.settle_of_not_isDue hdue]

end Schedule

namespace SyncCall

variable {β : Type} [LineBuffer β] {s : Schedule β}

theorem clock_enter (s : Schedule β) (call : SyncCall) : (call.enter s).clock = s.clock.enter call := by
  cases call with
  | notify => rfl
  | scheduleNow =>
    show s.scheduleNow.2.clock = { s.clock with timer := none }
    unfold Schedule.scheduleNow
    dsimp only
    split
    · exact Schedule.clock_start _ _
    · rfl
  | runNow => exact Schedule.clock_start _ _
  | close => rfl
  | advance n => rfl
  | release index outcome? =>
    show (s.release index outcome?).2.clock = s.clock
    unfold Schedule.release
    split
    · rfl
    · exact Schedule.clock_finish _ _ _

/-- A call starts the run of the timer if the timer is due when the loop gets its turn. -/
def StartsTimerRun (s : Schedule β) (call : SyncCall) : Prop := (call.enter s).clock.IsDue

/-- With a loop, and unless a timer is due already, each call is what it does itself and then the turn of the loop. -/
theorem perform_eq (hloop : s.hasLoop = true) (hquiet : ¬s.clock.IsDue) (call : SyncCall) :
    call.perform s = (call.enter s).settle := by
  have hidle (call : SyncCall) (hdue : ¬(s.clock.enter call).IsDue) : (call.enter s).settle = call.enter s := by
    rw [← clock_enter] at hdue
    exact Schedule.settle_of_not_isDue hdue
  cases call with
  | notify => simp [perform, enter, Schedule.notify, hloop]
  | scheduleNow => exact (hidle .scheduleNow (by simp [Clock.enter, Clock.IsDue])).symm
  | runNow => exact (hidle .runNow (by simp [Clock.enter, Clock.IsDue])).symm
  | close => exact (hidle .close (by simp [Clock.enter, Clock.IsDue])).symm
  | advance n => rfl
  | release index outcome? => exact (hidle (.release index outcome?) hquiet).symm

/-! ## What a notice leads to -/

/-- The calls after a notice that leave its timer armed. -/
structure Waits (debounce : Int) (after : List SyncCall) : Prop where
  undisturbed : ∀ call ∈ after, call.resets = false
  early : (elapsed after : Int) < debounce

/-- The calls after a notice of which the last starts its run: none of them arms or stops the timer, and the last is the first that brings the clock as far as the notice asks. -/
structure RunsAfter (debounce : Int) (after : List SyncCall) : Prop where
  undisturbed : ∀ call ∈ after, call.resets = false
  reached : debounce ≤ elapsed after
  first : ∀ earlier, earlier <+: after → earlier ≠ after → (elapsed earlier : Int) < debounce

variable {debounce : Int} {calls before after : List SyncCall} {call : SyncCall}

theorem waits_nil : Waits debounce [] ↔ 0 < debounce :=
  ⟨fun h => h.early, fun h => ⟨fun _ hmem => absurd hmem List.not_mem_nil, h⟩⟩

theorem runsAfter_nil : RunsAfter debounce [] ↔ debounce ≤ 0 := by
  refine ⟨fun h => h.reached, fun h => ⟨fun _ hmem => absurd hmem List.not_mem_nil, h, fun earlier hpre hne => ?_⟩⟩
  exact absurd (List.prefix_nil.1 hpre) hne

theorem undisturbed_concat : (∀ c ∈ after ++ [call], c.resets = false) ↔
    (∀ c ∈ after, c.resets = false) ∧ call.resets = false := by
  simp [or_imp, forall_and]

theorem waits_concat : Waits debounce (after ++ [call]) ↔
    Waits debounce after ∧ call.resets = false ∧ (elapsed after + call.ticks : Int) < debounce := by
  constructor
  · rintro ⟨hundisturbed, hearly⟩
    rw [undisturbed_concat] at hundisturbed
    simp only [elapsed_append, elapsed_cons, elapsed_nil] at hearly
    exact ⟨⟨hundisturbed.1, by omega⟩, hundisturbed.2, by omega⟩
  · rintro ⟨⟨hundisturbed, -⟩, hcall, hearly⟩
    refine ⟨undisturbed_concat.2 ⟨hundisturbed, hcall⟩, ?_⟩
    simp only [elapsed_append, elapsed_cons, elapsed_nil]
    omega

theorem runsAfter_concat : RunsAfter debounce (after ++ [call]) ↔
    Waits debounce after ∧ call.resets = false ∧ debounce ≤ (elapsed after + call.ticks : Int) := by
  constructor
  · rintro ⟨hundisturbed, hreached, hfirst⟩
    rw [undisturbed_concat] at hundisturbed
    simp only [elapsed_append, elapsed_cons, elapsed_nil] at hreached
    refine ⟨⟨hundisturbed.1, hfirst after (List.prefix_append _ _) ?_⟩, hundisturbed.2, by omega⟩
    simp
  · rintro ⟨⟨hundisturbed, hearly⟩, hcall, hreached⟩
    refine ⟨undisturbed_concat.2 ⟨hundisturbed, hcall⟩, ?_, fun earlier hpre hne => ?_⟩
    · simp only [elapsed_append, elapsed_cons, elapsed_nil]
      omega
    · rcases List.prefix_concat_iff.1 hpre with heq | hpre
      · exact absurd heq hne
      · have := elapsed_le_of_prefix hpre
        omega

/-- The last notice of some calls is their last one, or one of those before. -/
theorem exists_notice_concat {P : List SyncCall → List SyncCall → Prop} :
    (∃ before after, calls ++ [call] = before ++ .notify :: after ∧ P before after) ↔
      call = .notify ∧ P calls [] ∨ ∃ before after, calls = before ++ .notify :: after ∧ P before (after ++ [call]) := by
  constructor
  · rintro ⟨before, after, hsplit, hP⟩
    rcases List.eq_nil_or_concat after with rfl | ⟨after, last, rfl⟩
    · obtain ⟨rfl, hlast⟩ := List.append_inj' hsplit rfl
      exact .inl ⟨(List.cons.inj hlast).1, hP⟩
    · rw [List.concat_eq_append, ← List.cons_append, ← List.append_assoc] at hsplit
      obtain ⟨rfl, hlast⟩ := List.append_inj' hsplit rfl
      obtain ⟨rfl, -⟩ := List.cons.inj hlast
      exact .inr ⟨before, after, rfl, by rwa [List.concat_eq_append] at hP⟩
  · rintro (⟨rfl, hP⟩ | ⟨before, after, rfl, hP⟩)
    · exact ⟨calls, [], rfl, hP⟩
    · exact ⟨before, after ++ [call], by simp, hP⟩

/-! ## The timer after any calls -/

/-- The timer is armed exactly for the last notice, if no call served it or gave it up. -/
structure ArmedFor (c₀ : Clock) (calls : List SyncCall) (c : Clock) : Prop where
  now : c.now = c₀.now + elapsed calls
  debounce : c.debounce = c₀.debounce
  hasLoop : c.hasLoop = c₀.hasLoop
  timer : ∀ due, c.timer = some due ↔ ∃ before after, calls = before ++ .notify :: after ∧
    Waits c₀.debounce after ∧ due = c₀.now + elapsed before + c₀.debounce

namespace ArmedFor

variable {c₀ c : Clock}

theorem nil (htimer : c₀.timer = none) : ArmedFor c₀ [] c₀ where
  now := by simp
  debounce := rfl
  hasLoop := rfl
  timer due := by simp [htimer]

theorem not_isDue (h : ArmedFor c₀ calls c) : ¬c.IsDue := by
  rintro ⟨due, htimer, hle⟩
  obtain ⟨before, after, rfl, hwaits, rfl⟩ := (h.timer due).1 htimer
  have hnow := h.now
  have hearly := hwaits.early
  simp only [elapsed_append, elapsed_cons, ticks] at hnow
  omega

/-- The timer is due after a call exactly if this is the call that starts the run of a notice. -/
theorem isDue_enter_iff (h : ArmedFor c₀ calls c) (call : SyncCall) : (c.enter call).IsDue ↔
    ∃ before after, calls ++ [call] = before ++ .notify :: after ∧ RunsAfter c₀.debounce after := by
  rw [exists_notice_concat (P := fun _ after => RunsAfter c₀.debounce after), runsAfter_nil]
  simp only [runsAfter_concat]
  cases hresets : call.resets with
  | true =>
    by_cases hnotify : call = .notify
    · subst hnotify
      have hdebounce := h.debounce
      simp [Clock.enter, Clock.IsDue, hdebounce]
    · simp [Clock.enter_of_resets c hresets hnotify, Clock.IsDue, hnotify]
  | false =>
    have hnotify : call ≠ .notify := by
      rintro rfl
      cases hresets
    have hnow := h.now
    simp only [Clock.enter_of_resets_eq_false c hresets, Clock.IsDue, h.timer, hnotify, false_and, false_or, true_and]
    constructor
    · rintro ⟨due, ⟨before, after, rfl, hwaits, rfl⟩, hle⟩
      simp only [elapsed_append, elapsed_cons, ticks] at hnow
      exact ⟨before, after, rfl, hwaits, by omega⟩
    · rintro ⟨before, after, rfl, hwaits, hreached⟩
      simp only [elapsed_append, elapsed_cons, ticks] at hnow
      exact ⟨_, ⟨before, after, rfl, hwaits, rfl⟩, by omega⟩

/-- A call and the turn of the loop after it keep the account. -/
theorem concat (h : ArmedFor c₀ calls c) (call : SyncCall) : ArmedFor c₀ (calls ++ [call]) (c.enter call).settle where
  now := by simp [h.now, Int.add_assoc]
  debounce := by simp [h.debounce]
  hasLoop := by simp [h.hasLoop]
  timer due := by
    rw [Clock.timer_settle_eq_some_iff,
      exists_notice_concat (P := fun before after => Waits c₀.debounce after ∧ due = c₀.now + elapsed before + c₀.debounce),
      waits_nil]
    simp only [waits_concat]
    have hnow := h.now
    have hdebounce := h.debounce
    cases hresets : call.resets with
    | true =>
      by_cases hnotify : call = .notify
      · subst hnotify
        simp only [Clock.enter, Option.some.injEq, true_and, Bool.true_eq_false, false_and, and_false, exists_const, or_false]
        omega
      · simp [Clock.enter_of_resets c hresets hnotify, hnotify]
    | false =>
      have hnotify : call ≠ .notify := by
        rintro rfl
        cases hresets
      simp only [Clock.enter_of_resets_eq_false c hresets, h.timer, hnotify, false_and, false_or, true_and]
      constructor
      · rintro ⟨⟨before, after, rfl, hwaits, rfl⟩, hlt⟩
        simp only [elapsed_append, elapsed_cons, ticks] at hnow
        exact ⟨before, after, rfl, ⟨hwaits, by omega⟩, rfl⟩
      · rintro ⟨before, after, rfl, ⟨hwaits, hearly⟩, rfl⟩
        simp only [elapsed_append, elapsed_cons, ticks] at hnow
        exact ⟨⟨before, after, rfl, hwaits, rfl⟩, by omega⟩

end ArmedFor

theorem armedFor_performAll (hloop : s.hasLoop = true) (htimer : s.driver.timer = none) (calls : List SyncCall) :
    ArmedFor s.clock calls (performAll s calls).clock := by
  induction calls using List.reverseRecOn with
  | nil => exact .nil htimer
  | append_singleton calls call ih =>
    have hperform := perform_eq (ih.hasLoop.trans hloop) ih.not_isDue call
    rw [performAll_concat, hperform, Schedule.clock_settle, clock_enter]
    exact ih.concat call

/-! ## One notice, one run -/

/-- Calls have one last notice that nothing disturbs. -/
theorem eq_of_undisturbed {before' after' : List SyncCall} (hsplit : before ++ .notify :: after = before' ++ .notify :: after')
    (hafter : ∀ call ∈ after, call.resets = false) (hafter' : ∀ call ∈ after', call.resets = false) :
    before = before' ∧ after = after' := by
  have hnotice {calls rest more : List SyncCall} (hcalls : ∀ call ∈ calls, call.resets = false)
      (heq : calls = rest ++ .notify :: more) : False := by
    have := hcalls .notify (heq ▸ List.mem_append_cons_self)
    cases this
  rcases List.append_eq_append_iff.1 hsplit with ⟨rest, rfl, hrest⟩ | ⟨rest, rfl, hrest⟩
  · cases rest with
    | nil => exact ⟨by simp, (List.cons.inj hrest).2⟩
    | cons _ rest => exact (hnotice hafter (List.cons.inj hrest).2).elim
  · cases rest with
    | nil => exact ⟨by simp, (List.cons.inj hrest).2.symm⟩
    | cons _ rest => exact (hnotice hafter' (List.cons.inj hrest).2).elim

/-- A notice is served once. -/
theorem RunsAfter.eq_of_prefix {rest after' : List SyncCall} (h : RunsAfter debounce after) (h' : RunsAfter debounce after')
    (hpre : after <+: rest) (hpre' : after' <+: rest) : after = after' := by
  by_contra hne
  have hreached := h.reached
  have hreached' := h'.reached
  rcases List.prefix_or_prefix_of_prefix hpre hpre' with hle | hle
  · have := h'.first after hle hne
    omega
  · have := h.first after' hle (Ne.symm hne)
    omega

/-- Once the clock has come as far as a notice asks, the notice was served unless the timer was armed or stopped before. -/
theorem exists_runsAfter_iff {rest : List SyncCall} (hreached : debounce ≤ elapsed rest) :
    (∃ after, after <+: rest ∧ RunsAfter debounce after) ↔
      ∀ earlier call, earlier ++ [call] <+: rest → (elapsed earlier : Int) < debounce → call.resets = false := by
  constructor
  · rintro ⟨after, hafter, hruns⟩ earlier call hearlier hlt
    have hreaches := hruns.reached
    refine hruns.undisturbed call ?_
    rcases List.prefix_or_prefix_of_prefix hearlier hafter with hle | hle
    · exact hle.subset (List.mem_append_right _ List.mem_cons_self)
    rcases List.prefix_concat_iff.1 hle with rfl | hle
    · exact List.mem_append_right _ List.mem_cons_self
    · have := elapsed_le_of_prefix hle
      omega
  · intro hquiet
    induction rest using List.reverseRecOn with
    | nil => exact ⟨[], List.prefix_rfl, runsAfter_nil.2 (by simpa using hreached)⟩
    | append_singleton rest call ih =>
      by_cases hbefore : debounce ≤ elapsed rest
      · obtain ⟨after, hafter, hruns⟩ := ih hbefore fun earlier call hearlier => hquiet earlier call (hearlier.trans (List.prefix_append _ _))
        exact ⟨after, hafter.trans (List.prefix_append _ _), hruns⟩
      -- the last call is the first to bring the clock so far, so every call was made before
      · refine ⟨rest ++ [call], List.prefix_rfl, fun c hc => ?_, hreached, fun earlier hearlier hne => ?_⟩
        · obtain ⟨earlier, later, hsplit⟩ := List.append_of_mem hc
          have hpre : earlier ++ [c] <+: rest ++ [call] := ⟨later, by simp [hsplit]⟩
          have hrest : earlier <+: rest := by
            rcases List.prefix_concat_iff.1 hpre with heq | hle
            · exact (List.append_inj' heq rfl).1 ▸ List.prefix_rfl
            · exact (List.prefix_append _ _).trans hle
          have := elapsed_le_of_prefix hrest
          exact hquiet earlier c hpre (by omega)
        · have := elapsed_le_of_prefix ((List.prefix_concat_iff.1 hearlier).resolve_left hne)
          omega

/-- Notices, each with the calls between it and the next. -/
def burst (gaps : List (List SyncCall)) : List SyncCall := gaps.flatMap fun gap => .notify :: gap

/-- Wherever a burst and the calls after it are cut off, what came last is a notice with calls that are cut from a gap, or the last notice with calls that are cut from those after it. -/
theorem exists_last_notice {gaps : List (List SyncCall)} {cut : List SyncCall} (hne : cut ≠ [])
    (hcut : cut <+: burst gaps ++ .notify :: after) : ∃ before behind, cut = before ++ .notify :: behind ∧
      ((∃ gap ∈ gaps, behind <+: gap) ∨ before = burst gaps ∧ behind <+: after) := by
  induction gaps generalizing cut with
  | nil =>
    obtain ⟨call, behind, rfl⟩ := List.exists_cons_of_ne_nil hne
    obtain ⟨rfl, hbehind⟩ := List.cons_prefix_cons.1 hcut
    exact ⟨[], behind, rfl, .inr ⟨rfl, hbehind⟩⟩
  | cons gap gaps ih =>
    have hburst : burst (gap :: gaps) ++ .notify :: after = (.notify :: gap) ++ (burst gaps ++ .notify :: after) := by
      simp [burst]
    rw [hburst] at hcut
    rcases List.prefix_or_prefix_of_prefix hcut (List.prefix_append _ _) with hfirst | ⟨rest, rfl⟩
    · obtain ⟨call, behind, rfl⟩ := List.exists_cons_of_ne_nil hne
      obtain ⟨rfl, hbehind⟩ := List.cons_prefix_cons.1 hfirst
      exact ⟨[], behind, rfl, .inl ⟨gap, List.mem_cons_self, hbehind⟩⟩
    · rw [List.prefix_append_right_inj] at hcut
      rcases eq_or_ne rest [] with rfl | hrest
      · exact ⟨[], gap, by simp, .inl ⟨gap, List.mem_cons_self, List.prefix_rfl⟩⟩
      · obtain ⟨before, behind, rfl, ⟨gap', hgap', hbehind⟩ | ⟨rfl, hbehind⟩⟩ := ih hrest hcut
        · exact ⟨.notify :: gap ++ before, behind, by simp, .inl ⟨gap', List.mem_cons_of_mem _ hgap', hbehind⟩⟩
        · exact ⟨.notify :: gap ++ burst gaps, behind, by simp, .inr ⟨by simp [burst], hbehind⟩⟩

/-- Of a burst the last notice alone is served. -/
theorem runsAfter_burst_iff {gaps : List (List SyncCall)} {cut : List SyncCall} (hgaps : ∀ gap ∈ gaps, Waits debounce gap)
    (hruns : RunsAfter debounce after) (hne : cut ≠ []) (hcut : cut <+: burst gaps ++ .notify :: after) (calls : List SyncCall) :
    (∃ before behind, calls ++ cut = before ++ .notify :: behind ∧ RunsAfter debounce behind) ↔
      cut = burst gaps ++ .notify :: after := by
  constructor
  · rintro ⟨before, behind, hsplit, hserved⟩
    obtain ⟨front, back, rfl, hback⟩ := exists_last_notice hne hcut
    have hquiet : ∀ call ∈ back, call.resets = false := by
      rcases hback with ⟨gap, hgap, hback⟩ | ⟨-, hback⟩
      · exact fun call hcall => (hgaps gap hgap).undisturbed call (hback.subset hcall)
      · exact fun call hcall => hruns.undisturbed call (hback.subset hcall)
    rw [← List.append_assoc] at hsplit
    obtain ⟨-, rfl⟩ := eq_of_undisturbed hsplit hquiet hserved.undisturbed
    rcases hback with ⟨gap, hgap, hback⟩ | ⟨rfl, hback⟩
    · have hreached := hserved.reached
      have hearly := (hgaps gap hgap).early
      have hle := elapsed_le_of_prefix hback
      omega
    · rw [hserved.eq_of_prefix hruns hback List.prefix_rfl]
  · rintro rfl
    exact ⟨calls ++ burst gaps, after, by simp, hruns⟩

/-- What the timer of a schedule does, whatever the calls are. -/
structure Coalesces (s : Schedule β) : Prop where
  /-- A call that starts a run of the timer stops the timer and starts the run when the loop gets its turn; -/
  started : ∀ calls call, call.StartsTimerRun (performAll s calls) →
    performAll s (calls ++ [call]) =
      let entered := call.enter (performAll s calls)
      { entered with driver := entered.driver.stopTimer }.start .scheduled
  /-- after any other call the loop has nothing to do. -/
  idle : ∀ calls call, ¬call.StartsTimerRun (performAll s calls) → performAll s (calls ++ [call]) = call.enter (performAll s calls)
  /-- A call starts a run of the timer exactly if a notice is served by it, -/
  serves : ∀ calls call, call.StartsTimerRun (performAll s calls) ↔
    ∃ before after, calls ++ [call] = before ++ .notify :: after ∧ RunsAfter s.driver.debounce after
  /-- by which no other notice is served. -/
  one_notice : ∀ before after before' after', before ++ .notify :: after = before' ++ .notify :: after' →
    RunsAfter s.driver.debounce after → RunsAfter s.driver.debounce after' → before = before' ∧ after = after'
  /-- A notice is served by one call at most, -/
  one_run : ∀ rest after after', after <+: rest → after' <+: rest → RunsAfter s.driver.debounce after →
    RunsAfter s.driver.debounce after' → after = after'
  /-- and once the clock has come far enough it was served, unless the timer was armed or stopped before. -/
  served_iff : ∀ rest, s.driver.debounce ≤ elapsed rest →
    ((∃ after, after <+: rest ∧ RunsAfter s.driver.debounce after) ↔
      ∀ earlier call, earlier ++ [call] <+: rest → (elapsed earlier : Int) < s.driver.debounce → call.resets = false)
  /-- Of a burst the last notice alone is served. -/
  one_for_burst : ∀ calls gaps after, (∀ gap ∈ gaps, Waits s.driver.debounce gap) → RunsAfter s.driver.debounce after →
    ∀ earlier call, earlier ++ [call] <+: burst gaps ++ .notify :: after →
      (call.StartsTimerRun (performAll s (calls ++ earlier)) ↔ earlier ++ [call] = burst gaps ++ .notify :: after)
  /-- The other calls leave no timer behind. -/
  stopped : ∀ calls, ∀ call ∈ [scheduleNow, runNow, close], (call.perform (performAll s calls)).driver.timer = none

theorem performAll_eq (hloop : s.hasLoop = true) (htimer : s.driver.timer = none) (calls : List SyncCall) (call : SyncCall) :
    performAll s (calls ++ [call]) = (call.enter (performAll s calls)).settle := by
  have harmed := armedFor_performAll hloop htimer calls
  rw [performAll_concat]
  exact perform_eq (harmed.hasLoop.trans hloop) harmed.not_isDue call

theorem startsTimerRun_iff (hloop : s.hasLoop = true) (htimer : s.driver.timer = none) (calls : List SyncCall) (call : SyncCall) :
    call.StartsTimerRun (performAll s calls) ↔
      ∃ before after, calls ++ [call] = before ++ .notify :: after ∧ RunsAfter s.driver.debounce after := by
  rw [StartsTimerRun, clock_enter]
  exact (armedFor_performAll hloop htimer calls).isDue_enter_iff call

theorem timer_perform_eq_none {call : SyncCall} (hcall : call ∈ [scheduleNow, runNow, close]) (s : Schedule β) :
    (call.perform s).driver.timer = none := by
  have hclock := congrArg Clock.timer (clock_enter s call)
  simp only [List.mem_cons, List.not_mem_nil, or_false] at hcall
  rcases hcall with rfl | rfl | rfl
  · exact hclock
  · exact hclock
  · exact hclock

/-- With a loop, and a timer that is not armed at first, notices that come close together lead to one run. -/
theorem coalesces_of_timer_eq_none (hloop : s.hasLoop = true) (htimer : s.driver.timer = none) : Coalesces s where
  started calls call hstarts := by
    rw [performAll_eq hloop htimer, Schedule.settle_of_isDue hstarts]
  idle calls call hstarts := by
    rw [performAll_eq hloop htimer, Schedule.settle_of_not_isDue hstarts]
  serves := startsTimerRun_iff hloop htimer
  one_notice before after before' after' hsplit h h' := eq_of_undisturbed hsplit h.undisturbed h'.undisturbed
  one_run rest after after' hpre hpre' h h' := h.eq_of_prefix h' hpre hpre'
  served_iff rest hreached := exists_runsAfter_iff hreached
  one_for_burst calls gaps after hgaps hruns earlier call hcut := by
    rw [startsTimerRun_iff hloop htimer, List.append_assoc]
    exact runsAfter_burst_iff hgaps hruns (by simp) hcut calls
  stopped calls call hcall := timer_perform_eq_none hcall _

/-- A driver for one open file, called twice before its timer is due. -/
theorem coalesces_oneLine :
    let s : Schedule MemoryBuffer := { driver := Interleaving.oneLine.driver, compile := fun _ => .nothing }
    s.hasLoop = true ∧ s.driver.timer = none ∧ Coalesces s ∧ (advance 1).StartsTimerRun (performAll s [notify, notify]) := by
  intro s
  have hcoalesces : Coalesces s := coalesces_of_timer_eq_none rfl rfl
  refine ⟨rfl, rfl, hcoalesces, (hcoalesces.serves _ _).2 ⟨[notify], [advance 1], rfl, ?_⟩⟩
  show RunsAfter _ ([] ++ [advance 1])
  exact runsAfter_concat.2 ⟨waits_nil.2 (by decide), rfl, by decide⟩

end SyncCall

end LineTags
