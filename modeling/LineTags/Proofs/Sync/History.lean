import LineTags.Proofs.Sync.Staleness

/-!
# Histories

An interleaving lists the steps that change a driver or its session by what the program offers. For the numbers, the phase and the timer of a driver it does not matter what becomes of the session, and it does matter whether the loop took what a call gave it. So a history has more turns than a path has steps, since any other session may come in the place of the present one at any moment, and it says of each call whether it was heard. What happened is told by a list of signals, and most of what can be said about a moment is about the last signal of some kind: something happened, and nothing of some other kind has happened since.
-/

namespace LineTags

namespace Interleaving

/-- What a history tells: a step whose call, if it is one, was heard; a call that found no loop; or that the session was changed by someone else. -/
inductive Signal
  | heard (e : Event)
  | unheard (e : Event)
  | sessionChanged

namespace Signal

/-- Something was edited, whether or not a timer could be armed for it. -/
def Notifies : Signal → Prop
  | heard .notified | unheard .notified => True
  | _ => False

/-- A call found no loop to give a timer or a run to. -/
def Unheard : Signal → Prop
  | unheard _ => True
  | _ => False

/-- A new number was given. -/
def Renews : Signal → Prop
  | heard .closed | heard (.issued _) => True
  | _ => False

def Issues : Signal → Prop
  | heard (.issued _) => True
  | _ => False

/-- A run that is in flight will not count. -/
def Disturbs : Signal → Prop
  | heard .notified | unheard .notified | heard .closed => True
  | _ => False

/-- A timer that was armed before is not armed any more. -/
def StopsTimer : Signal → Prop
  | unheard _ | heard .notified | heard .closed | heard .scheduledNow | heard .timerFired => True
  | _ => False

/-- Only the session changed. -/
def Quiet : Signal → Prop
  | heard (.edited _) | heard (.activated _) | heard (.opened _) | heard (.documentClosed _) | sessionChanged => True
  | _ => False

variable {σ : Signal}

/-- What is quiet gives no number, disturbs no run and stops no timer. -/
theorem Quiet.calm (h : σ.Quiet) : ¬ σ.Renews ∧ ¬ σ.Disturbs ∧ ¬ σ.StopsTimer := by
  unfold Quiet at h
  split at h
  case h_6 => exact h.elim
  all_goals exact ⟨not_false, not_false, not_false⟩

theorem Issues.renews (h : σ.Issues) : σ.Renews := by
  unfold Issues at h
  split at h
  · exact trivial
  · exact h.elim

end Signal

/-- Something happened and nothing of another kind has happened since. -/
def Since (p q : Signal → Prop) (σs : List Signal) : Prop :=
  ∃ before σ after, σs = before ++ σ :: after ∧ p σ ∧ ∀ τ ∈ after, ¬ q τ

section

variable {p q : Signal → Prop} {σs : List Signal} {σ : Signal}

theorem not_since_nil : ¬ Since p q [] := by
  rintro ⟨before, σ, after, h, -⟩
  cases before <;> cases h

/-- A signal is the last one of a kind, or it leaves the last one as it was. -/
theorem since_snoc : Since p q (σs ++ [σ]) ↔ p σ ∨ (Since p q σs ∧ ¬ q σ) := by
  constructor
  · rintro ⟨before, σ', after, h, hp, hq⟩
    rcases List.eq_nil_or_concat after with rfl | ⟨after, τ, rfl⟩
    · obtain ⟨-, hσ⟩ := List.append_inj' h rfl
      cases hσ
      exact .inl hp
    · rw [List.concat_eq_append, ← List.cons_append, ← List.append_assoc] at h
      obtain ⟨rfl, hσ⟩ := List.append_inj' h rfl
      cases hσ
      refine .inr ⟨⟨before, σ', after, rfl, hp, fun τ hτ => ?_⟩, ?_⟩
      · exact hq τ (by simp [hτ])
      · exact hq σ (by simp)
  · rintro (hp | ⟨⟨before, σ', after, rfl, hp, hq⟩, hσ⟩)
    · exact ⟨σs, σ, [], rfl, hp, fun τ hτ => absurd hτ List.not_mem_nil⟩
    · refine ⟨before, σ', after ++ [σ], by simp, hp, fun τ hτ => ?_⟩
      rcases List.mem_append.1 hτ with hτ | hτ
      · exact hq τ hτ
      · rwa [List.mem_singleton.1 hτ]

theorem since_snoc_of_not (hp : ¬ p σ) (hq : ¬ q σ) : Since p q (σs ++ [σ]) ↔ Since p q σs := by
  rw [since_snoc, or_iff_right hp, and_iff_left hq]

theorem not_since_snoc (hp : ¬ p σ) (hq : q σ) : ¬ Since p q (σs ++ [σ]) := by
  rw [since_snoc, or_iff_right hp]
  exact fun h => h.2 hq

end

variable {β : Type} [LineBuffer β] [LawfulBuffer β]

/-- Whether the loop took what a call gave it, a timer or a run. A step that gives nothing to the loop counts as heard. -/
def Heard (c : Interleaving β) : Event → Interleaving β → Prop
  | .notified, c' => c'.driver.timer ≠ none
  | .scheduledNow, c' => c.scheduled < c'.scheduled
  | _, _ => True

inductive Turn (c : Interleaving β) : Signal → Interleaving β → Prop
  | heard {e : Event} {c' : Interleaving β} (hstep : Step c e c') (hheard : Heard c e c') : Turn c (.heard e) c'
  | unheard {e : Event} {c' : Interleaving β} (hstep : Step c e c') (hunheard : ¬ Heard c e c') : Turn c (.unheard e) c'
  | sessionChanged (s : Session β) : Turn c .sessionChanged (c.withSession s)

inductive History (c : Interleaving β) : List Signal → Interleaving β → Prop
  | nil : History c [] c
  | snoc {σs : List Signal} {σ : Signal} {c' c'' : Interleaving β} :
    History c σs c' → Turn c' σ c'' → History c (σs ++ [σ]) c''

/-- A driver that was just made, for any session. -/
structure Fresh (c : Interleaving β) : Prop where
  phase : c.driver.phase = .idle
  issued : c.driver.issued = 0
  timer : c.driver.timer = none
  lastResult : c.driver.lastResult = none
  scheduled : c.scheduled = 0
  inFlight : c.inFlight = []

variable {c c' : Interleaving β} {e : Event} {es : List Event} {σ : Signal}

theorem Initial.fresh (h : c.Initial) : c.Fresh := ⟨h.phase, h.issued, h.timer, h.lastResult, h.scheduled, h.inFlight⟩

/-- Every path can be told as a history. -/
theorem Path.exists_history (h : Path c es c') :
    ∃ σs, History c σs c' ∧ List.Forall₂ (fun e σ => σ = .heard e ∨ σ = .unheard e) es σs := by
  induction h with
  | nil => exact ⟨[], .nil, .nil⟩
  | @snoc es e c' c'' _ hstep ih =>
    obtain ⟨σs, hhistory, hsame⟩ := ih
    by_cases hheard : Heard c' e c''
    · exact ⟨_, hhistory.snoc (.heard hstep hheard), List.rel_append hsame (.cons (.inl rfl) .nil)⟩
    · exact ⟨_, hhistory.snoc (.unheard hstep hheard), List.rel_append hsame (.cons (.inr rfl) .nil)⟩

/-! ## What a turn does to a driver -/

/-- What a turn does to numbers, phase, timer and runs, whatever it does to the session. -/
inductive Move (c : Interleaving β) : Signal → Interleaving β → Prop
  | quiet {σ : Signal} (s : Session β) (hquiet : σ.Quiet) : Move c σ (c.withSession s)
  | notified (now : Int) : Move c (.heard .notified) { c with driver := c.driver.notify now }
  | notifiedUnheard : Move c (.unheard .notified) { c with driver := c.driver.supersede }
  | closed : Move c (.heard .closed) { c with driver := c.driver.close }
  | scheduled {σ : Signal} (hσ : σ = .heard .scheduledNow ∨ σ = .heard .timerFired) :
    Move c σ { c with driver := c.driver.stopTimer, scheduled := c.scheduled + 1 }
  | scheduledUnheard : Move c (.unheard .scheduledNow) { c with driver := c.driver.stopTimer }
  | issued (run : Run) (s : Session β) (due? : Option Int) (n : Nat) (htoken : run.token = c.driver.issued + 1)
      (hdue : due? = none ∨ due? = c.driver.timer) :
    Move c (.heard (.issued run))
      { driver := { c.driver with session := s, issued := run.token, phase := .tagging, lastResult := none, timer := due? }
        scheduled := n
        inFlight := run :: c.inFlight }
  | foundNothing (due? : Option Int) (n : Nat) (hdue : due? = none ∨ due? = c.driver.timer) :
    Move c (.heard .foundNothing) { c with driver := { c.driver with timer := due? }, scheduled := n }
  | superseded (run : Run) (outcome : Compiled) (answer : Except CompileFailure (List IdEdit)) (hrun : run ∈ c.inFlight)
      (htoken : run.token ≠ c.driver.issued) :
    Move c (.heard (.completed run outcome answer)) { c with inFlight := c.inFlight.erase run }
  | ended (run : Run) (outcome : Compiled) (answer : Except CompileFailure (List IdEdit)) (phase : Phase)
      (hrun : run ∈ c.inFlight) (htoken : run.token = c.driver.issued) (htagging : phase ≠ .tagging)
      (hphase : phase = c.driver.phase ∨ phase = .idle) :
    Move c (.heard (.completed run outcome answer))
      { c with driver := { c.driver with phase }, inFlight := c.inFlight.erase run }
  | delivered (run : Run) (story : Story) (answer : Except CompileFailure (List IdEdit)) (hrun : run ∈ c.inFlight)
      (hcurrent : c.driver.isCurrent run = true) :
    Move c (.heard (.completed run (.story story) answer))
      { c with driver := c.driver.delivered run story, inFlight := c.inFlight.erase run }

end Interleaving

namespace TagDriver

variable {β : Type} [LineBuffer β] {d : TagDriver β} {run : Run}

/-- A run that does not hold the newest number leaves everything as it is. -/
theorem finishRun_of_token_ne (outcome : Compiled) (h : run.token ≠ d.issued) : (d.finishRun run outcome).2 = d := by
  have hcurrent : d.isCurrent run = false := by
    rw [Bool.eq_false_iff]
    exact fun hcurrent => h (isCurrent_iff.1 hcurrent).1
  unfold finishRun
  cases outcome <;> simp [h, hcurrent]

/-- The run that holds the newest number ends the phase of tagging. -/
theorem phase_finishRun_of_token_eq (outcome : Compiled) (h : run.token = d.issued) : (d.finishRun run outcome).2.phase ≠ .tagging := by
  have hidle : ∀ d' : TagDriver β, d' = (if run.token = d.issued ∧ d.phase = .tagging then { d with phase := .idle } else d) →
      d'.phase ≠ .tagging := by
    rintro d' rfl
    split
    · exact nofun
    · next hnot => exact fun htagging => hnot ⟨h, htagging⟩
  unfold finishRun
  cases outcome with
  | failed e =>
    dsimp only
    rw [if_pos h]
    exact nofun
  | nothing =>
    dsimp only
    split
    · exact nofun
    · exact hidle _ rfl
  | story story =>
    dsimp only
    split
    · exact nofun
    · exact hidle _ rfl

end TagDriver

namespace Interleaving

variable {β : Type} [LineBuffer β] [LawfulBuffer β] {c c' : Interleaving β} {e : Event} {σ : Signal}

omit [LawfulBuffer β] in
/-- The completion of a run moves the driver in one of three ways. -/
theorem move_completed (run : Run) (outcome : Compiled) (hrun : run ∈ c.inFlight) :
    Move c (.heard (.completed run outcome (c.driver.finishRun run outcome).1))
      { c with driver := (c.driver.finishRun run outcome).2, inFlight := c.inFlight.erase run } := by
  by_cases htoken : run.token = c.driver.issued
  · have htagging := TagDriver.phase_finishRun_of_token_eq outcome htoken
    obtain ⟨phase, hphase, h⟩ | ⟨story, rfl, hcurrent, h⟩ := TagDriver.finishRun_cases run outcome c.driver
    · rw [h] at htagging ⊢
      exact .ended run outcome _ phase hrun htoken htagging hphase
    · rw [h]
      exact .delivered run story _ hrun hcurrent
  · rw [TagDriver.finishRun_of_token_ne outcome htoken]
    exact .superseded run outcome _ hrun htoken

theorem Turn.move (h : Turn c σ c') : Move c σ c' := by
  cases h with
  | sessionChanged s => exact .quiet s trivial
  | unheard hstep hunheard =>
    cases hstep with
    | notifyUnarmed => exact .notifiedUnheard
    | scheduleNowUnarmed => exact .scheduledUnheard
    | notify now => exact absurd (Option.some_ne_none _) hunheard
    | scheduleNow => exact absurd (Nat.lt_succ_self _) hunheard
    | _ => exact absurd trivial hunheard
  | heard hstep hheard =>
    cases hstep with
    | notify now => exact .notified now
    | notifyUnarmed => exact absurd rfl hheard
    | close => exact .closed
    | scheduleNow => exact .scheduled (.inl rfl)
    | scheduleNowUnarmed => exact absurd hheard (Nat.lt_irrefl _)
    | fire due harmed => exact .scheduled (.inr rfl)
    | runNow run d hstart =>
      have hissued := TagDriver.startRun_issued hstart
      rw [hissued.after, ← hissued.token]
      exact .issued run _ none _ hissued.token (.inl rfl)
    | runNowInVain d hstart =>
      rw [TagDriver.startRun_none hstart]
      exact .foundNothing none _ (.inl rfl)
    | start run d n hscheduled hstart =>
      have hissued := TagDriver.startRun_issued hstart
      rw [hissued.after, ← hissued.token]
      exact .issued run _ _ n hissued.token (.inr rfl)
    | startInVain d n hscheduled hstart =>
      rw [TagDriver.startRun_none hstart]
      exact .foundNothing _ n (.inr rfl)
    | complete run outcome hrun => exact move_completed run outcome hrun
    | edit file t t' hdoc hedited => exact .quiet _ trivial
    | activate file hopen => exact .quiet _ trivial
    | activateUnopened file hopen => exact .quiet _ trivial
    | openDocument file content? buffer? hbuffer => exact .quiet _ trivial
    | closeDocument file => exact .quiet _ trivial

end Interleaving

end LineTags
