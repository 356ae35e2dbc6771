import LineTags.Proofs.Session.Reachable
import LineTags.Proofs.Sync.Run

/-!
# Interleavings

A driver does not decide in which order things happen to it. Runs that were scheduled start when the loop gets to them, compiling takes as long as it likes and ends in any order and with any outcome, and between any two of these the user edits and moves between files. The relation `Step` allows all of this and nothing is said about fairness or time; a `Path` is any finite sequence of steps, with the list of what happened.
-/

namespace LineTags

/-- A driver with the number of scheduled runs that have not started, and the issued ones whose compiling has not ended. -/
structure Interleaving (β : Type) where
  driver : TagDriver β
  scheduled : Nat := 0
  inFlight : List Run := []

namespace Interleaving

/-- What can happen, with what a completed run answered. -/
inductive Event
  | notified
  | closed
  | scheduledNow
  | timerFired
  | issued (run : Run)
  | foundNothing
  | completed (run : Run) (outcome : Compiled) (answer : Except CompileFailure (List IdEdit))
  | edited (file : Text)
  | activated (file : Text)
  | opened (file : Text)
  | documentClosed (file : Text)

/-- Whether an event makes the runs that were issued before it stale. -/
def Event.Supersedes : Event → Prop
  | notified | closed | issued _ => True
  | _ => False

/-- Whether an event opens or closes a document. -/
def Event.ChangesDocuments : Event → Prop
  | opened _ | documentClosed _ => True
  | _ => False

variable {β : Type} [LineBuffer β] [LawfulBuffer β]

def withSession (c : Interleaving β) (s : Session β) : Interleaving β := { c with driver := { c.driver with session := s } }

inductive Step (c : Interleaving β) : Event → Interleaving β → Prop
  | notify (now : Int) : Step c .notified { c with driver := c.driver.notify now }
  /-- Without a loop the timer cannot be armed, but the run in flight is stale all the same. -/
  | notifyUnarmed : Step c .notified { c with driver := c.driver.supersede }
  | close : Step c .closed { c with driver := c.driver.close }
  | scheduleNow : Step c .scheduledNow { c with driver := c.driver.stopTimer, scheduled := c.scheduled + 1 }
  | scheduleNowUnarmed : Step c .scheduledNow { c with driver := c.driver.stopTimer }
  | fire (due : Int) (harmed : c.driver.timer = some due) :
    Step c .timerFired { c with driver := c.driver.stopTimer, scheduled := c.scheduled + 1 }
  | runNow (run : Run) (d : TagDriver β) (hstart : c.driver.stopTimer.startRun = (some run, d)) :
    Step c (.issued run) { c with driver := d, inFlight := run :: c.inFlight }
  | runNowInVain (d : TagDriver β) (hstart : c.driver.stopTimer.startRun = (none, d)) :
    Step c .foundNothing { c with driver := d }
  | start (run : Run) (d : TagDriver β) (n : Nat) (hscheduled : c.scheduled = n + 1)
      (hstart : c.driver.startRun = (some run, d)) :
    Step c (.issued run) { driver := d, scheduled := n, inFlight := run :: c.inFlight }
  | startInVain (d : TagDriver β) (n : Nat) (hscheduled : c.scheduled = n + 1)
      (hstart : c.driver.startRun = (none, d)) :
    Step c .foundNothing { c with driver := d, scheduled := n }
  | complete (run : Run) (outcome : Compiled) (hrun : run ∈ c.inFlight) :
    Step c (.completed run outcome (c.driver.finishRun run outcome).1)
      { c with driver := (c.driver.finishRun run outcome).2, inFlight := c.inFlight.erase run }
  | edit (file : Text) (t t' : Tracker β) (hdoc : c.driver.session.document? file = some t) (hedited : t.Edited t') :
    Step c (.edited file) (c.withSession (c.driver.session.putDocument file t'))
  | activate (file : Text) (hopen : c.driver.session.isOpen file = true) :
    Step c (.activated file) (c.withSession (c.driver.session.setActive file).2)
  | activateUnopened (file : Text) (hopen : c.driver.session.isOpen file = false) :
    Step c (.opened file) (c.withSession (c.driver.session.setActive file).2)
  | openDocument (file : Text) (content? : Option Text) (buffer? : Option β)
      (hbuffer : ∀ b ∈ buffer?, LawfulBuffer.Sound b) :
    Step c (.opened file) (c.withSession (c.driver.session.openDocument file content? buffer?).2)
  | closeDocument (file : Text) : Step c (.documentClosed file) (c.withSession (c.driver.session.closeDocument file))

inductive Path (c : Interleaving β) : List Event → Interleaving β → Prop
  | nil : Path c [] c
  | snoc {es : List Event} {e : Event} {c' c'' : Interleaving β} : Path c es c' → Step c' e c'' → Path c (es ++ [e]) c''

/-- A driver that was just made, for a session that can occur. -/
structure Initial (c : Interleaving β) : Prop where
  session : c.driver.session.Reachable
  phase : c.driver.phase = .idle
  issued : c.driver.issued = 0
  timer : c.driver.timer = none
  lastResult : c.driver.lastResult = none
  scheduled : c.scheduled = 0
  inFlight : c.inFlight = []

variable {c c' : Interleaving β} {e : Event} {es : List Event}

/-! ## What a step does to the session -/

/-- What an event comes to for the session and for the generator, whatever it does to timers and runs. -/
inductive Effect (d : TagDriver β) : Event → Session β → Generator → Prop
  | nothing {e : Event} : Effect d e d.session d.generator
  | tidied {e : Event} : Effect d e d.session.tidy d.generator
  | delivered {run : Run} {story : Story} {answer : Except CompileFailure (List IdEdit)} :
    Effect d (.completed run (.story story) answer) (d.delivered run story).session (d.delivered run story).generator
  | edited {file : Text} {t t' : Tracker β} (hdoc : d.session.document? file = some t) (hedited : t.Edited t') :
    Effect d (.edited file) (d.session.putDocument file t') d.generator
  | activated {file : Text} (hopen : d.session.isOpen file = true) :
    Effect d (.activated file) (d.session.setActive file).2 d.generator
  | activatedUnopened {file : Text} : Effect d (.opened file) (d.session.setActive file).2 d.generator
  | opened {file : Text} {content? : Option Text} {buffer? : Option β} (hbuffer : ∀ b ∈ buffer?, LawfulBuffer.Sound b) :
    Effect d (.opened file) (d.session.openDocument file content? buffer?).2 d.generator
  | closed {file : Text} : Effect d (.documentClosed file) (d.session.closeDocument file) d.generator

theorem Step.effect (h : Step c e c') : Effect c.driver e c'.driver.session c'.driver.generator := by
  cases h with
  | notify now => exact .nothing
  | notifyUnarmed => exact .nothing
  | close => exact .nothing
  | scheduleNow => exact .nothing
  | scheduleNowUnarmed => exact .nothing
  | fire due harmed => exact .nothing
  | runNow run d hstart =>
    rw [(TagDriver.startRun_issued hstart).after]
    exact .tidied
  | runNowInVain d hstart =>
    rw [TagDriver.startRun_none hstart]
    exact .nothing
  | start run d n hscheduled hstart =>
    rw [(TagDriver.startRun_issued hstart).after]
    exact .tidied
  | startInVain d n hscheduled hstart =>
    rw [TagDriver.startRun_none hstart]
    exact .nothing
  | complete run outcome hrun =>
    obtain ⟨phase, -, h⟩ | ⟨story, rfl, -, h⟩ := TagDriver.finishRun_cases run outcome c.driver
    · rw [h]
      exact .nothing
    · rw [h]
      exact .delivered
  | edit file t t' hdoc hedited => exact .edited hdoc hedited
  | activate file hopen => exact .activated hopen
  | activateUnopened file hopen => exact .activatedUnopened
  | openDocument file content? buffer? hbuffer => exact .opened hbuffer
  | closeDocument file => exact .closed

variable {d : TagDriver β} {s : Session β} {g : Generator}

theorem Effect.sound (h : Effect d e s g) (hs : d.session.Sound) : s.Sound := by
  cases h with
  | nothing => exact hs
  | tidied => exact Session.sound_tidy hs
  | delivered => exact TagDriver.sound_delivered hs _ _
  | edited hdoc hedited => exact Session.sound_putDocument hs _ (hedited.sound (hs.of_document? hdoc))
  | activated hopen => exact Session.sound_setActive hs _
  | activatedUnopened => exact Session.sound_setActive hs _
  | opened hbuffer => exact Session.sound_openDocument hs _ _ _ hbuffer
  | closed => exact Session.sound_closeDocument hs _

theorem Step.sound (h : Step c e c') (hs : c.driver.session.Sound) : c'.driver.session.Sound := h.effect.sound hs

theorem Path.sound (h : Path c es c') (hs : c.driver.session.Sound) : c'.driver.session.Sound := by
  induction h with
  | nil => exact hs
  | snoc _ hstep ih => exact hstep.sound ih

/-- A run that has not ended was issued at some point of the path. -/
theorem Path.exists_issue (h : Path c es c') (hinit : c.inFlight = []) {run : Run} (hrun : run ∈ c'.inFlight) :
    ∃ before after c₁ c₂, es = before ++ .issued run :: after ∧ Path c before c₁ ∧ Step c₁ (.issued run) c₂ ∧
      Path c₂ after c' := by
  induction h with
  | nil =>
    rw [hinit] at hrun
    cases hrun
  | @snoc es e c' c'' hpath hstep ih =>
    have hold : run ∈ c'.inFlight → ∃ before after c₁ c₂, es ++ [e] = before ++ .issued run :: after ∧
        Path c before c₁ ∧ Step c₁ (.issued run) c₂ ∧ Path c₂ after c'' := by
      intro hrun
      obtain ⟨before, after, c₁, c₂, rfl, hbefore, hissue, hafter⟩ := ih hrun
      exact ⟨before, after ++ [e], c₁, c₂, by simp, hbefore, hissue, hafter.snoc hstep⟩
    have hnew : e = .issued run → ∃ before after c₁ c₂, es ++ [e] = before ++ .issued run :: after ∧
        Path c before c₁ ∧ Step c₁ (.issued run) c₂ ∧ Path c₂ after c'' := by
      rintro rfl
      exact ⟨es, [], c', c'', rfl, hpath, hstep, .nil⟩
    cases hstep with
    | runNow run' d hstart =>
      rcases List.mem_cons.1 hrun with rfl | hrun
      · exact hnew rfl
      · exact hold hrun
    | start run' d n hscheduled hstart =>
      rcases List.mem_cons.1 hrun with rfl | hrun
      · exact hnew rfl
      · exact hold hrun
    | complete run' outcome hrun' => exact hold (List.mem_of_mem_erase hrun)
    | notify now => exact hold hrun
    | notifyUnarmed => exact hold hrun
    | close => exact hold hrun
    | scheduleNow => exact hold hrun
    | scheduleNowUnarmed => exact hold hrun
    | fire due harmed => exact hold hrun
    | runNowInVain d hstart => exact hold hrun
    | startInVain d n hscheduled hstart => exact hold hrun
    | edit file t t' hdoc hedited => exact hold hrun
    | activate file hopen => exact hold hrun
    | activateUnopened file hopen => exact hold hrun
    | openDocument file content? buffer? hbuffer => exact hold hrun
    | closeDocument file => exact hold hrun

/-! ## A small interleaving -/

/-- A driver for one open file with one line. -/
def oneLine : Interleaving MemoryBuffer where
  driver :=
    { session := (Session.openDocument (.ofFiles [(['a'], ['x'])] {}) ['a'] none none).2
      generator := { source := ⟨.cycle [0], 0⟩ }
      debounce := 1 }

/-- The story of the line. -/
def oneText : Compiled := .story { root := .text ['x'] (some ⟨some ['a'], 1⟩), fileNames := [], knots := [] }

def oneRun : Run where
  token := 1
  file := ['a']
  content := ['x']
  files := [(['a'], ['x'])]
  snapshot := [(['a'], [['x']])]

def oneEdit : IdEdit := ⟨some ['a'], 1, ['x'], ['A', 'A', 'A', 'A']⟩

theorem reachable_oneLine : oneLine.driver.session.Reachable :=
  .openDocument ['a'] none none (.ofFiles _ _) fun _ h => absurd h (Option.not_mem_none _)

theorem initial_oneLine : oneLine.Initial where
  session := reachable_oneLine
  phase := rfl
  issued := rfl
  timer := rfl
  lastResult := rfl
  scheduled := rfl
  inFlight := rfl

theorem issued_oneRun : Path oneLine [.issued oneRun]
    { driver := oneLine.driver.stopTimer.startRun.2, inFlight := [oneRun] } :=
  Path.nil.snoc (Step.runNow oneRun _ (Prod.ext (by decide +kernel) rfl))

theorem completed_oneRun :
    Step { driver := oneLine.driver.stopTimer.startRun.2, inFlight := [oneRun] }
      (.completed oneRun oneText (.ok [oneEdit]))
      { driver := (oneLine.driver.stopTimer.startRun.2.finishRun oneRun oneText).2 } := by
  have hanswer : (oneLine.driver.stopTimer.startRun.2.finishRun oneRun oneText).1 = .ok [oneEdit] := by decide +kernel
  rw [← hanswer]
  exact Step.complete oneRun oneText List.mem_cons_self

end Interleaving

end LineTags
