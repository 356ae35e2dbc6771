import LineTags.Proofs.Session.Staging
import LineTags.Proofs.Sync.Interleaving

/-!
# What waits along an interleaving

Only a run stages identifiers, those it mints for files other than its own. When such a file becomes active or is opened, whatever the order and however often, each of them is bound or dropped. A `Journal` is a path with the notices of all its steps. Its sums balance: what was staged was bound once or dropped once or still waits. A run counts only while its file is active, so it stages nothing for the active file.
-/

namespace LineTags

open StagingNotice

namespace TagDriver

open Session

variable {β : Type} [LineBuffer β] {d : TagDriver β} {s : Session β} {run : Run}

/-- What is staged when a new identifier is delivered. -/
def deliverNotices (run : Run) (e : IdEdit) (s : Session β) : List (StagingNotice β) :=
  match expectedLine? run e with
  | none => []
  | some expected => if e.file = some run.file then [] else s.stageNotices e expected

def deliverAllNotices (run : Run) : List IdEdit → Session β → List (StagingNotice β)
  | [], _ => []
  | e :: es, s => deliverNotices run e s ++ deliverAllNotices run es (deliver run e s).2

/-- What is staged when a run ends. -/
def finishNotices (run : Run) (outcome : Compiled) (d : TagDriver β) : List (StagingNotice β) :=
  match outcome with
  | .story story =>
    if d.isCurrent run then
      deliverAllNotices run (d.generator.run d.session.existingIds story.root).1.edits d.session.tidy
    else []
  | _ => []

theorem accounts_deliver (run : Run) (e : IdEdit) (s : Session β) :
    Accounts (deliverNotices run e s) s (deliver run e s).2 := by
  unfold deliverNotices deliver
  cases expectedLine? run e with
  | none => exact .of_staged_eq rfl
  | some expected =>
    dsimp only
    by_cases hfile : e.file = some run.file
    · rw [if_pos hfile, if_pos hfile]
      exact .of_staged_eq (staged_applyEdit s run.file e expected)
    · rw [if_neg hfile, if_neg hfile]
      exact accounts_stage s e expected

theorem accounts_deliverAll (run : Run) (es : List IdEdit) (s : Session β) :
    Accounts (deliverAllNotices run es s) s (deliverAll run es s).2 := by
  induction es generalizing s with
  | nil => exact .of_staged_eq rfl
  | cons e es ih => exact (accounts_deliver run e s).trans (ih _)

/-- A run whose file is active stages nothing for the active file. -/
theorem stagedRight_deliver [LawfulBuffer β] (hs : s.StagedRight) (hactive : s.active = some run.file) (e : IdEdit) :
    (deliver run e s).2.StagedRight := by
  unfold deliver
  cases expectedLine? run e with
  | none => exact hs
  | some expected =>
    dsimp only
    by_cases hfile : e.file = some run.file
    · rw [if_pos hfile]
      have hsteady := steady_applyEdit s run.file e expected
      exact hs.of_staged_eq (staged_applyEdit s run.file e expected) fun other hother => hsteady.active.symm.trans hother
    · rw [if_neg hfile]
      exact hs.stage (by rwa [hactive]) expected

theorem stagedRight_deliverAll [LawfulBuffer β] (hs : s.StagedRight) (hactive : s.active = some run.file) (es : List IdEdit) :
    (deliverAll run es s).2.StagedRight := by
  induction es generalizing s with
  | nil => exact hs
  | cons e es ih => exact ih (stagedRight_deliver hs hactive e) ((steady_deliver run e s).active.trans hactive)

theorem accounts_finishRun (run : Run) (outcome : Compiled) (d : TagDriver β) :
    Accounts (d.finishNotices run outcome) d.session (d.finishRun run outcome).2.session := by
  unfold finishNotices finishRun
  cases outcome with
  | failed e =>
    dsimp only
    split <;> exact .of_staged_eq rfl
  | nothing =>
    dsimp only
    by_cases hcurrent : d.isCurrent run = true
    · rw [if_pos hcurrent]
      exact .of_staged_eq rfl
    · rw [if_neg hcurrent]
      split <;> exact .of_staged_eq rfl
  | story story =>
    dsimp only
    by_cases hcurrent : d.isCurrent run = true
    · have htidied : Accounts [] d.session d.session.tidy := .of_staged_eq rfl
      rw [if_pos hcurrent, if_pos hcurrent]
      exact htidied.trans (accounts_deliverAll run _ _)
    · rw [if_neg hcurrent, if_neg hcurrent]
      split <;> exact .of_staged_eq rfl

theorem stagedRight_finishRun [LawfulBuffer β] (hs : d.session.StagedRight) (run : Run) (outcome : Compiled) :
    (d.finishRun run outcome).2.session.StagedRight := by
  obtain ⟨phase, -, h⟩ | ⟨story, -, hcurrent, h⟩ := finishRun_cases run outcome d
  · rw [h]
    exact hs
  · rw [h]
    have htidied : d.session.tidy.StagedRight := hs.of_staged_eq rfl fun _ => id
    exact stagedRight_deliverAll htidied (isCurrent_iff.1 hcurrent).2.2 _

end TagDriver

namespace Interleaving

open Session TagDriver

variable {β : Type} [LineBuffer β] [LawfulBuffer β] {c c' : Interleaving β} {e : Event} {es : List Event}
  {ns : List (StagingNotice β)}

/-- Whether identifiers can be staged or handed out at an event. -/
def Event.Stages : Event → Prop
  | completed .. | activated _ | opened _ => True
  | _ => False

/-- A step with its notices. -/
inductive Tells (c : Interleaving β) : Event → List (StagingNotice β) → Interleaving β → Prop
  | quiet {e : Event} {c' : Interleaving β} (hstep : Step c e c') (hquiet : ¬e.Stages) : Tells c e [] c'
  | complete (run : Run) (outcome : Compiled) (hrun : run ∈ c.inFlight) :
    Tells c (.completed run outcome (c.driver.finishRun run outcome).1) (c.driver.finishNotices run outcome)
      { c with driver := (c.driver.finishRun run outcome).2, inFlight := c.inFlight.erase run }
  | activate (file : Text) (hopen : c.driver.session.isOpen file = true) :
    Tells c (.activated file) (c.driver.session.activateNotices file) (c.withSession (c.driver.session.setActive file).2)
  | activateUnopened (file : Text) (hopen : c.driver.session.isOpen file = false) :
    Tells c (.opened file) (c.driver.session.activateNotices file) (c.withSession (c.driver.session.setActive file).2)
  | openDocument (file : Text) (content? : Option Text) (buffer? : Option β)
      (hbuffer : ∀ b ∈ buffer?, LawfulBuffer.Sound b) :
    Tells c (.opened file) (c.driver.session.openNotices file content? buffer?)
      (c.withSession (c.driver.session.openDocument file content? buffer?).2)

/-- A path with the notices of its steps. -/
inductive Journal (c : Interleaving β) : List Event → List (StagingNotice β) → Interleaving β → Prop
  | nil : Journal c [] [] c
  | snoc {es : List Event} {e : Event} {ns ns' : List (StagingNotice β)} {c' c'' : Interleaving β} :
    Journal c es ns c' → Tells c' e ns' c'' → Journal c (es ++ [e]) (ns ++ ns') c''

theorem Step.exists_tells (h : Step c e c') : ∃ ns, Tells c e ns c' := by
  by_cases hquiet : e.Stages
  · cases h with
    | complete run outcome hrun => exact ⟨_, .complete run outcome hrun⟩
    | activate file hopen => exact ⟨_, .activate file hopen⟩
    | activateUnopened file hopen => exact ⟨_, .activateUnopened file hopen⟩
    | openDocument file content? buffer? hbuffer => exact ⟨_, .openDocument file content? buffer? hbuffer⟩
    | _ => exact hquiet.elim
  · exact ⟨[], .quiet h hquiet⟩

theorem Path.exists_journal (h : Path c es c') : ∃ ns, Journal c es ns c' := by
  induction h with
  | nil => exact ⟨[], .nil⟩
  | snoc _ hstep ih =>
    obtain ⟨ns, hjournal⟩ := ih
    obtain ⟨ns', htells⟩ := hstep.exists_tells
    exact ⟨ns ++ ns', hjournal.snoc htells⟩

/-- At other events nothing that waits changes. -/
theorem Step.quiet (h : Step c e c') (hquiet : ¬e.Stages) :
    c'.driver.session.staged = c.driver.session.staged ∧
      ∀ file, c'.driver.session.active = some file → c.driver.session.active = some file := by
  have heffect := h.effect
  generalize c'.driver.session = s, c'.driver.generator = g at heffect ⊢
  cases heffect with
  | nothing => exact ⟨rfl, fun _ => id⟩
  | tidied => exact ⟨rfl, fun _ => id⟩
  | edited hdoc hedited => exact ⟨rfl, fun _ => id⟩
  | closed => exact closeDocument_quiet c.driver.session _
  | _ => exact absurd trivial hquiet

theorem Tells.accounts (h : Tells c e ns c') : Accounts ns c.driver.session c'.driver.session := by
  cases h with
  | quiet hstep hquiet => exact .of_staged_eq (hstep.quiet hquiet).1
  | complete run outcome hrun => exact accounts_finishRun run outcome c.driver
  | activate file hopen => exact accounts_setActive c.driver.session file
  | activateUnopened file hopen => exact accounts_setActive c.driver.session file
  | openDocument file content? buffer? hbuffer => exact accounts_openDocument c.driver.session file content? buffer?

theorem Tells.stagedRight (h : Tells c e ns c') (hs : c.driver.session.StagedRight) : c'.driver.session.StagedRight := by
  cases h with
  | quiet hstep hquiet => exact hs.of_staged_eq (hstep.quiet hquiet).1 (hstep.quiet hquiet).2
  | complete run outcome hrun => exact stagedRight_finishRun hs run outcome
  | activate file hopen => exact hs.setActive file
  | activateUnopened file hopen => exact hs.setActive file
  | openDocument file content? buffer? hbuffer => exact hs.openDocument file content? buffer?

theorem Journal.accounts (h : Journal c es ns c') : Accounts ns c.driver.session c'.driver.session := by
  induction h with
  | nil => exact .of_staged_eq rfl
  | snoc _ htells ih => exact ih.trans htells.accounts

theorem Journal.stagedRight (h : Journal c es ns c') (hs : c.driver.session.StagedRight) :
    c'.driver.session.StagedRight := by
  induction h with
  | nil => exact hs
  | snoc _ htells ih => exact htells.stagedRight ih

/-- All that waited on a path is accounted for, and what still waits is right. -/
structure Settled (c : Interleaving β) (es : List Event) (c' : Interleaving β) : Prop where
  journal : ∃ ns, Journal c es ns c'
  balance : ∀ ns, Journal c es ns c' → ∀ file w, ns.countP (isStaged file w) =
    ns.countP (isBound file w) + ns.countP (isDropped file w) + (c'.driver.session.waiting file).count w
  fits : ∀ ns, Journal c es ns c' → ∀ file w s, .bound file w s ∈ ns →
    s.Reads file w.edit.line w.lineText ∧ ∀ x ∈ s.idsOf file, x.line ≠ w.edit.line
  active : ∀ file, c'.driver.session.active = some file → c'.driver.session.waiting file = []
  distinct : ∀ file, (c'.driver.session.waiting file).Pairwise fun w v =>
    ¬(w.edit.line = v.edit.line ∧ w.lineText = v.lineText)
  setActive : ∀ file, HandsOut c'.driver.session file (c'.driver.session.setActive file)
  openDocument : ∀ file content? buffer?, HandsOut c'.driver.session file (c'.driver.session.openDocument file content? buffer?)

omit [LineBuffer β] [LawfulBuffer β] in
theorem waiting_of_staged_eq_nil {s : Session β} (h : s.staged = []) (file : Text) : s.waiting file = [] := by
  rw [waiting, h]
  rfl

/-- If nothing waited at the start, identifiers that are staged are bound or dropped at most once, and only where they fit. -/
theorem Path.settled (h : Path c es c') (hstart : c.driver.session.staged = []) : Settled c es c' := by
  have hempty : ∀ file, c.driver.session.waiting file = [] := waiting_of_staged_eq_nil hstart
  have hright : c.driver.session.StagedRight :=
    ⟨fun file _ => hempty file, fun file => by rw [hempty]; exact .nil⟩
  obtain ⟨ns, hjournal⟩ := h.exists_journal
  have hright' : c'.driver.session.StagedRight := hjournal.stagedRight hright
  refine ⟨⟨ns, hjournal⟩, fun ns h file w => ?_, fun ns h => h.accounts.fits, hright'.active, hright'.distinct,
    handsOut_setActive c'.driver.session, handsOut_openDocument c'.driver.session⟩
  have hbalance := h.accounts.balance file w
  rwa [hempty, List.count_nil, Nat.add_zero] at hbalance

/-! ## A small project -/

/-- A driver for two open files with one line each. -/
def twoFiles : Interleaving MemoryBuffer where
  driver :=
    { session := ((Session.openDocument (.ofFiles [(['a'], ['x']), (['b'], ['y'])] {}) ['a'] none none).2.openDocument
        ['b'] none none).2
      generator := { source := ⟨.cycle [0, 0, 0, 0, 1, 1, 1, 1], 0⟩ }
      debounce := 1 }

def twoTexts : Compiled :=
  .story
    { root := .branch .group none [.text ['x'] (some ⟨some ['a'], 1⟩), .text ['y'] (some ⟨some ['b'], 1⟩)]
      fileNames := []
      knots := [] }

def firstFileRun : Run where
  token := 1
  file := ['a']
  content := ['x']
  files := [(['a'], ['x']), (['b'], ['y'])]
  snapshot := [(['a'], [['x']]), (['b'], [['y']])]

def secondFileEdit : StagedEdit := ⟨⟨some ['b'], 1, ['y'], ['B', 'B', 'B', 'B']⟩, ['y']⟩

/-- The run for the first file has delivered, and what it minted for the second file waits. -/
def twoFilesStaged : Interleaving MemoryBuffer :=
  { driver := (twoFiles.driver.stopTimer.startRun.2.finishRun firstFileRun twoTexts).2 }

theorem path_twoFilesStaged : ∃ answer, Path twoFiles
    [.issued firstFileRun, .completed firstFileRun twoTexts answer] twoFilesStaged := by
  have hissued : Path twoFiles [.issued firstFileRun]
      { driver := twoFiles.driver.stopTimer.startRun.2, inFlight := [firstFileRun] } :=
    Path.nil.snoc (Step.runNow firstFileRun _ (Prod.ext (by decide +kernel) rfl))
  exact ⟨_, hissued.snoc (Step.complete firstFileRun twoTexts List.mem_cons_self)⟩

theorem settled_twoFiles : ∃ es, Path twoFiles es
      (twoFilesStaged.withSession (twoFilesStaged.driver.session.setActive ['b']).2) ∧
    twoFiles.driver.session.staged = [] ∧
    twoFilesStaged.driver.session.waiting ['b'] = [secondFileEdit] ∧
    (twoFilesStaged.driver.session.setActive ['b']).2.idsOf ['b'] = [⟨1, ['B', 'B', 'B', 'B']⟩] ∧
    Settled twoFiles es (twoFilesStaged.withSession (twoFilesStaged.driver.session.setActive ['b']).2) := by
  obtain ⟨answer, hstaged⟩ := path_twoFilesStaged
  have hpath := hstaged.snoc (Step.activate ['b'] (by decide +kernel))
  exact ⟨_, hpath, rfl, by decide +kernel, by decide +kernel, hpath.settled rfl⟩

end Interleaving

end LineTags
