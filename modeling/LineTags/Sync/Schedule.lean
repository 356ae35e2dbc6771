import LineTags.Sync.Basic

/-!
# Schedules

A schedule is a driver with a clock and with the runs that wait for the compiler. Time passes only when it is told to, and between two calls everything happens that can happen without time passing: a timer that is due starts its run, and, unless runs are held, compiling ends at once. What happened is kept as a list of events.
-/

namespace LineTags

/-- Who started a run: a caller who waits for its result and is known by number, or the driver itself. -/
inductive Origin
  | caller (number : Nat)
  | scheduled
  deriving DecidableEq

structure HeldRun where
  run : Run
  origin : Origin
  deriving DecidableEq

inductive SyncEvent
  | compiling (file content : Text) (files : List Text)
  | answered (number : Nat) (result : Except CompileFailure (List IdEdit))
  | applied (edits : List IdEdit)
  | failed

structure Schedule (β : Type) where
  driver : TagDriver β
  /-- How a run is compiled when nothing else is said. -/
  compile : Run → Compiled
  /-- Whether runs wait until they are released. -/
  holding : Bool := false
  /-- Whether there is a loop that timers and scheduled runs can be given to. -/
  hasLoop : Bool := true
  now : Int := 0
  callers : Nat := 0
  held : List HeldRun := []
  /-- What happened, newest last. -/
  events : List SyncEvent := []

/-- There is no loop to give a timer or a run to. -/
structure NoLoop

namespace Schedule

variable {β : Type} [LineBuffer β]

def log (s : Schedule β) (e : SyncEvent) : Schedule β := { s with events := s.events ++ [e] }

/-- Tells who started a run what came of it. -/
def report (s : Schedule β) (origin : Origin) (result : Except CompileFailure (List IdEdit)) : Schedule β :=
  match origin, result with
  | .caller number, result => s.log (.answered number result)
  | .scheduled, .error _ => s.log .failed
  | .scheduled, .ok _ => s

/-- Ends a run. -/
def finish (s : Schedule β) (h : HeldRun) (outcome : Compiled) : Schedule β :=
  let (result, driver) := s.driver.finishRun h.run outcome
  let s := { s with driver }
  let s := match result with
    | .ok (e :: es) => s.log (.applied (e :: es))
    | _ => s
  s.report h.origin result

/-- Starts a run. -/
def start (s : Schedule β) (origin : Origin) : Schedule β :=
  match s.driver.startRun with
  | (none, driver) => { s with driver }.report origin (.ok [])
  | (some run, driver) =>
    let s := { s with driver }.log (.compiling run.file run.content (Keyed.names run.files))
    if s.holding then { s with held := s.held ++ [⟨run, origin⟩] } else s.finish ⟨run, origin⟩ (s.compile run)

/-- Starts the run of a timer that is due. -/
def settle (s : Schedule β) : Schedule β :=
  match s.driver.timer with
  | some due => if due ≤ s.now then { s with driver := s.driver.stopTimer }.start .scheduled else s
  | none => s

def notify (s : Schedule β) : Except NoLoop Unit × Schedule β :=
  if s.hasLoop then (.ok (), { s with driver := s.driver.notify s.now }.settle)
  else (.error ⟨⟩, { s with driver := s.driver.supersede })

def scheduleNow (s : Schedule β) : Except NoLoop Unit × Schedule β :=
  let s := { s with driver := s.driver.stopTimer }
  if s.hasLoop then (.ok (), s.start .scheduled) else (.error ⟨⟩, s)

/-- Starts a run for a caller, who gets a number. -/
def runNow (s : Schedule β) : Nat × Schedule β :=
  let number := s.callers + 1
  (number, { s with driver := s.driver.stopTimer, callers := number }.start (.caller number))

def close (s : Schedule β) : Schedule β := { s with driver := s.driver.close }

def advance (s : Schedule β) (ticks : Int) : Schedule β := { s with now := s.now + ticks }.settle

/-- Ends the held run with a given index, by what is said or by compiling it. -/
def release (s : Schedule β) (index : Nat) (outcome? : Option Compiled) : Bool × Schedule β :=
  match s.held[index]? with
  | none => (false, s)
  | some h => (true, { s with held := s.held.eraseIdx index }.finish h (outcome?.getD (s.compile h.run)))

/-- Lets time pass until no timer is armed. The result is whether no scheduled run is held then. -/
def waitIdle (s : Schedule β) : Bool × Schedule β :=
  let s := match s.driver.timer with
    | some due => { s with now := max s.now due }.settle
    | none => s
  (s.held.all fun h => h.origin ≠ .scheduled, s)

end Schedule

end LineTags
