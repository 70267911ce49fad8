-- SUMMARY: The single steps of a run: operating the machine, expanding, waiting, looking at the screen.
import ConsoleScript.Run.Session

/-!
# Single steps

What the statements of a script are made of: operating the machine, expanding
texts, waiting without passing the deadline, and looking at the screen until
something is there.
-/

namespace ConsoleScript.Runner

variable {σ α : Type}

/-- Operates the machine. -/
def operate (op : Operation σ α) : Run σ α := do
  let s ← get
  let (outcome, world) := op s.world
  set { s with world }
  match outcome with
  | .ok a => return a
  | .error e => throw (.machine e)

/-- Tells what a step would do. -/
def narrate (r : Runner σ) (text : String) : Run σ Unit :=
  modify fun s => { s with world := r.machine.narrate text s.world }

-- ---------------------------------------------------------------------------
-- Expansion
-- ---------------------------------------------------------------------------

/-- Expands a text in the scope of the session. -/
def expand (r : Runner σ) (text : String) : Run σ String := do
  let s ← get
  let (out, scope) := s.scope.expand (r.machine.clock.seconds s.world) text
  set { s with scope }
  return out

/-- Expands texts one after the other. -/
def expandAll (r : Runner σ) (texts : List String) : Run σ (List String) := do
  let s ← get
  let (outs, scope) := s.scope.expandAll (r.machine.clock.seconds s.world) texts
  set { s with scope }
  return outs

/-- Binds a variable. -/
def bind (name value : String) : Run σ Unit :=
  modify fun s => { s with scope := s.scope.set name value }

/-- Carries out an assignment. -/
def assign (r : Runner σ) (line : String) : Run σ Unit := do
  let s ← get
  match s.scope.readAssignment? (r.machine.clock.seconds s.world) line with
  | none => return ()
  | some ((name, value), scope) => set { s with scope := scope.set name value }

-- ---------------------------------------------------------------------------
-- Time
-- ---------------------------------------------------------------------------

/-- The time on the machine's clock. -/
def clockTime (r : Runner σ) : Run σ Duration := do
  return r.machine.clock.elapsed (← get).world

/-- The time since a moment of the machine's clock. -/
def elapsedSince (r : Runner σ) (start : Duration) : Run σ Duration := do
  return (← r.clockTime) - start

/-- The time since the run began. -/
def elapsed (r : Runner σ) : Run σ Duration := do
  r.elapsedSince (← get).started

/-- Fails once the time for the whole run is over. -/
def checkDeadline (r : Runner σ) : Run σ Unit := do
  match r.settings.timeout with
  | none => return ()
  | some timeout =>
    let elapsed ← r.elapsed
    if timeout ≤ elapsed then throw (.timeout elapsed) else return ()

/-- Lets time pass. -/
def wait (r : Runner σ) (d : Duration) : Run σ Unit :=
  modify fun s => { s with world := r.machine.wait d s.world }

/-- Waits, but not past the deadline: where less time is left, that much passes
    and the run fails. In a dry run no time passes, and none is checked. -/
def sleep (r : Runner σ) (d : Duration) : Run σ Unit := do
  if r.machine.isDryRun then r.wait d
  else
    match r.settings.timeout with
    | none => r.wait d
    | some timeout =>
      let left := timeout - (← r.elapsed)
      if left < d then
        r.wait left
        throw (.timeout (← r.elapsed))
      else r.wait d

-- ---------------------------------------------------------------------------
-- The screen
-- ---------------------------------------------------------------------------

/-- Reads the screen. A screen that cannot be read counts as none. -/
def capture (r : Runner σ) : Run σ (Option Screen) := do
  match ← Run.attempt (operate r.machine.capture) with
  | .ok screen => return some screen
  | .error _ => return none

/-- Whether a text is on the screen, if the screen can be read. -/
def probe (r : Runner σ) (text : String) : Run σ (Option Bool) := do
  match ← r.capture with
  | none => return none
  | some screen =>
    let s ← get
    let (hit, tracker) := s.screen.search screen text
    set { s with screen := tracker }
    return some hit.found

/-- Looks at the screen until a text is there or the time since `start` is over.
    It looks at least once, and a last time when the time is over. -/
def pollFor (r : Runner σ) (text : String) (timeout start : Duration) : (fuel : Nat) → Run σ Bool
  | 0 => Run.outOfFuel
  | fuel + 1 => do
    let found ← r.probe text
    if found = some true then return true
    else
      let elapsed ← r.elapsedSince start
      if timeout ≤ elapsed then return false
      else
        r.checkDeadline
        r.sleep (min r.settings.poll (timeout - elapsed))
        pollFor r text timeout start fuel

/-- Waits for a text, and fails if it does not appear in time. -/
def watch (r : Runner σ) (fuel : Nat) (text : String) (timeout : Duration) : Run σ Unit := do
  let start ← r.clockTime
  if ← r.pollFor text timeout start fuel then return ()
  else throw (.watchTimeout text timeout (← r.elapsedSince start))

/-- Which of the patterns is on the screen, if the screen can be read. -/
def probeCases (r : Runner σ) (patterns : List String) : Run σ (Option Screen.CaseMatch) := do
  match ← r.capture with
  | none => return none
  | some screen =>
    modify fun s => { s with screen := (s.screen.observe screen).2 }
    return Screen.selectCase? patterns screen

/-- Looks at the screen until it shows one of the patterns, or the time since
    `start` is over. Gives the index of the pattern. -/
def pollCases (r : Runner σ) (patterns : List String) (timeout poll start : Duration) :
    (fuel : Nat) → Run σ (Option Nat)
  | 0 => Run.outOfFuel
  | fuel + 1 => do
    match ← r.probeCases patterns with
    | some hit => return some hit.case
    | none =>
      let elapsed ← r.elapsedSince start
      if timeout ≤ elapsed then return none
      else
        r.sleep (min poll (timeout - elapsed))
        pollCases r patterns timeout poll start fuel

-- ---------------------------------------------------------------------------
-- The debugger
-- ---------------------------------------------------------------------------

/-- Whether a debugger watches the run. -/
def isDebugging (r : Runner σ) : Run σ Bool := do
  match r.debugger with
  | none => return false
  | some d => return d.isEnabled (← get).world

/-- Does as the debugger says before a line. -/
def consult (r : Runner σ) (e : Entry) : Run σ Unit := do
  match r.debugger with
  | none => return ()
  | some d =>
    let s ← get
    if d.isEnabled s.world && d.stopsAt e s.world then
      let (outcome, world) := d.decide e s.scope s.world
      set { s with world }
      match outcome with
      | .error e => throw (.debugger e)
      | .ok .stop => throw .stopped
      | .ok (.screenshot path) => operate (r.machine.screenshot path (ImageFormat.ofPath path))
      | .ok _ => return ()
    else return ()

end ConsoleScript.Runner
