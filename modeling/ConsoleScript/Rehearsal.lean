-- SUMMARY: Rehearsals: running scripts against a machine that is played from lists.
import ConsoleScript.Machine.DryRun
import ConsoleScript.Rehearsal.Partner
import ConsoleScript.Run.Exec

/-!
# Rehearsals

A script can be rehearsed without a machine. Screens come from a list, chosen
operations are refused, and each operation takes as long as it is said to. All
that happens is logged.
-/

namespace ConsoleScript.Rehearsal

-- ---------------------------------------------------------------------------
-- The stage
-- ---------------------------------------------------------------------------

/-- The kinds of operations. -/
inductive Deed where
  | text
  | key
  | console
  | shot
  | capture
  deriving DecidableEq, Repr

/-- The name of a kind of operation. -/
def Deed.name : Deed → String
  | .text => "text"
  | .key => "key"
  | .console => "console"
  | .shot => "shot"
  | .capture => "capture"

/-- What is logged. -/
inductive Event where
  | text (text : String)
  | key (code : String)
  | console (number : Nat)
  | wait (duration : Duration)
  | sleep (duration : Duration)
  | shot (path : String) (format : ImageFormat)
  | capture
  /-- A command was written to a monitor. -/
  | write (command : String)
  /-- The debugger stopped at a line. -/
  | stop (line : Nat)
  /-- An operation was refused. -/
  | refused (deed : Deed) (what : String)
  deriving DecidableEq, Repr

/-- An operation that is refused as often as `times` says. -/
structure Refusal where
  deed : Deed
  what : String
  times : Nat
  deriving DecidableEq, Repr

/-- What a scripted debugger does at a stop. -/
inductive Cue where
  | act (action : DebugAction)
  | fail
  deriving DecidableEq, Repr

/-- Everything that a rehearsal plays from, and what has happened. -/
structure Stage where
  /-- The time that has passed. -/
  elapsed : Duration
  /-- The time of day at the beginning, in seconds. -/
  seconds : Int
  /-- The screens to come; the last one stays. `none` is one that cannot be
      read. -/
  screens : List (Option Screen)
  refusals : List Refusal
  /-- How long each operation takes. -/
  cost : Deed → Duration
  /-- What the debugger does at its next stops. -/
  cues : List Cue
  stepper : Stepper
  connection : Monitor.Connection Partner
  /-- What has happened, the last first. -/
  log : List Event
  /-- What has been told, the last first. -/
  narration : List String

namespace Stage

/-- Logs an event. -/
def note (event : Event) (stage : Stage) : Stage :=
  { stage with log := event :: stage.log }

/-- Lets time pass. -/
def advance (d : Duration) (stage : Stage) : Stage :=
  { stage with elapsed := stage.elapsed + d }

/-- The clock of a stage: the time of day goes along with the time that has
    passed. -/
def clock : Clock Stage where
  elapsed stage := stage.elapsed
  seconds stage := stage.seconds + Int.ofNat (stage.elapsed / 1000)

/-- Uses up one refusal of an operation, if one is left. -/
def refuse? (deed : Deed) (what : String) : List Refusal → Option (List Refusal)
  | [] => none
  | r :: rest =>
    if r.deed = deed ∧ r.what = what ∧ 0 < r.times then some ({ r with times := r.times - 1 } :: rest)
    else (refuse? deed what rest).map (r :: ·)

/-- Does an operation, unless it is refused. It takes its time either way. -/
def perform (deed : Deed) (what : String) (event : Event) : Operation Stage Unit := fun stage =>
  let stage := stage.advance (stage.cost deed)
  match refuse? deed what stage.refusals with
  | some refusals =>
    (.error (.refused ("refused " ++ deed.name ++ " " ++ what)),
      { stage with refusals }.note (.refused deed what))
  | none => (.ok (), stage.note event)

/-- Shows the next screen. -/
def nextScreen : Operation Stage Screen := fun stage =>
  let stage := (stage.advance (stage.cost .capture)).note .capture
  match stage.screens with
  | [] => (.ok [], stage)
  | [last] => (last.elim (.error (.refused "no screen")) .ok, stage)
  | next :: rest => (next.elim (.error (.refused "no screen")) .ok, { stage with screens := rest })

/-- Pauses, and logs it unless it is for no time. -/
def sleep (d : Duration) (stage : Stage) : Stage :=
  if d = 0 then stage else (stage.advance d).note (.sleep d)

-- ---------------------------------------------------------------------------
-- Machines on a stage
-- ---------------------------------------------------------------------------

/-- The name of the file in which a live machine's screen is recognised. -/
def imageFile : String := "<capture>"

/-- A machine that logs what it is told. -/
def direct : Machine Stage where
  typeText text := perform .text text (.text text)
  pressKey key := perform .key key.code (.key key.code)
  switchConsole number := perform .console (toString number) (.console number)
  wait d stage := (stage.advance d).note (.wait d)
  screenshot path format := perform .shot path (.shot path format)
  capture := nextScreen
  isDryRun := false
  narrate _ stage := stage
  clock := clock

/-- A transport that logs what it is told. -/
def transport : Transport Stage where
  pressKey key := perform .key key.code (.key key.code)
  screendump path format := perform .shot path (.shot path format)

/-- Writes a command to the partner, and logs it. -/
def command (text : String) : Operation Stage Unit := fun stage =>
  let (outcome, connection) := stage.connection.command Partner.pipe text
  (outcome, { stage.note (.write text) with connection })

/-- The transport over the connection to the partner. -/
def monitorTransport : Transport Stage where
  pressKey key := command (Monitor.keyCommand key)
  screendump path format := command (Monitor.dumpCommand path format)

/-- A live machine behind a transport. -/
def live (transport : Transport Stage) (keyDelay : Duration) : Machine Stage :=
  Live.machine transport (fun _ => nextScreen) imageFile sleep keyDelay clock

/-- The machine of a dry run. -/
def dry : Machine Stage :=
  DryRun.machine (fun text stage => { stage with narration := text :: stage.narration }) clock

-- ---------------------------------------------------------------------------
-- Debuggers on a stage
-- ---------------------------------------------------------------------------

/-- A debugger that stops at given lines, or at all, and does as it is told. -/
def cuedDebugger (enabled : Bool) (lines : Option (List Nat)) : Debugger Stage where
  isEnabled _ := enabled
  stopsAt e _ := lines.all (·.contains e.line.number)
  decide e _ stage :=
    let stage := stage.note (.stop e.line.number)
    match stage.cues with
    | [] => (.ok .step, stage)
    | .act action :: rest => (.ok action, { stage with cues := rest })
    | .fail :: rest => (.error (.io "debugger gone"), { stage with cues := rest })

/-- The stepper of a stage. -/
def stepperDebugger : Debugger Stage :=
  Stepper.debugger (·.stepper) fun stepper stage => { stage with stepper }

end Stage

-- ---------------------------------------------------------------------------
-- Playing scripts
-- ---------------------------------------------------------------------------

/-- What came of one script. -/
structure Scene where
  report : Runner.Report
  events : List Event
  narration : List String
  /-- What the debugger wrote. -/
  debugOutput : String
  deriving Repr

/-- What has happened is put away, so that the next script starts with nothing. -/
def clear (stage : Stage) : Stage :=
  { stage with log := [], narration := [], stepper := { stage.stepper with output := "" } }

/-- Plays a script from its text, without the directives of the given lines. It
    is parsed in a copy of the session's scope. -/
def play (r : Runner Stage) (fuel : Nat) (dropped : List Nat) (text : String)
    (s : Session Stage) : Option (Except ParseError Scene × Session Stage) :=
  let s := { s with world := clear s.world }
  match (Script.parse (r.machine.clock.seconds s.world) s.scope text).1 with
  | .error e => some (.error e, s)
  | .ok script =>
    (r.execute fuel (script.dropDirectives dropped) s).map fun (report, s) =>
      let stage := s.world
      (.ok ⟨report, stage.log.reverse, stage.narration.reverse, stage.stepper.output⟩, s)

end ConsoleScript.Rehearsal
