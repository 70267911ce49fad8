-- SUMMARY: The state of a run, and the computations on it.
import ConsoleScript.FileSystem
import ConsoleScript.Run.Error
import ConsoleScript.Settings
import ConsoleScript.Stmt

/-!
# Sessions

A session is the state of a run together with the outside world. A computation
of a run changes the session, and either gives a result or fails; the changes
it made before it failed remain. A loop that looks at the screen may go on for
ever, so that a computation is given an amount of fuel, and has no outcome at
all if that is not enough.
-/

namespace ConsoleScript

/-- A call that has not returned. -/
structure Call where
  name : String
  args : List String
  /-- The line of the call. -/
  line : Nat
  deriving DecidableEq, Repr

/-- The state of a run in a world of type `σ`. -/
structure Session (σ : Type) where
  /-- The line that runs, or ran last. -/
  line : Nat
  scope : Scope
  /-- The calls that have not returned, the innermost first. -/
  calls : List Call
  /-- When the run began, on the machine's clock. -/
  started : Duration
  /-- How many lines have run to their end. -/
  linesExecuted : Nat
  /-- The functions that can be called. Of two with one name the first counts. -/
  functions : List Function
  /-- The files that are running, the innermost first. -/
  includes : List String
  /-- The directory from which files are included. -/
  baseDir : String
  /-- How many loops and switches are around the line, in its function or file. -/
  loopDepth : Nat
  screen : ScreenTracker
  world : σ

/-- A computation of a run. -/
abbrev Run (σ α : Type) := ExceptT RunError (StateT (Session σ) Option) α

/-- What a run is done with. -/
structure Runner (σ : Type) where
  machine : Machine σ
  debugger : Option (Debugger σ)
  settings : Settings
  files : FileSystem
  /-- The files in a state of the world. Unless this says otherwise they stay as
      they are. -/
  filesIn : σ → FileSystem := fun _ => files

namespace Session

/-- A session in which nothing has run. -/
def start {σ : Type} (scope : Scope) (world : σ) : Session σ :=
  { line := 0, scope, calls := [], started := 0, linesExecuted := 0, functions := []
    includes := [], baseDir := ".", loopDepth := 0, screen := .empty, world }

/-- The name by which a file counts as running: its canonical path, or the path
    as it is given if there is no such file. -/
def fileKey (files : FileSystem) (path : String) : String :=
  (files.canonical? path).getD path

/-- The session for the script at a path: files are included from its directory,
    and it counts as running itself. -/
def atScript {σ : Type} (s : Session σ) (files : FileSystem) (path : String) : Session σ :=
  let baseDir :=
    match Path.parent? path with
    | some dir => if dir.isEmpty then s.baseDir else dir
    | none => s.baseDir
  { s with baseDir, includes := fileKey files path :: s.includes }

/-- The session in which the body of a function begins that is called. -/
def inCall {σ : Type} (s : Session σ) (call : Call) : Session σ :=
  { s with
    scope := s.scope.withArguments call.args
    loopDepth := 0
    calls := call :: s.calls }

/-- The session in which a file begins that is included from a path and counts
    as running under `key`. -/
def inFile {σ : Type} (s : Session σ) (path key : String) : Session σ :=
  { s with
    baseDir := (Path.parent? path).getD ""
    loopDepth := 0
    includes := key :: s.includes }

/-- Whether a function can be called. -/
def hasFunction {σ : Type} (s : Session σ) (name : String) : Bool :=
  s.functions.any (·.name == name)

end Session

namespace Run

variable {σ α : Type}

/-- The computation for which the fuel is not enough. -/
def outOfFuel : Run σ α := ExceptT.mk fun _ => none

/-- Runs a computation and gives its outcome, be it a result or an error. -/
def attempt (x : Run σ α) : Run σ (Except RunError α) :=
  ExceptT.mk (do return .ok (← x.run))

/-- Goes on with the outcome of a computation. -/
def settle (outcome : Except RunError α) : Run σ α :=
  ExceptT.mk (pure outcome)

/-- Runs a computation in a session that is changed by `enter`. Afterwards, also
    if it failed, `leave` gets the session from before and the one it left. -/
def framed (enter : Session σ → Session σ) (leave : (before after : Session σ) → Session σ)
    (x : Run σ α) : Run σ α := do
  let before ← get
  set (enter before)
  let outcome ← attempt x
  modify (leave before)
  settle outcome

/-- The error of a computation with the number of a line. -/
def positioned (line : Nat) (x : Run σ α) : Run σ α := do
  match ← attempt x with
  | .ok a => return a
  | .error e => throw (e.positioned line)

end Run

end ConsoleScript
