-- SUMMARY: Running statements: actions, conditions, loops, switches, calls and included files.
import ConsoleScript.Run.Operate
import ConsoleScript.Script.Parse

/-!
# Running statements

Each kind of statement is described given `body`, the running of a list of
statements inside it, and `exec` ties the knot: it gives each level of nesting,
be it by a block, a call or an included file, one unit of fuel less.

A dry run goes through both parts of a condition and all cases of a switch, and
once through the body of a loop, and tells what it passes.
-/

namespace ConsoleScript.Runner

variable {σ : Type}

/-- The running of a list of statements. It gives the signal that ended it. -/
abbrev Body (σ : Type) := List Stmt → Run σ (Option Signal)

/-- Runs the body of a loop or a switch, which a break leaves. -/
def breakable (body : Body σ) (stmts : List Stmt) : Run σ (Option Signal) :=
  Run.framed (fun s => { s with loopDepth := s.loopDepth + 1 })
    (fun _ after => { after with loopDepth := after.loopDepth - 1 }) (body stmts)

/-- Runs a body which a break ends. -/
def once (body : Body σ) (stmts : List Stmt) : Run σ (Option Signal) := do
  return Signal.outsideLoop (← breakable body stmts)

-- ---------------------------------------------------------------------------
-- Conditions
-- ---------------------------------------------------------------------------

/-- The word of a condition. -/
def conditionWord : Presence → String
  | .found => "if-found"
  | .notFound => "if-not-found"

/-- Runs one of two lists of statements, or both in a dry run. -/
def branch (r : Runner σ) (fuel : Nat) (body : Body σ) (c : Condition) (yes no : List Stmt) :
    Run σ (Option Signal) := do
  let text ← r.expand c.text
  if r.machine.isDryRun then
    let head := conditionWord c.presence ++ " " ++ Text.quoted text
    r.narrate (head ++ " (up to " ++ c.timeout.text ++ "): then-branch")
    match ← body yes with
    | some signal => return some signal
    | none =>
      if !no.isEmpty then r.narrate (head ++ ": else-branch")
      body no
  else
    let start ← r.clockTime
    let found ← r.pollFor text c.timeout start fuel
    body (if c.presence.agrees found then yes else no)

-- ---------------------------------------------------------------------------
-- Loops
-- ---------------------------------------------------------------------------

/-- Runs a body until it does not fail, with `left` attempts left of `total`. -/
def retry (r : Runner σ) (body : Body σ) (stmts : List Stmt) (total : Nat) :
    (left : Nat) → Run σ (Option Signal)
  | 0 => return none
  | left + 1 => do
    match ← Run.attempt (breakable body stmts) with
    | .ok signal => return Signal.outsideLoop signal
    | .error e =>
      if e.isFatal then throw e
      else if left = 0 then throw (.retryExhausted total e)
      else
        r.sleep r.settings.retryDelay
        retry r body stmts total left

/-- Runs a body `left` times more, of `total`. -/
def repeatTimes (body : Body σ) (stmts : List Stmt) (total : Nat) :
    (left : Nat) → Run σ (Option Signal)
  | 0 => return none
  | left + 1 => do
    match ← Run.attempt (breakable body stmts) with
    | .ok (some .doBreak) => return none
    | .ok (some signal) => return some signal
    | .ok none => repeatTimes body stmts total left
    | .error e => if e.isFatal then throw e else throw (.repeatFailed (total - left) total e)

/-- Runs a body once for each look at the screen that finds the text present, or
    absent, until one does not, or the time since `start` is over. -/
def whileScreen (r : Runner σ) (body : Body σ) (stmts : List Stmt) (presence : Presence)
    (text : String) (timeout poll start : Duration) : (fuel : Nat) → Run σ (Option Signal)
  | 0 => Run.outOfFuel
  | fuel + 1 => do
    let found ← r.probe text
    if found.any fun found => !presence.agrees found then return none
    else
      match ← (if found.isSome then breakable body stmts else pure none) with
      | some signal => return Signal.outsideLoop (some signal)
      | none =>
        let elapsed ← r.elapsedSince start
        if timeout ≤ elapsed then throw (.whileTimeout presence text timeout elapsed)
        else
          r.sleep (min poll (timeout - elapsed))
          whileScreen r body stmts presence text timeout poll start fuel

/-- The word of a polling loop. -/
def whileWord : Presence → String
  | .found => "while-found"
  | .notFound => "while-not-found"

/-- Runs a loop, or its body once in a dry run. -/
def loop (r : Runner σ) (fuel : Nat) (body : Body σ) (stmts : List Stmt) :
    Loop → Run σ (Option Signal)
  | .retry attempts => do
    if r.machine.isDryRun then
      r.narrate ("retry up to " ++ toString attempts ++ " times")
      once body stmts
    else r.retry body stmts attempts attempts
  | .repeatTimes count => do
    if r.machine.isDryRun then
      r.narrate ("repeat " ++ toString count ++ " times")
      once body stmts
    else repeatTimes body stmts count count
  | .whileScreen presence text timeout poll => do
    let text ← r.expand text
    let poll := poll.getD r.settings.poll
    if r.machine.isDryRun then
      r.narrate (whileWord presence ++ " " ++ Text.quoted text ++ " (up to " ++ timeout.text ++
        ", every " ++ poll.text ++ ")")
      once body stmts
    else
      let start ← r.clockTime
      r.whileScreen body stmts presence text timeout poll start fuel

-- ---------------------------------------------------------------------------
-- Switches
-- ---------------------------------------------------------------------------

/-- Goes through the cases of a switch in a dry run, up to a signal. -/
def tellCases (r : Runner σ) (body : Body σ) :
    List (Case Stmt × String) → Run σ (Option Signal)
  | [] => return none
  | (c, pattern) :: rest => do
    r.narrate ("case " ++ Text.quoted pattern)
    match ← once body c.body with
    | some signal => return some signal
    | none => tellCases r body rest

/-- Runs the case of a switch that the screen shows, or its default. -/
def switch (r : Runner σ) (fuel : Nat) (body : Body σ) (options : SwitchOptions)
    (cases : List (Case Stmt)) (otherwise : Option (List Stmt)) : Run σ (Option Signal) := do
  let timeout := options.timeout.getD r.settings.switchTimeout
  let poll := options.poll.getD r.settings.poll
  let patterns ← r.expandAll (cases.map (·.pattern))
  if r.machine.isDryRun then
    r.narrate ("switch over " ++ toString cases.length ++ " cases (up to " ++ timeout.text ++ ")")
    match ← r.tellCases body (cases.zip patterns) with
    | some signal => return some signal
    | none =>
      match otherwise with
      | some stmts =>
        r.narrate "default case"
        once body stmts
      | none => return none
  else
    let start ← r.clockTime
    match (← r.pollCases patterns timeout poll start fuel).bind (cases[·]?) with
    | some c => once body c.body
    | none =>
      match otherwise with
      | some stmts => once body stmts
      | none => return none

-- ---------------------------------------------------------------------------
-- Calls and files
-- ---------------------------------------------------------------------------

/-- Runs the body of a function in a scope of its own. -/
def enterFunction (body : Body σ) (call : Call) (stmts : List Stmt) : Run σ (Option Signal) := do
  let signal ← Run.framed (·.inCall call)
    (fun before after => { after with
      scope := before.scope
      loopDepth := before.loopDepth
      calls := after.calls.tail })
    (body stmts)
  return Signal.outsideFrame signal

/-- Runs the body of a function, but a dry run does not enter a function that it
    is in already. -/
def invoke (r : Runner σ) (body : Body σ) (call : Call) (stmts : List Stmt) :
    Run σ (Option Signal) := do
  if r.machine.isDryRun then
    r.narrate ("call " ++ call.name ++ " " ++ Text.quotedList call.args)
    if (← get).calls.any (·.name == call.name) then
      r.narrate (call.name ++ " is recursive; not expanded again")
      return none
    else enterFunction body call stmts
  else enterFunction body call stmts

/-- Calls a function. -/
def call (r : Runner σ) (body : Body σ) (line : Nat) (name : String) (args : List String) :
    Run σ (Option Signal) := do
  match (← get).functions.find? (·.name == name) with
  | none => throw (.undefinedFunction name)
  | some f =>
    let args ← r.expandAll args
    r.invoke body ⟨name, args, line⟩ f.body

/-- Runs the statements of a file that counts as running under `key`. -/
def enterFile (body : Body σ) (path key : String) (stmts : List Stmt) : Run σ (Option Signal) := do
  let signal ← Run.framed (·.inFile path key)
    (fun before after => { after with
      baseDir := before.baseDir
      loopDepth := before.loopDepth
      includes := after.includes.tail })
    (body stmts)
  return Signal.outsideFrame signal

/-- Runs another file in the scope at hand. Its functions can be called from
    then on. -/
def includeFile (r : Runner σ) (body : Body σ) (path : String) : Run σ (Option Signal) := do
  let path ← r.expand path
  let s ← get
  let files := r.filesIn s.world
  let resolved := Path.join s.baseDir path
  let key := Session.fileKey files resolved
  if s.includes.any (Path.alike key) then throw (.includeCycle resolved)
  else
    match files.readText resolved with
    | .error e => throw (.includeUnreadable resolved e)
    | .ok text =>
      match (Script.parse (r.machine.clock.seconds s.world) s.scope text).1 with
      | .error e => throw (.includeMalformed resolved e)
      | .ok script =>
        modify fun s => { s with functions := script.functions ++ s.functions }
        enterFile body resolved key script.body

-- ---------------------------------------------------------------------------
-- Statements
-- ---------------------------------------------------------------------------

/-- Runs an action. -/
def action (r : Runner σ) (fuel : Nat) (body : Body σ) (line : Nat) :
    Action → Run σ (Option Signal)
  | .key name => do
    match KeyCode.ofName? name with
    | none => throw (.unknownKey name)
    | some key =>
      operate (r.machine.pressKey key)
      return none
  | .watch text timeout => do
    let text ← r.expand text
    let timeout := timeout.getD r.settings.watchTimeout
    if r.machine.isDryRun then
      r.narrate ("wait up to " ++ timeout.text ++ " for " ++ Text.quoted text)
    else r.watch fuel text timeout
    return none
  | .console number => do
    operate (r.machine.switchConsole number)
    return none
  | .wait duration => do
    r.sleep duration
    return none
  | .exit code => return some (.exit code)
  | .endIf => return none
  | .doReturn => return some .doReturn
  | .doBreak => do
    let debugging ← r.isDebugging
    if 0 < (← get).loopDepth ∧ ¬debugging then return some .doBreak else return none
  | .includeFile path => r.includeFile body path
  | .screenshot path format => do
    let path ← r.expand path
    operate (r.machine.screenshot path format)
    return none
  | .call name args => r.call body line name args
  | .bind name value => do
    let value ← r.expand value
    bind name value
    return none

/-- Runs a line without a directive. -/
def plain (r : Runner σ) (line : Line) : Run σ (Option Signal) := do
  match line.kind with
  | .text =>
    let text ← r.expand line.trimmed
    operate (r.machine.typeText (text ++ "\n"))
    return none
  | .assignment =>
    r.assign line.trimmed
    return none
  | .directive | .conditional => throw .missingDirective
  | .comment | .blank => return none

/-- Runs a statement, without what comes before and after every line. -/
def dispatch (r : Runner σ) (fuel : Nat) (body : Body σ) : Stmt → Run σ (Option Signal)
  | .plain line => r.plain line
  | .action line a => r.action fuel body line.number a
  | .loop _ l stmts => r.loop fuel body stmts l
  | .branch _ c yes no => r.branch fuel body c yes no
  | .switch _ options cases otherwise => r.switch fuel body options cases otherwise

/-- What comes before a statement: the deadline is checked and the debugger asked. -/
def approach (r : Runner σ) (s : Stmt) : Run σ Unit := do
  r.checkDeadline
  modify fun session => { session with line := s.line.number }
  r.consult s.entry

/-- Runs a statement. An error gets the number of the line, and a line that
    succeeds is counted. -/
def stmt (r : Runner σ) (fuel : Nat) (body : Body σ) (s : Stmt) : Run σ (Option Signal) := do
  if s.line.kind.isSkipped then return none
  else
    r.approach s
    let signal ← Run.positioned s.line.number (r.dispatch fuel body s)
    modify fun session => { session with linesExecuted := session.linesExecuted + 1 }
    return signal

/-- Runs statements one after the other, up to a signal. -/
def stmts (one : Stmt → Run σ (Option Signal)) : List Stmt → Run σ (Option Signal)
  | [] => return none
  | s :: rest => do
    match ← one s with
    | some signal => return some signal
    | none => stmts one rest

/-- Runs a list of statements. -/
def exec (r : Runner σ) : (fuel : Nat) → Body σ
  | 0 => fun _ => Run.outOfFuel
  | fuel + 1 => stmts (r.stmt fuel (exec r fuel))

-- ---------------------------------------------------------------------------
-- Runs
-- ---------------------------------------------------------------------------

/-- The outcome of a run. -/
structure Report where
  exitCode : Int
  linesExecuted : Nat
  duration : Duration
  error : Option RunError
  /-- What was found before a dry run. -/
  issues : List Issue
  deriving DecidableEq, Repr

/-- Whether a run ended as it should. -/
def Report.success (report : Report) : Bool :=
  report.exitCode == 0 && report.error.isNone

/-- The report on the outcome of a run. -/
def report (r : Runner σ) (s : Session σ) (issues : List Issue)
    (outcome : Except RunError (Option Signal)) : Report :=
  let (exitCode, error) :=
    match outcome with
    | .ok (some (.exit code)) => (code, none)
    | .ok _ => (0, none)
    | .error e => (e.exitCode, some e)
  ⟨exitCode, s.linesExecuted, r.machine.clock.elapsed s.world - s.started, error, issues⟩

/-- The session in which a script begins to run. -/
def beginScript (r : Runner σ) (script : Script) (s : Session σ) : Session σ :=
  { s with
    started := r.machine.clock.elapsed s.world
    linesExecuted := 0
    functions := script.functions }

/-- Runs a script. A dry run is preceded by a validation, and does not begin if
    that finds errors. -/
def execute (r : Runner σ) (fuel : Nat) (script : Script) (s : Session σ) :
    Option (Report × Session σ) :=
  let s := r.beginScript script s
  let issues := if r.machine.isDryRun then script.validate s.scope else []
  let errors := issues.filter (·.isError)
  if errors.isEmpty then
    match (r.exec fuel script.body).run s with
    | none => none
    | some (outcome, s) => some (r.report s issues outcome, s)
  else some (r.report s issues (.error (.invalid errors)), s)

end ConsoleScript.Runner
