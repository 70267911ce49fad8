-- SUMMARY: The command line program, as a function of its arguments and what is around it.
import ConsoleScript.Machine.DryRun
import ConsoleScript.Monitor
import ConsoleScript.Options
import ConsoleScript.Run.Exec

/-!
# The program

The program reads its options and the configuration, parses the script, and
then checks it, walks through it, or runs it on a machine behind a monitor. All
that it gets from outside is a value, the *host*, so that what it writes and
its exit code are a function of the arguments and the host.
-/

namespace ConsoleScript.Program

/-- What is around the program. The other side of a monitor's connection has
    states of type `π`. -/
structure Host (π : Type) where
  env : Variables
  files : FileSystem
  /-- Where the user's configuration file would be. -/
  userConfig : Option String
  /-- Standard input. -/
  input : List UInt8
  /-- The time of day, in seconds. -/
  seconds : Int
  /-- Connects to a monitor. -/
  dial : String → Except MachineError (Monitor.Connection π)
  /-- The other side of a connection. -/
  peer : Monitor.Peer π
  /-- Runs another program. -/
  execute : (program : String) → (args : List String) → Except SystemError ProgramRun

/-- What the program leaves behind. -/
structure Outcome (π : Type) where
  exitCode : Nat
  output : String
  complaints : String
  /-- Why the script failed, if it ran and did. -/
  error : Option RunError
  /-- The connection that was made. -/
  connection : Option (Monitor.Connection π)

/-- The outside world while a script runs. -/
structure World (κ : Type) where
  elapsed : Duration
  seconds : Int
  connection : κ
  stepper : Stepper

namespace World

variable {κ : Type}

/-- Lets time pass. -/
def sleep (d : Duration) (world : World κ) : World κ :=
  { world with elapsed := world.elapsed + d }

/-- The clock of a world. -/
def clock : Clock (World κ) where
  elapsed world := world.elapsed
  seconds world := world.seconds + Int.ofNat (world.elapsed / 1000)

/-- The stepper of a world. -/
def debugger : Debugger (World κ) :=
  Stepper.debugger (·.stepper) fun stepper world => { world with stepper }

/-- An operation on the connection. -/
def onConnection {α : Type} (op : Operation κ α) : Operation (World κ) α := fun world =>
  let (outcome, connection) := op world.connection
  (outcome, { world with connection })

end World

-- ---------------------------------------------------------------------------
-- Machines
-- ---------------------------------------------------------------------------

/-- The file in which the screen is recognised. -/
def imageFile : String := "<capture>"

/-- Whether there is room for the file of the screen: where the variable `TMPDIR`
    is set, it has to name a directory. -/
def imageRoom {π : Type} (host : Host π) : Except SystemError Unit :=
  match (host.env.get? "TMPDIR").filter (!·.isEmpty) with
  | none => .ok ()
  | some dir =>
    match host.files.resolve dir with
    | .error e => .error e
    | .ok place =>
      if host.files.node? place = some .directory then .ok () else .error .notADirectory

/-- The machine of a dry run, whose narration is not kept. -/
def dryMachine : Machine (World Unit) :=
  DryRun.machine (fun _ world => world) World.clock

/-- The machine behind a monitor. -/
def liveMachine {π : Type} (host : Host π) (config : Config) :
    Machine (World (Monitor.Connection π)) :=
  let monitor := Monitor.Connection.transport host.peer
  let transport : Transport (World (Monitor.Connection π)) :=
    { pressKey := fun key => World.onConnection (monitor.pressKey key)
      screendump := fun path format => World.onConnection (monitor.screendump path format) }
  let recognise := fun image world =>
    match config.ocr.rowsOf (host.execute config.ocr.program (config.ocr.arguments image)) with
    | .ok rows => (.ok rows, world)
    | .error e => (.error (.ocr e), world)
  let machine := Live.machine transport recognise imageFile World.sleep config.keyDelay World.clock
  let capture := fun world =>
    match imageRoom host with
    | .error e => (.error (.io e), world)
    | .ok () => machine.capture world
  { machine with capture }

-- ---------------------------------------------------------------------------
-- Stages of the program
-- ---------------------------------------------------------------------------

/-- The configuration file that the options choose. -/
def configPath? {π : Type} (host : Host π) : ConfigChoice → Option String
  | .skip => none
  | .file path => some path
  | .search => host.userConfig.filter host.files.pathExists

/-- The configuration, or what to complain about. -/
def readConfig {π : Type} (host : Host π) (options : Options) : Except String Config :=
  match configPath? host options.config with
  | none => .ok .standard
  | some path =>
    match host.files.readText path with
    | .error e => .error ("cannot read config " ++ path ++ ": " ++ e.message)
    | .ok text => .ok (Config.read text).1

/-- The scope that a script starts in: the environment, the variables of the
    configuration, and those of the options. -/
def initialScope (env : Variables) (config : Config) (options : Options) : Scope :=
  let bindAll := fun (vars : Variables) (entries : List (String × String)) =>
    entries.foldl (fun vars entry => vars.set entry.1 entry.2) vars
  ⟨env, bindAll (bindAll .empty config.bindings.entries) options.defines, .empty⟩

/-- Whether the user wants colours: the variable `NO_COLOR` is not set, or empty. -/
def wantsColours (env : Variables) : Bool :=
  ((env.get? "NO_COLOR").getD "").isEmpty

/-- A text and a line feed. -/
def line (text : String) : String := text ++ "\n"

/-- A complaint of the program. -/
def complaint (text : String) : String := line ("vmscript: " ++ text)

/-- The exit code of the program for that of a script. -/
def exitByte (code : Int) : Nat :=
  if 0 ≤ code ∧ code ≤ 255 then code.toNat else 1

/-- Runs a script on a machine. -/
def runOn {κ : Type} (machine : Machine (World κ)) (files : FileSystem) (fuel : Nat)
    (options : Options) (settings : Settings) (scope : Scope) (script : Script)
    (world : World κ) : Option (Runner.Report × World κ) :=
  let runner : Runner (World κ) :=
    { machine, settings, files
      debugger := if options.debugging then some World.debugger else none }
  let session := (Session.start scope world).atScript files options.script
  (runner.execute fuel script session).map fun (report, s) => (report, s.world)

/-- What a run leaves behind. -/
def conclude {π κ : Type} (connection : κ → Option (Monitor.Connection π))
    (result : Runner.Report × World κ) : Outcome π :=
  let (report, world) := result
  { exitCode := exitByte report.exitCode
    output := ""
    complaints := world.stepper.output ++
      (match report.error with
        | some e => complaint e.message
        | none => "")
    error := report.error
    connection := connection world.connection }

/-- A program that fails before anything runs. -/
def fail {π : Type} (text : String) : Outcome π := ⟨1, "", complaint text, none, none⟩

/-- Checks a script. -/
def check {π : Type} (options : Options) (script : Script) (scope : Scope) : Outcome π :=
  let issues := script.validate scope
  ⟨if issues.any (·.isError) then 1 else 0,
    String.join (issues.map fun issue => line (options.script ++ ":" ++ issue.text)), "", none, none⟩

/-- Runs a parsed script as the options say. -/
def perform {π : Type} (host : Host π) (fuel : Nat) (options : Options) (config : Config)
    (scope : Scope) (script : Script) : Option (Outcome π) :=
  let settings :=
    match options.timeout with
    | some timeout => { config.settings with timeout := some timeout }
    | none => config.settings
  let stepper := Stepper.start (wantsColours host.env) options.step options.breakpoints host.input
  if options.dryRun then
    (runOn dryMachine host.files fuel options settings scope script
      ⟨0, host.seconds, (), stepper⟩).map (conclude fun _ => none)
  else
    match options.monitor <|> config.monitor with
    | none =>
      some (fail "no monitor address: pass -m<addr> or set 'monitor' in the config file")
    | some address =>
      match host.dial address with
      | .error e => some (fail ("monitor " ++ address ++ ": " ++ e.message))
      | .ok connection =>
        (runOn (liveMachine host config) host.files fuel options settings scope script
          ⟨0, host.seconds, connection, stepper⟩).map (conclude some)

/-- Runs the program with options that could be read. -/
def runWith {π : Type} (host : Host π) (fuel : Nat) (options : Options) : Option (Outcome π) :=
  match readConfig host options with
  | .error e => some (fail e)
  | .ok config =>
    let scope := initialScope host.env config options
    match host.files.readText options.script with
    | .error e => some (fail ("cannot read " ++ options.script ++ ": " ++ e.message))
    | .ok text =>
      match Script.parse host.seconds scope text with
      | (.error e, _) => some (fail (options.script ++ ": " ++ e.message))
      | (.ok script, parsed) =>
        if options.check then some (check options script parsed)
        else perform host fuel options config scope script

/-- Runs the program. -/
def run {π : Type} (host : Host π) (fuel : Nat) (args : List String) : Option (Outcome π) :=
  match Options.read args with
  | .error e => some ⟨2, "", complaint e.message ++ line Options.usage, none, none⟩
  | .ok options => runWith host fuel options

end ConsoleScript.Program
