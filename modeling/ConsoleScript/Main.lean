-- SUMMARY: The command line: gathers what the program needs and prints what it leaves behind.
import ConsoleScript.Program
import Std.Time

/-!
# The command line

The program itself is a function of its host. Here the host is gathered from
the process: the environment, standard input, the time of day and the files.
Files are loaded as they turn out to be needed: the configuration and the
script at first, and each included file when a run fails for lack of it. There
is no way from here to a monitor, so that scripts can be checked and walked
through, and every address is refused.
-/

namespace ConsoleScript.Main

/-- How much fuel a run gets. -/
def fuel : Nat := 10000000

/-- The parts of a list between zeros. -/
def splitAtZero : List UInt8 → List (List UInt8)
  | [] => [[]]
  | b :: rest =>
    if b = 0 then [] :: splitAtZero rest
    else
      match splitAtZero rest with
      | [] => [[b]]
      | part :: parts => (b :: part) :: parts

/-- The variables of an environment, from its entries `NAME=value` between
    zeros. Entries that are no text are left out. -/
def environmentOf (bytes : List UInt8) : Variables :=
  .ofList ((splitAtZero bytes).filterMap fun entry =>
    (Text.Utf8.decode? entry).bind Config.splitAtEquals?)

/-- Where the user's configuration file would be. -/
def userConfig? (env : Variables) : Option String :=
  let dir :=
    match (env.get? "XDG_CONFIG_HOME").filter Path.isAbsolute with
    | some dir => some dir
    | none => (env.get? "HOME").map fun home => Path.join home ".config"
  dir.map fun dir => Path.join dir "vmscript/vmscript.conf"

/-- Adds the file or the directory at a path, if there is one. -/
def load (fs : FileSystem) (path : String) : IO FileSystem := do
  try
    let bytes ← IO.FS.readBinFile path
    return fs.insert path (.file bytes.toList)
  catch _ =>
    if ← ((← IO.currentDir) / path).isDir then return fs.insert path .directory else return fs

/-- All that is left of a stream. -/
partial def drain (stream : IO.FS.Stream) (seen : ByteArray) : IO ByteArray := do
  let bytes ← stream.read 65536
  if bytes.isEmpty then return seen else drain stream (seen ++ bytes)

/-- All of standard input, if the options ask for a debugger. -/
def readInput (options : Option Options) : IO (List UInt8) := do
  if options.any (·.debugging) then
    return (← drain (← IO.getStdin) .empty).toList
  else return []

/-- A host without a way to monitors and other programs. -/
def hostOf (env : Variables) (files : FileSystem) (input : List UInt8) (seconds : Int) :
    Program.Host Unit where
  env := env
  files := files
  userConfig := userConfig? env
  input := input
  seconds := seconds
  dial _ := .error (.io .connectionRefused)
  peer _ _ := (.error .brokenPipe, ())
  execute _ _ := .error .notFound

/-- Runs the program, and again with each file that turns out to be missing. -/
partial def settle (args : List String) (host : Program.Host Unit) (tried : List String) :
    IO (Option (Program.Outcome Unit)) := do
  let outcome := Program.run host fuel args
  match outcome.bind fun out => out.error.bind RunError.missingFile? with
  | none => return outcome
  | some path =>
    if tried.contains path then return outcome
    else settle args { host with files := ← load host.files path } (path :: tried)

end ConsoleScript.Main

open ConsoleScript in
def main (args : List String) : IO UInt32 := do
  let env := Main.environmentOf (← IO.FS.readBinFile "/proc/self/environ").toList
  let working := Path.components (← IO.currentDir).toString
  let options := (Options.read args).toOption
  let chosen := match options.map (·.config) with
    | some (.file path) => some path
    | some .search => Main.userConfig? env
    | _ => none
  let wanted := chosen.toList ++ (options.map (·.script)).toList
  let files ← wanted.foldlM Main.load ⟨[], working⟩
  let seconds := (← Std.Time.Timestamp.now).toSecondsSinceUnixEpoch.val
  let host := Main.hostOf env files (← Main.readInput options) seconds
  match ← Main.settle args host [] with
  | none => return 1
  | some outcome =>
    IO.print outcome.output
    IO.eprint outcome.complaints
    return outcome.exitCode.toUInt32
