-- SUMMARY: Scripted stand-ins for what is outside: the other side of a monitor, and programs.
import ConsoleScript.FileSystem
import ConsoleScript.Monitor
import ConsoleScript.Rehearsal.Host

/-!
# Partners

Stand-ins for what a run talks to. A *partner* plays the other side of a
monitor's connection: it answers each command with the next of its replies, and
then repeats commands back, or falls silent. A program is played by what it
leaves behind.
-/

namespace ConsoleScript.Rehearsal

open Monitor (Received Peer)

-- ---------------------------------------------------------------------------
-- Partners
-- ---------------------------------------------------------------------------

/-- The other side of a monitor's connection. -/
structure Partner where
  /-- What it sends after each of the next commands, in pieces. -/
  replies : List (List (List UInt8))
  /-- Whether it repeats a command for which it has no reply. -/
  echo : Bool
  /-- Whether it has ended the connection. -/
  closed : Bool
  /-- What was written to it, the last first. -/
  written : List String

/-- The most that one read gives. -/
def readSize : Nat := 4096

/-- Bytes cut into reads. `room` is how many more the first one can take. -/
def cutReads (room : Nat) : List UInt8 → List (List UInt8)
  | [] => []
  | b :: rest =>
    match room, cutReads (if room ≤ 1 then readSize else room - 1) rest with
    | 0, reads => [b] :: reads
    | 1, reads => [b] :: reads
    | _, [] => [[b]]
    | _, read :: reads => (b :: read) :: reads

/-- What reads give of a piece. An empty piece ends the connection. -/
def reads (piece : List UInt8) : List Received :=
  if piece.isEmpty then [.bytes []] else (cutReads readSize piece).map .bytes

/-- A command as the monitor repeats it, with the prompt. -/
def echoOf (command : String) : List UInt8 :=
  Text.Utf8.encode (Text.trim command ++ "\r\n") ++ Monitor.prompt

/-- The lines of a command, each with its line feed. What follows the last line
    feed is no line. -/
def commandLines (command : String) : List String :=
  (Text.pieces '\n' command.toList).dropLast.map fun line => String.ofList (line ++ ['\n'])

namespace Partner

/-- A partner to whom nothing has been written. -/
def start (replies : List (List (List UInt8))) (echo closed : Bool) : Partner :=
  ⟨replies, echo, closed, []⟩

/-- Notes a command, and gives the reply to it, if there is one. -/
def hear (p : Partner) (command : String) : Option (List (List UInt8)) × Partner :=
  let p := { p with written := command :: p.written }
  match p.replies with
  | reply :: replies => (some reply, { p with replies })
  | [] => (if p.echo then some [echoOf command] else none, p)

/-- The partner at the end of a pipe: each piece of a reply is a read of its
    own, and without a reply there is nothing to read. -/
def pipe : Peer Partner := fun command p =>
  let (reply, p) := p.hear command
  (.ok ((reply.getD []).flatMap reads), p)

/-- What is read after all that the partner has sent: the end of the connection,
    or a silence. -/
def afterwards (p : Partner) : List Received :=
  if p.closed then [] else [.silence]

/-- Hears lines one after the other. The pieces of a reply arrive together, and a
    line for which there is no reply makes the partner end the connection. -/
def hearLines : List String → Partner → List Received × Partner
  | [], p => ([], p)
  | line :: rest, p =>
    match p.hear line with
    | (none, p) => ([], { p with closed := true })
    | (some reply, p) =>
      let (later, p) := hearLines rest p
      ((cutReads readSize reply.flatten).map .bytes ++ later, p)

/-- The partner behind a socket, which hears each line of a command as one of its
    own. -/
def socket : Peer Partner := fun command p =>
  if p.closed then (.error .brokenPipe, p)
  else
    let (received, p) := hearLines (commandLines command) p
    (.ok (received ++ p.afterwards), p)

end Partner

-- ---------------------------------------------------------------------------
-- Addresses
-- ---------------------------------------------------------------------------

/-- The longest path of a socket, in bytes. -/
def maxSocketPath : Nat := 107

/-- Whether something listens at an address, where sockets are files and no
    network can be reached. A host in square brackets needs a service of digits
    only. -/
def reach (files : FileSystem) : Monitor.Address → Except SystemError Unit
  | .socketFile path =>
    if Text.hasEndMark path then .error .endMarkInSocketPath
    else if maxSocketPath < (Text.Utf8.encode path).length then .error .socketPathTooLong
    else if path.isEmpty then .error .invalidArgument
    else
      match files.resolve path with
      | .error e => .error e
      | .ok place =>
        if files.node? place = some .socket then .ok () else .error .connectionRefused
  | .network host service =>
    if (Text.readNat? 65535 service).isNone then .error .badService
    else if Text.hasEndMark host then .error .endMarkInPath
    else
      match Host.inBrackets? host.toList, service.toList.all Char.isDigit with
      | some number, true => .error number.failure
      | _, _ => .error (Host.ofString host).failure
  | .incomplete => .error .noService

/-- Connects to an address at which a partner listens that sends a greeting. -/
def dial (files : FileSystem) (partner : Partner) (greeting : List UInt8) (address : String) :
    Except MachineError (Monitor.Connection Partner) :=
  match reach files (.ofString address) with
  | .error e => .error (.io e)
  | .ok () =>
    Monitor.connect partner ((cutReads readSize greeting).map .bytes ++ partner.afterwards)

-- ---------------------------------------------------------------------------
-- Programs
-- ---------------------------------------------------------------------------

/-- Runs a program. The file at `runnable` is the only one that can be run, and
    a name without a slash is looked for elsewhere, where there are directories
    only. -/
def runProgram (files : FileSystem) (runnable : Option (List String)) (result : ProgramRun)
    (program : String) (args : List String) : Except SystemError ProgramRun :=
  if (program :: args).any Text.hasEndMark then .error .endMarkInArgument
  else if program.toList.contains '/' then
    match files.resolve program with
    | .error e => .error e
    | .ok place => if runnable = some place then .ok result else .error .permissionDenied
  else if FileSystem.maxName < (Text.Utf8.encode program).length then .error .nameTooLong
  else if program = "." || program = ".." then .error .permissionDenied
  else .error .notFound

end ConsoleScript.Rehearsal
