-- SUMMARY: The monitor protocol: commands, the framing of replies, and their meaning.
import ConsoleScript.Image
import ConsoleScript.Key
import ConsoleScript.Machine.Live
import ConsoleScript.Text.Utf8

/-!
# Monitors

A virtual machine is driven through its human monitor, which takes commands a
line at a time. It answers each one with some text and then its prompt. What it
sends arrives in pieces of any size; a reply is complete when the bytes that
were received end with the prompt.
-/

namespace ConsoleScript

/-- The bytes of the prompt `(qemu) `. -/
def Monitor.prompt : List UInt8 := [40, 113, 101, 109, 117, 41, 32]

namespace Monitor

-- ---------------------------------------------------------------------------
-- Commands
-- ---------------------------------------------------------------------------

/-- The command that presses a key. -/
def keyCommand (key : KeyCode) : String := "sendkey " ++ key.code ++ "\n"

/-- The command that writes the screen to a file. -/
def dumpCommand (path : String) : ImageFormat → String
  | .ppm => "screendump " ++ path ++ "\n"
  | .png => "screendump " ++ path ++ " -f png\n"

-- ---------------------------------------------------------------------------
-- Replies
-- ---------------------------------------------------------------------------

/-- Where `cleanFrom` stands in a reply. -/
inductive CleanState where
  | text
  /-- After an escape character. -/
  | escape
  /-- Inside a control sequence. -/
  | sequence
  deriving DecidableEq, Repr

/-- The characters of a reply without those of the monitor's line editor: its
    control sequences, escape characters and carriage returns. -/
def cleanFrom : CleanState → List Char → List Char
  | _, [] => []
  | .sequence, c :: rest => cleanFrom (if c.isAlpha then .text else .sequence) rest
  | .escape, '[' :: rest => cleanFrom .sequence rest
  | _, '\x1b' :: rest => cleanFrom .escape rest
  | _, '\r' :: rest => cleanFrom .text rest
  | _, c :: rest => c :: cleanFrom .text rest

/-- A reply without what the monitor's line editor adds. -/
def cleanReply (reply : String) : String :=
  String.ofList (cleanFrom .text reply.toList)

/-- The bytes received so far, and the reply if they make one. -/
def feed (buffer bytes : List UInt8) : Option String × List UInt8 :=
  let all := buffer ++ bytes
  if prompt.isSuffixOf all then
    (some (cleanReply (Text.Utf8.decodeLossy (all.take (all.length - prompt.length)))), [])
  else (none, all)

/-- What a reply contains if its command failed. -/
def complaints : List String :=
  ["unknown command", "Invalid parameter", "invalid", "Error", "error:"]

/-- The meaning of a reply. The monitor repeats the command, and only the other
    lines are its answer. -/
def check (command reply : String) : Except MachineError Unit :=
  let command := Text.trim command
  let answer := ((Text.lines reply).map Text.trim).filter fun line =>
    !line.isEmpty && line != command
  match answer.find? fun line => complaints.any (Text.contains line) with
  | some line => .error (.refused (command ++ ": " ++ line))
  | none => .ok ()

-- ---------------------------------------------------------------------------
-- Connections
-- ---------------------------------------------------------------------------

/-- What one read from a connection gives. -/
inductive Received where
  | bytes (bytes : List UInt8)
  /-- Nothing arrives for so long that the read is given up. -/
  | silence
  deriving DecidableEq, Repr

/-- The other side of a connection: what it sends after a command is written
    to it, or why the command cannot be written. -/
abbrev Peer (π : Type) := String → π → Except SystemError (List Received) × π

/-- A connection to a monitor whose other side is in the state `peer`. -/
structure Connection (π : Type) where
  /-- Bytes of a reply that is not complete. -/
  buffer : List UInt8
  /-- What the next reads give. After that the connection has ended. A silence
      stands last, and lasts until the other side sends again. -/
  incoming : List Received
  peer : π

/-- Reads until a reply is complete. An empty read means that the connection
    has ended. -/
def readReply (buffer : List UInt8) :
    List Received → Except SystemError String × List UInt8 × List Received
  | [] => (.error .closed, buffer, [])
  | .silence :: rest => (.error .wouldBlock, buffer, .silence :: rest)
  | .bytes [] :: rest => (.error .closed, buffer, rest)
  | .bytes bytes :: rest =>
    match feed buffer bytes with
    | (some reply, buffer) => (.ok reply, buffer, rest)
    | (none, buffer) => readReply buffer rest

namespace Connection

variable {π : Type}

/-- Reads a reply. -/
def receive (c : Connection π) : Except SystemError String × Connection π :=
  let (reply, buffer, incoming) := readReply c.buffer c.incoming
  (reply, { c with buffer, incoming })

/-- Writes a command and reads the reply to it. -/
def command (peer : Peer π) (text : String) (c : Connection π) :
    Except MachineError Unit × Connection π :=
  match peer text c.peer with
  | (.error e, state) => (.error (.io e), { c with peer := state })
  | (.ok received, state) =>
    let waiting := c.incoming.filter (· ≠ Received.silence)
    let c := { c with peer := state, incoming := waiting ++ received }
    match c.receive with
    | (.error e, c) => (.error (.io e), c)
    | (.ok reply, c) => (check text reply, c)

/-- The way to the machine behind a monitor. -/
def transport (peer : Peer π) : Transport (Connection π) where
  pressKey key := command peer (keyCommand key)
  screendump path format := command peer (dumpCommand path format)

end Connection

/-- A new connection on which the other side sends its greeting first. -/
def connect {π : Type} (peer : π) (greeting : List Received) :
    Except MachineError (Connection π) :=
  match Connection.receive ⟨[], greeting, peer⟩ with
  | (.error e, _) => .error (.io e)
  | (.ok _, c) => .ok c

-- ---------------------------------------------------------------------------
-- Addresses
-- ---------------------------------------------------------------------------

/-- Where a monitor listens. -/
inductive Address where
  | socketFile (path : String)
  | network (host service : String)
  /-- Neither a path nor a host with a service. -/
  | incomplete
  deriving DecidableEq, Repr

/-- Reads an address: `unix:` and a path, a path with a slash, or a host and the
    number of its service. -/
def Address.ofString (address : String) : Address :=
  match Text.dropStart? "unix:".toList address.toList with
  | some path => .socketFile (String.ofList path)
  | none =>
    if address.toList.contains '/' then .socketFile address
    else
      match Text.splitLast? ':' address.toList with
      | some (host, service) => .network (String.ofList host) (String.ofList service)
      | none => .incomplete

end Monitor

end ConsoleScript
