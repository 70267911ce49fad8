-- SUMMARY: Debuggers: what is asked before each line, and the one that reads commands from a terminal.
import ConsoleScript.Line
import ConsoleScript.SystemError
import ConsoleScript.Text.Utf8

/-!
# Debuggers

Before each line a debugger may stop the script. It shows the line, and decides
how to go on. As with machines, a debugger is given by what it does to the
state `σ` of the outside world.

The *stepper* is a debugger for a terminal. It stops at every line or at given
lines, and reads commands:

| Command            | Effect                                     |
|--------------------|--------------------------------------------|
| empty, `s`, `step` | run this line and stop at the next one     |
| `c`, `continue`    | run to the next line that is marked        |
| `b N`, `d N`       | mark a line, or no longer                  |
| `p NAME`           | show a variable                            |
| `shot PATH`        | take a screenshot, then run this line      |
| `q`, `quit`        | stop the script                            |
-/

namespace ConsoleScript

/-- How a script goes on after a debugger has stopped it. -/
inductive DebugAction where
  | step
  | proceed
  | stop
  | screenshot (path : String)
  deriving DecidableEq, Repr

/-- Why a debugger does not work. -/
inductive DebugError where
  | io (reason : String)
  deriving DecidableEq, Repr

/-- The wording of an error. -/
def DebugError.message : DebugError → String
  | .io reason => "debugger I/O error: " ++ reason

/-- A debugger in a world of type `σ`. -/
structure Debugger (σ : Type) where
  /-- A debugger that is not enabled is never asked. -/
  isEnabled : σ → Bool
  /-- Whether to stop before a line. -/
  stopsAt : Entry → σ → Bool
  /-- Decides how to go on from a line. -/
  decide : Entry → Scope → σ → Except DebugError DebugAction × σ

-- ---------------------------------------------------------------------------
-- The stepper
-- ---------------------------------------------------------------------------

/-- A debugger that reads commands. -/
structure Stepper where
  /-- Whether texts are shown in colours. -/
  colours : Bool
  /-- Whether to stop at every line. -/
  stepping : Bool
  /-- Lines to stop at, in increasing order. -/
  marks : List Nat
  /-- What is still to be read. -/
  input : List UInt8
  /-- What has been written. -/
  output : String
  deriving DecidableEq, Repr

namespace Stepper

/-- Inserts a number into an increasing list that may hold it already. -/
def insertMark (n : Nat) : List Nat → List Nat
  | [] => [n]
  | m :: rest =>
    if n < m then n :: m :: rest else if n = m then m :: rest else m :: insertMark n rest

/-- A stepper before its first line. -/
def start (colours stepping : Bool) (marks : List Nat) (input : List UInt8) : Stepper :=
  ⟨colours, stepping, marks.foldl (fun ms n => insertMark n ms) [], input, ""⟩

/-- Writes a text. -/
def write (s : Stepper) (text : String) : Stepper :=
  { s with output := s.output ++ text }

/-- A text in one of the terminal's colours. Without colours the control sequences
    stay, and choose none. -/
def coloured (s : Stepper) (colour : Nat) (text : String) : String :=
  let choice := if s.colours then "38;5;" ++ toString colour else ""
  "\x1b[" ++ choice ++ "m" ++ text ++ "\x1b[0m"

/-- A number in at least five places. -/
def padNumber (n : Nat) : String :=
  let digits := toString n
  String.ofList (List.replicate (5 - digits.length) ' ') ++ digits

/-- Shows a line, and what it expands to if that differs and the line is no
    directive. -/
def present (s : Stepper) (e : Entry) : Stepper :=
  let line := e.line
  let s := s.write (s.coloured 11 (padNumber line.number ++ " ") ++ line.trimmed ++ "\n")
  if line.expanded ≠ line.trimmed ∧ e.directive.isNone then
    s.write (s.coloured 8 ("      = " ++ line.expanded ++ "\n"))
  else s

/-- Tells something. -/
def note (s : Stepper) (text : String) : Stepper :=
  s.write (s.coloured 14 (text ++ "\n"))

/-- Asks for a command. -/
def ask (s : Stepper) : Stepper := s.write (s.coloured 10 "(debug) ")

/-- The first word of a command and the rest of it. -/
def splitCommand (input : String) : String × String :=
  let cs := input.toList
  let word := cs.takeWhile (!Text.isBlank ·)
  let rest := cs.dropWhile (!Text.isBlank ·)
  (String.ofList word, String.ofList (Text.trimChars rest))

/-- What a command does: it ends the dialogue, or leaves it going on. -/
def obey (s : Stepper) (scope : Scope) (input : String) : Option DebugAction × Stepper :=
  let (word, arg) := splitCommand input
  let help := s.note "commands: s(tep) c(ontinue) b N, d N, p NAME, shot PATH, q(uit)"
  if word ∈ ["", "s", "step"] then (some .step, { s with stepping := true })
  else if word ∈ ["c", "continue"] then (some .proceed, { s with stepping := false })
  else if word ∈ ["q", "quit"] then (some .stop, s)
  else if word ∈ ["shot", "screenshot"] then
    if arg.isEmpty then (none, help) else (some (.screenshot arg), s)
  else if word ∈ ["b", "break"] then
    match Text.readNat? Text.maxWord arg with
    | some n =>
      (none, note { s with marks := insertMark n s.marks } ("breakpoint at line " ++ toString n))
    | none => (none, s.note "usage: b N | d N")
  else if word ∈ ["d", "delete"] then
    match Text.readNat? Text.maxWord arg with
    | some n =>
      if s.marks.contains n then
        (none, note { s with marks := s.marks.erase n }
          ("deleted breakpoint at line " ++ toString n))
      else (none, s.note ("no breakpoint at line " ++ toString n))
    | none => (none, s.note "usage: b N | d N")
  else if word ∈ ["p", "print"] then
    if arg.isEmpty then (none, help)
    else
      match scope.get? arg with
      | some value => (none, s.note (arg ++ " = " ++ Text.quoted value))
      | none => (none, s.note (arg ++ " is not set"))
  else (none, help)

/-- The bytes up to and including the first line feed, each line in turn. -/
def inputLines : List UInt8 → List (List UInt8)
  | [] => []
  | b :: rest =>
    if b = 10 then [b] :: inputLines rest
    else
      match inputLines rest with
      | [] => [[b]]
      | line :: lines => (b :: line) :: lines

/-- Reads commands from the given lines until one ends the dialogue. At the end
    of the input the script is stopped, and a line that is no text is an error. -/
def converse (scope : Scope) (s : Stepper) :
    List (List UInt8) → Except DebugError DebugAction × Stepper
  | [] => (.ok .stop, { s.ask with input := [] })
  | line :: rest =>
    match Text.Utf8.decode? line with
    | none => (.error (.io SystemError.notText.message), { s.ask with input := rest.flatten })
    | some text =>
      match s.ask.obey scope (Text.trim text) with
      | (some action, s) => (.ok action, { s with input := rest.flatten })
      | (none, s) => converse scope s rest

/-- Whether the stepper stops before a line. -/
def stopsAt (s : Stepper) (e : Entry) : Bool :=
  s.stepping || s.marks.contains e.line.number

/-- Shows a line and reads commands. -/
def decide (e : Entry) (scope : Scope) (s : Stepper) :
    Except DebugError DebugAction × Stepper :=
  converse scope (s.present e) (inputLines s.input)

/-- The stepper as a debugger of a world that holds it. -/
def debugger {σ : Type} (get : σ → Stepper) (put : Stepper → σ → σ) : Debugger σ where
  isEnabled _ := true
  stopsAt e world := (get world).stopsAt e
  decide e scope world :=
    let (result, s) := Stepper.decide e scope (get world)
    (result, put s world)

end Stepper

end ConsoleScript
