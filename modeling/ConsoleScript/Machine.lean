-- SUMMARY: What a script needs from the outside world: keys, text, screens and time.
import ConsoleScript.Image
import ConsoleScript.Key
import ConsoleScript.Ocr
import ConsoleScript.Duration

/-!
# Machines

A script runs against a machine: something that takes text and keys, shows
screens, and has a clock. A machine is given by what each of its operations
does to the state `σ` of the outside world, so that everything said about the
execution of scripts holds for every behaviour of the machine.
-/

namespace ConsoleScript

/-- Why a machine did not do as it was told. -/
inductive MachineError where
  | io (cause : SystemError)
  /-- The machine refused. -/
  | refused (reason : String)
  | ocr (cause : OcrError)
  deriving DecidableEq, Repr

/-- The wording of an error. -/
def MachineError.message : MachineError → String
  | .io cause => "transport I/O error: " ++ cause.message
  | .refused reason => "transport error: " ++ reason
  | .ocr cause => cause.message

/-- An operation on the outside world that may fail. -/
abbrev Operation (σ α : Type) := σ → Except MachineError α × σ

/-- A clock of the outside world. -/
structure Clock (σ : Type) where
  /-- The time that has passed, which never goes back. -/
  elapsed : σ → Duration
  /-- The time of day, in seconds since the start of 1970. -/
  seconds : σ → Int

/-- What a script needs from the outside world. -/
structure Machine (σ : Type) where
  /-- Types a text. A line feed presses Enter. -/
  typeText : String → Operation σ Unit
  pressKey : KeyCode → Operation σ Unit
  /-- Switches to a virtual console. -/
  switchConsole : Nat → Operation σ Unit
  /-- Lets time pass. -/
  wait : Duration → σ → σ
  /-- Writes the screen to a file. -/
  screenshot : String → ImageFormat → Operation σ Unit
  /-- Reads the rows of the screen. -/
  capture : Operation σ Screen
  /-- Whether scripts are only walked through, without a machine behind. -/
  isDryRun : Bool
  /-- Tells what a step would do. -/
  narrate : String → σ → σ
  clock : Clock σ

end ConsoleScript
