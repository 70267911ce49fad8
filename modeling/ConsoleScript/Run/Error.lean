-- SUMMARY: Why a run fails, where, and with which exit code.
import ConsoleScript.Debugger
import ConsoleScript.Machine
import ConsoleScript.Script.Error
import ConsoleScript.Script.Validate

/-!
# Errors of a run

An error arises at a line and is passed outwards. A line puts its number on an
error that has none, and the counted loops wrap the error of their body, so
that a failure reads `line 4: retry failed after 3 attempts: line 5: ...`. Two
errors are *fatal*: they end the run wherever they arise, and no line puts its
number on them.
-/

namespace ConsoleScript

/-- Why a run fails. -/
inductive RunError where
  | atLine (line : Nat) (cause : RunError)
  /-- The time for the whole run is over. -/
  | timeout (elapsed : Duration)
  /-- The debugger stopped the run. -/
  | stopped
  | unknownKey (name : String)
  | undefinedFunction (name : String)
  | watchTimeout (text : String) (timeout elapsed : Duration)
  | whileTimeout (presence : Presence) (text : String) (timeout elapsed : Duration)
  | retryExhausted (attempts : Nat) (last : RunError)
  | repeatFailed (iteration count : Nat) (cause : RunError)
  | includeCycle (path : String)
  | includeUnreadable (path : String) (cause : SystemError)
  | includeMalformed (path : String) (cause : ParseError)
  | missingDirective
  /-- The errors that were found before a dry run. -/
  | invalid (issues : List Issue)
  | machine (cause : MachineError)
  | debugger (cause : DebugError)
  deriving DecidableEq, Repr

namespace RunError

/-- The wording of an error. -/
def message : RunError → String
  | atLine line cause => "line " ++ toString line ++ ": " ++ cause.message
  | timeout elapsed => "script timed out after " ++ elapsed.text
  | stopped => "stopped from the debugger"
  | unknownKey name => "unknown key '" ++ name ++ "'"
  | undefinedFunction name => "undefined function '" ++ name ++ "'"
  | watchTimeout text limit elapsed =>
    "text " ++ Text.quoted text ++ " did not appear within " ++ limit.text ++ " (waited " ++
      elapsed.text ++ ")"
  | whileTimeout presence text limit elapsed =>
    let state := match presence with
      | .found => "present"
      | .notFound => "absent"
    "text " ++ Text.quoted text ++ " still " ++ state ++ " after " ++ elapsed.text ++
      " (timeout " ++ limit.text ++ ")"
  | retryExhausted attempts last =>
    "retry failed after " ++ toString attempts ++ " attempts: " ++ last.message
  | repeatFailed iteration count cause =>
    "repeat failed on iteration " ++ toString iteration ++ " of " ++ toString count ++ ": " ++
      cause.message
  | includeCycle path => "include cycle: " ++ path ++ " is already being executed"
  | includeUnreadable path cause => "cannot read " ++ path ++ ": " ++ cause.message
  | includeMalformed path cause => "in " ++ path ++ ": " ++ cause.message
  | missingDirective => "directive line has no parsed directive"
  | invalid issues => "validation failed: " ++ "; ".intercalate (issues.map Issue.text)
  | machine cause => cause.message
  | debugger cause => cause.message

/-- The error with the number of the line at which it arose, unless it has one
    or is fatal. -/
def positioned (e : RunError) (line : Nat) : RunError :=
  match e with
  | atLine .. | timeout _ | stopped => e
  | e => atLine line e

/-- The error under the numbers of lines. -/
def root : RunError → RunError
  | atLine _ cause => cause.root
  | e => e

/-- Whether the error ends the run wherever it arises. -/
def isFatal (e : RunError) : Bool :=
  match e.root with
  | timeout _ | stopped => true
  | _ => false

/-- The exit code of a run that fails with the error. -/
def exitCode (e : RunError) : Int :=
  match e.root with
  | timeout _ => 124
  | stopped => 130
  | _ => 1

/-- The file whose absence made a run fail. -/
def missingFile? : RunError → Option String
  | atLine _ cause | retryExhausted _ cause | repeatFailed _ _ cause => cause.missingFile?
  | includeUnreadable path .notFound => some path
  | _ => none

end RunError

/-- How a statement leaves the statements around it. -/
inductive Signal where
  /-- Out of the innermost loop or switch. -/
  | doBreak
  /-- Out of the function or the file. -/
  | doReturn
  /-- Out of the script. -/
  | exit (code : Int)
  deriving DecidableEq, Repr

/-- The signal as it goes on outside a loop or a switch, which a break ends. -/
def Signal.outsideLoop : Option Signal → Option Signal
  | some .doBreak => none
  | signal => signal

/-- The signal as it goes on outside a function or a file, which only an exit
    leaves. -/
def Signal.outsideFrame : Option Signal → Option Signal
  | some (.exit code) => some (.exit code)
  | _ => none

end ConsoleScript
