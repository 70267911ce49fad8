-- SUMMARY: Which errors come from outside a script, and which statements raise the others.
import ConsoleScript.Run.Error

/-!
# Failing

An error of a run comes from outside the script, or a statement raises it. The
single steps fail with errors from outside; `Stmt.Raises` lists the others with the
statements that raise them. What is passed outwards keeps its cause.
-/

namespace ConsoleScript

/-! ## Where errors come from -/

namespace RunError

/-- What is under the numbers of lines and the loops through which an error was
    passed. -/
def cause : RunError → RunError
  | atLine _ e | retryExhausted _ e | repeatFailed _ _ e => e.cause
  | e => e

/-- The errors of the machine, of the debugger and of the clock. -/
inductive FromOutside : RunError → Prop where
  | timeout (elapsed : Duration) : FromOutside (.timeout elapsed)
  | stopped : FromOutside .stopped
  | machine (e : MachineError) : FromOutside (.machine e)
  | debugger (e : DebugError) : FromOutside (.debugger e)

theorem FromOutside.cause_eq {e : RunError} (h : e.FromOutside) : e.cause = e := by
  cases h <;> rfl

/-- The errors that end a run wherever they arise, as they are raised. -/
inductive Fatal : RunError → Prop where
  | timeout (elapsed : Duration) : Fatal (.timeout elapsed)
  | stopped : Fatal .stopped

theorem Fatal.isFatal {e : RunError} (h : e.Fatal) : e.isFatal = true := by
  cases h <;> rfl

theorem Fatal.positioned_eq {e : RunError} (h : e.Fatal) (line : Nat) :
    e.positioned line = e := by
  cases h <;> rfl

@[simp] theorem cause_positioned (e : RunError) (line : Nat) :
    (e.positioned line).cause = e.cause := by
  cases e <;> rfl

end RunError

/-- The errors that a statement raises itself, given the functions that can be
    called. -/
inductive Stmt.Raises (functions : List Function) : Stmt → RunError → Prop where
  | key {line : Line} {name : String} (unknown : KeyCode.ofName? name = none) :
      Raises functions (.action line (.key name)) (.unknownKey name)
  | watch (line : Line) (text shown : String) (limit : Option Duration)
      (timeout elapsed : Duration) :
      Raises functions (.action line (.watch text limit)) (.watchTimeout shown timeout elapsed)
  | call {line : Line} {name : String} {args : List String}
      (undefined : functions.find? (·.name == name) = none) :
      Raises functions (.action line (.call name args)) (.undefinedFunction name)
  | cycle (line : Line) (path resolved : String) :
      Raises functions (.action line (.includeFile path)) (.includeCycle resolved)
  | unreadable (line : Line) (path resolved : String) (e : SystemError) :
      Raises functions (.action line (.includeFile path)) (.includeUnreadable resolved e)
  | malformed (line : Line) (path resolved : String) (e : ParseError) :
      Raises functions (.action line (.includeFile path)) (.includeMalformed resolved e)
  | whileScreen (line : Line) (presence : Presence) (text shown : String)
      (timeout elapsed : Duration) (poll : Option Duration) (body : List Stmt) :
      Raises functions (.loop line (.whileScreen presence text timeout poll) body)
        (.whileTimeout presence shown timeout elapsed)
  | unread {line : Line} (directive : line.kind.isDirective = true) :
      Raises functions (.plain line) .missingDirective

/-- What a statement raises has not been passed outwards yet. -/
theorem Stmt.Raises.cause_eq {functions : List Function} {x : Stmt} {e : RunError}
    (h : x.Raises functions e) : e.cause = e := by
  cases h <;> rfl

end ConsoleScript
