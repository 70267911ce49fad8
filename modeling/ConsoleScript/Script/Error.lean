-- SUMMARY: Why a text is not a script.
import ConsoleScript.Directive.Read

/-!
# Errors of a script's text

A script is refused for a directive that cannot be read, or for markers that
do not fit together. Every error names the line at which it arises.
-/

namespace ConsoleScript

/-- What is wrong with a script. -/
inductive ParseError where
  | unknownDirective (line : Nat) (content : String)
  | malformed (line : Nat) (content : String) (cause : DirectiveError)
  | unterminatedFunction (line : Nat) (name : String)
  | unterminatedSwitch (line : Nat)
  | duplicateFunction (line : Nat) (name : String) (first : Nat)
  | nestedFunction (line : Nat) (name : String)
  /-- A marker outside the construct it belongs to. -/
  | unexpected (line : Nat) (content : String)
  /-- A second default in the switch at line `switch`. -/
  | secondDefault (line : Nat) (switch : Nat)
  /-- A line between the cases of a switch. -/
  | outsideCase (line : Nat) (trimmed : String)
  deriving DecidableEq, Repr

namespace ParseError

/-- The error of a directive that cannot be read. -/
def ofDirective (line : Nat) (content : String) : DirectiveError → ParseError
  | .unknown => .unknownDirective line content
  | cause => .malformed line content cause

/-- The line at which the error arises. -/
def line : ParseError → Nat
  | unknownDirective line _ | malformed line _ _ | unterminatedFunction line _
  | unterminatedSwitch line | duplicateFunction line _ _ | nestedFunction line _
  | unexpected line _ | secondDefault line _ | outsideCase line _ => line

/-- The error without its line. -/
def description : ParseError → String
  | unknownDirective _ content => "unknown directive <" ++ content ++ ">"
  | malformed _ content cause => "invalid directive <" ++ content ++ ">: " ++ cause.message
  | unterminatedFunction _ name => "function '" ++ name ++ "' is missing <end-function>"
  | unterminatedSwitch _ => "<switch> is missing <end-switch>"
  | duplicateFunction _ name first =>
    "function '" ++ name ++ "' already defined at line " ++ toString first
  | nestedFunction _ name => "function '" ++ name ++ "' must be defined at top level"
  | unexpected _ content => "unexpected <" ++ content ++ ">"
  | secondDefault _ switch => "second <default> in <switch> at line " ++ toString switch
  | outsideCase _ trimmed =>
    "expected <case>, <default> or <end-switch> inside <switch>, found " ++ Text.quoted trimmed

/-- The wording of an error. -/
def message (e : ParseError) : String :=
  "line " ++ toString e.line ++ ": " ++ e.description

end ParseError

end ConsoleScript
