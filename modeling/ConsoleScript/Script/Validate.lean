-- SUMMARY: Checking a script before it runs: unknown keys, unset variables, undefined functions, idle breaks.
import ConsoleScript.Key
import ConsoleScript.Stmt

/-!
# Validation

A script can be checked without running it. An *error* is something that
cannot work; a *warning* is something that may be meant but looks like a
mistake. The issues come in the order of their lines, errors first.
-/

namespace ConsoleScript

/-- How bad an issue is. -/
inductive Severity where
  | error
  | warning
  deriving DecidableEq, Repr

/-- The name of a severity. -/
def Severity.name : Severity → String
  | .error => "error"
  | .warning => "warning"

/-- What can be found in a script. -/
inductive Finding where
  | missingDirective
  | unknownKey (name : String)
  | undefinedFunction (name : String)
  | idleBreak
  | unsetVariable (name : String)
  deriving DecidableEq, Repr

namespace Finding

/-- How bad a finding is. -/
def severity : Finding → Severity
  | .missingDirective | .unknownKey _ => .error
  | .undefinedFunction _ | .idleBreak | .unsetVariable _ => .warning

/-- The wording of a finding. -/
def message : Finding → String
  | .missingDirective => "directive line has no parsed directive"
  | .unknownKey name => "unknown key '" ++ name ++ "'"
  | .undefinedFunction name =>
    "call to undefined function '" ++ name ++ "' (unless an include defines it)"
  | .idleBreak => "<break> outside retry, repeat, while or switch has no effect"
  | .unsetVariable name => "variable '" ++ name ++ "' is not set"

end Finding

/-- A finding at a line. -/
structure Issue where
  line : Nat
  finding : Finding
  deriving DecidableEq, Repr

namespace Issue

/-- The wording of an issue. -/
def text (issue : Issue) : String :=
  "line " ++ toString issue.line ++ ": " ++ issue.finding.severity.name ++ ": " ++
    issue.finding.message

/-- Whether an issue is an error. -/
def isError (issue : Issue) : Bool := issue.finding.severity == .error

/-- By line, and errors first. -/
def le (a b : Issue) : Bool :=
  a.line < b.line || (a.line == b.line && (a.isError || !b.isError))

end Issue

-- ---------------------------------------------------------------------------
-- Findings
-- ---------------------------------------------------------------------------

namespace Script

/-- What is known while the statements of a script are checked. -/
structure Check where
  scope : Scope
  /-- Names that the script binds somewhere. -/
  boundNames : List String
  /-- Names of the script's functions. -/
  functions : List String

namespace Check

/-- The names in a text that nothing binds. Inside a function a number stands
    for an argument. -/
def references (check : Check) (inFunction : Bool) (line : Nat) (text : String) : List Issue :=
  (Scope.plainReferences text).filterMap fun name =>
    if check.scope.isSet name || check.boundNames.contains name ||
        (inFunction && name.toList.all Char.isDigit) then none
    else some ⟨line, .unsetVariable name⟩

/-- The texts of an action that are expanded when it runs. -/
def actionTexts : Action → List String
  | .watch text _ => [text]
  | .includeFile path | .screenshot path _ => [path]
  | .bind _ value => [value]
  | .call _ args => args
  | _ => []

/-- The texts of a loop that are expanded when it runs. -/
def loopTexts : Loop → List String
  | .whileScreen _ text _ _ => [text]
  | _ => []

/-- What is wrong with an action by itself. -/
def actionFinding? (check : Check) (breakable : Bool) : Action → Option Finding
  | .key name => if KeyCode.isKnown name then none else some (.unknownKey name)
  | .call name _ =>
    if check.functions.contains name then none else some (.undefinedFunction name)
  | .doBreak => if breakable then none else some .idleBreak
  | _ => none

mutual

/-- The issues of a statement. `breakable` tells whether a loop or a switch
    is around it. -/
def stmt (check : Check) (inFunction breakable : Bool) : Stmt → List Issue
  | .plain line =>
    if line.kind.isSkipped then []
    else if line.kind.isDirective then [⟨line.number, .missingDirective⟩]
    else check.references inFunction line.number line.trimmed
  | .action line a =>
    (actionTexts a).flatMap (check.references inFunction line.number) ++
      (check.actionFinding? breakable a).toList.map (⟨line.number, ·⟩)
  | .loop line l body =>
    (loopTexts l).flatMap (check.references inFunction line.number) ++
      stmts check inFunction true body
  | .branch line c yes no =>
    check.references inFunction line.number c.text ++
      (stmts check inFunction breakable yes ++ stmts check inFunction breakable no)
  | .switch line _ cases none =>
    cases.flatMap (fun c => check.references inFunction line.number c.pattern) ++
      caseBodies check inFunction cases
  | .switch line _ cases (some body) =>
    cases.flatMap (fun c => check.references inFunction line.number c.pattern) ++
      (caseBodies check inFunction cases ++ stmts check inFunction true body)

/-- The issues of a list of statements. -/
def stmts (check : Check) (inFunction breakable : Bool) : List Stmt → List Issue
  | [] => []
  | s :: rest => stmt check inFunction breakable s ++ stmts check inFunction breakable rest

/-- The issues in the bodies of a list of cases. -/
def caseBodies (check : Check) (inFunction : Bool) : List (Case Stmt) → List Issue
  | [] => []
  | ⟨_, _, _, body⟩ :: rest =>
    stmts check inFunction true body ++ caseBodies check inFunction rest

end

end Check

/-- Leaves out an unset variable that was found at the same line before. -/
def reportOnce (seen : List Issue) : List Issue → List Issue
  | [] => []
  | issue :: rest =>
    match issue.finding with
    | .unsetVariable _ =>
      if seen.contains issue then reportOnce seen rest
      else issue :: reportOnce (issue :: seen) rest
    | _ => issue :: reportOnce seen rest

/-- The issues of a script in a scope. -/
def validate (script : Script) (scope : Scope) : List Issue :=
  let check : Check := ⟨scope, script.summary.boundNames, script.functions.map (·.name)⟩
  let found := check.stmts false false script.body ++
    script.functionsByName.flatMap fun f => check.stmts true false f.body
  sortBy Issue.le (reportOnce [] found)

end Script

end ConsoleScript
