-- SUMMARY: The three layers of variables that a script sees, and the clock's own names.
import ConsoleScript.Variables
import ConsoleScript.Calendar

/-!
# Scopes

A script sees three layers of variables: overrides, the variables that the
script itself binds, and the environment. A name is looked up in that order.
Scripts write the middle layer only. The arguments of a function call are
overrides named by their position.
-/

namespace ConsoleScript

/-- The variables that are visible at some point of a script. -/
structure Scope where
  env : Variables
  vars : Variables
  overrides : Variables
  deriving DecidableEq, Repr, Inhabited

namespace Scope

/-- A scope with nothing bound. -/
def empty : Scope := ⟨.empty, .empty, .empty⟩

/-- The value of a name: an override, else a variable of the script, else a
    variable of the environment. -/
def get? (scope : Scope) (name : String) : Option String :=
  scope.overrides.get? name <|> scope.vars.get? name <|> scope.env.get? name

/-- Whether a name has a value. -/
def isSet (scope : Scope) (name : String) : Bool :=
  (scope.get? name).isSome

/-- The value of a name if it is not the empty text. -/
def nonempty? (scope : Scope) (name : String) : Option String :=
  (scope.get? name).filter fun value => !value.isEmpty

/-- Binds a variable of the script. -/
def set (scope : Scope) (name value : String) : Scope :=
  { scope with vars := scope.vars.set name value }

/-- Binds an override. -/
def setOverride (scope : Scope) (name value : String) : Scope :=
  { scope with overrides := scope.overrides.set name value }

/-- Binds a variable of the environment. -/
def setEnv (scope : Scope) (name value : String) : Scope :=
  { scope with env := scope.env.set name value }

/-- The overrides with `args` bound to the numbers from `first` on. -/
def bindArguments (overrides : Variables) (first : Nat) : List String → Variables
  | [] => overrides
  | arg :: rest => bindArguments (overrides.set (toString first) arg) (first + 1) rest

/-- The scope of a function's body that is called with `args`. -/
def withArguments (scope : Scope) (args : List String) : Scope :=
  { scope with overrides := bindArguments scope.overrides 1 args }

-- ---------------------------------------------------------------------------
-- The clock's names
-- ---------------------------------------------------------------------------

/-- The value of a name that the clock defines, at a moment in seconds. -/
def clockValue? (now : Int) (name : String) : Option String :=
  let t := DateTime.ofSeconds now
  if name = "timestamp" then some (t.dateText "" ++ "_" ++ t.timeText "")
  else if name = "date" then some (t.dateText "-")
  else if name = "time" then some (t.timeText ":")
  else if name = "datetime" then some (t.dateText "-" ++ " " ++ t.timeText ":")
  else if name = "unix" then some (toString now)
  else none

end Scope

end ConsoleScript
