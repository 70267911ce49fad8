-- SUMMARY: Directives by the part they play: actions, loops, conditions, switches and markers.
import ConsoleScript.Duration
import ConsoleScript.Image

/-!
# Directives

A directive is the content of a line `<...>`. It plays one of five parts:

* an *action* is complete in itself,
* a *loop* and a *condition* own the lines that follow them,
* a *switch* owns the cases up to its end,
* a *marker* opens or closes a part of one of the others.

Which lines a directive owns is decided where lines are grouped into
statements; here it stands alone.
-/

namespace ConsoleScript

/-- Whether a text is asked to be on the screen or not to be. -/
inductive Presence where
  | found
  | notFound
  deriving DecidableEq, Repr

/-- Whether a look at the screen finds what is asked. -/
def Presence.agrees : Presence → (seen : Bool) → Bool
  | .found, seen => seen
  | .notFound, seen => !seen

/-- Directives that own no other lines. -/
inductive Action where
  /-- Press a key or a combination of keys. -/
  | key (name : String)
  /-- Wait until a text is on the screen. -/
  | watch (text : String) (timeout : Option Duration)
  /-- Switch to a virtual console. -/
  | console (number : Nat)
  /-- Let time pass. -/
  | wait (duration : Duration)
  /-- End the script with a code. -/
  | exit (code : Int)
  /-- The end of a condition's lines; alone it does nothing. -/
  | endIf
  /-- Leave the function, or the file. -/
  | doReturn
  /-- Leave the innermost loop or switch. -/
  | doBreak
  /-- Run another script file. -/
  | includeFile (path : String)
  /-- Write the screen to a file. -/
  | screenshot (path : String) (format : ImageFormat)
  /-- Call a function. -/
  | call (name : String) (args : List String)
  /-- Bind a variable. -/
  | bind (name value : String)
  deriving DecidableEq, Repr

/-- Directives that run the lines they own more than once. -/
inductive Loop where
  /-- Until they succeed, at most `attempts` times. -/
  | retry (attempts : Nat)
  /-- A fixed number of times. -/
  | repeatTimes (count : Nat)
  /-- As long as a text is present, or absent. -/
  | whileScreen (presence : Presence) (text : String) (timeout : Duration) (poll : Option Duration)
  deriving DecidableEq, Repr

/-- The test of a directive that runs one of two lists of lines. -/
structure Condition where
  presence : Presence
  text : String
  timeout : Duration
  deriving DecidableEq, Repr

/-- How long, and how often, a switch looks at the screen. -/
structure SwitchOptions where
  timeout : Option Duration
  poll : Option Duration
  deriving DecidableEq, Repr

/-- Directives that open or close a part of a construct. -/
inductive Marker where
  | otherwise
  | case (pattern : String)
  | default
  | endCase
  | endSwitch
  | function (name : String)
  | endFunction
  deriving DecidableEq, Repr

/-- A directive. -/
inductive Directive where
  | action (action : Action)
  | loop (loop : Loop)
  | condition (condition : Condition)
  | switch (options : SwitchOptions)
  | marker (marker : Marker)
  deriving DecidableEq, Repr

namespace Directive

/-- Whether the directive owns the plain lines that follow it. -/
def hasImplicitBlock : Directive → Bool
  | loop _ | condition _ => true
  | _ => false

/-- Whether the lines of the directive may have an alternative. -/
def acceptsElse : Directive → Bool
  | condition _ => true
  | _ => false

/-- Whether a break inside the directive ends it. -/
def isBreakable : Directive → Bool
  | loop _ | switch _ => true
  | _ => false

end Directive

/-- The time that a condition takes at most when it gives none itself. -/
def Condition.defaultTimeout : Duration := .ofSeconds 5

end ConsoleScript
