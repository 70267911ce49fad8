-- SUMMARY: One line of a script: its class, and how it is read in a scope.
import ConsoleScript.Directive.Read
import ConsoleScript.Scope.Expand

/-!
# Lines

Every line of a script has a class, which is decided by the line alone. Reading
a line classifies it, recognises its directive, and expands its text in the
scope at hand. Assignments and `<set>` are carried out in that scope, so that
the lines after them are expanded with the new value.
-/

namespace ConsoleScript

/-- The classes of lines. -/
inductive LineKind where
  /-- Typed on the console, with Enter. -/
  | text
  /-- `NAME=VALUE`. -/
  | assignment
  /-- `<...>`. -/
  | directive
  /-- `<...>` whose content mentions a condition. -/
  | conditional
  /-- Starts with `#`. -/
  | comment
  /-- Nothing but blanks. -/
  | blank
  deriving DecidableEq, Repr

namespace LineKind

/-- The name of a class. -/
def name : LineKind → String
  | .text => "text"
  | .assignment => "assignment"
  | .directive => "directive"
  | .conditional => "conditional"
  | .comment => "comment"
  | .blank => "empty"

/-- Whether lines of the class are skipped when the script runs. -/
def isSkipped : LineKind → Bool
  | .comment | .blank => true
  | _ => false

/-- Whether lines of the class hold a directive. -/
def isDirective : LineKind → Bool
  | .directive | .conditional => true
  | _ => false

end LineKind

/-- One line, as it was read. -/
structure Line where
  /-- Counted from 1. -/
  number : Nat
  raw : String
  /-- Without the blanks around it and, for a text, without the backslash that
      keeps it from being a directive. -/
  trimmed : String
  /-- Expanded in the scope in which the line was read. -/
  expanded : String
  kind : LineKind
  /-- The name and the value of an assignment. -/
  binding : Option (String × String)
  deriving DecidableEq, Repr

/-- A line together with the directive that it holds. -/
structure Entry where
  line : Line
  directive : Option Directive
  deriving DecidableEq, Repr

-- ---------------------------------------------------------------------------
-- Classification
-- ---------------------------------------------------------------------------

namespace Line

/-- Whether a text stands between angle brackets. -/
def isBracketed (cs : List Char) : Bool :=
  2 ≤ cs.length && cs.head? == some '<' && cs.getLast? == some '>'

/-- The text between the angle brackets, or all of it if there are none. -/
def contentChars (cs : List Char) : List Char :=
  Text.trimChars (if isBracketed cs then cs.tail.dropLast else cs)

/-- The text between the angle brackets, or all of it if there are none. -/
def content (trimmed : String) : String :=
  String.ofList (contentChars trimmed.toList)

/-- The parts of a directive that make its line conditional. -/
def conditionalWords : List String := ["&&", "||", "if-found", "if-not-found"]

/-- The class of a line. -/
def classify (trimmed : String) : LineKind :=
  if trimmed.isEmpty then .blank
  else if Text.beginsWith trimmed "#" then .comment
  else if Scope.isAssignment trimmed then .assignment
  else if Text.beginsWith trimmed "\\<" then .text
  else if isBracketed trimmed.toList then
    if conditionalWords.any (Text.contains (content trimmed)) then .conditional else .directive
  else .text

/-- A text line without the backslash in front of an angle bracket. -/
def unescape (trimmed : String) : String :=
  match trimmed.toList with
  | '\\' :: '<' :: rest => String.ofList ('<' :: rest)
  | _ => trimmed

-- ---------------------------------------------------------------------------
-- Reading
-- ---------------------------------------------------------------------------

/-- A directive's effect on the scope while the script is being read. -/
def bindDirective (now : Int) (scope : Scope) : Directive → Scope
  | .action (.bind name value) =>
    let (value, scope) := scope.expand now value
    scope.set name value
  | _ => scope

/-- Reads one line. The scope changes by what the line binds and by the
    defaults that its text stores, and not at all if its directive is refused. -/
def read (now : Int) (scope : Scope) (number : Nat) (raw : String) :
    Except DirectiveError Entry × Scope :=
  let trimmed := Text.trim raw
  let kind := classify trimmed
  match kind with
  | .blank | .comment => (.ok ⟨⟨number, raw, trimmed, trimmed, kind, none⟩, none⟩, scope)
  | .text =>
    let trimmed := unescape trimmed
    let (expanded, scope) := scope.expand now trimmed
    (.ok ⟨⟨number, raw, trimmed, expanded, kind, none⟩, none⟩, scope)
  | .assignment =>
    match scope.readAssignment? now trimmed with
    | none => (.ok ⟨⟨number, raw, trimmed, trimmed, kind, none⟩, none⟩, scope)
    | some ((name, value), scope) =>
      (.ok ⟨⟨number, raw, trimmed, name ++ "=" ++ value, kind, some (name, value)⟩, none⟩,
        scope.set name value)
  | .directive | .conditional =>
    match Directive.read (content trimmed) with
    | .error e => (.error e, scope)
    | .ok directive =>
      let (expanded, scope) := (bindDirective now scope directive).expand now trimmed
      (.ok ⟨⟨number, raw, trimmed, expanded, kind, none⟩, some directive⟩, scope)

end Line

end ConsoleScript
