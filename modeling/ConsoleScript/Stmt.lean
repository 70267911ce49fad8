-- SUMMARY: Statements: lines together with the lines they own, functions, and whole scripts.
import ConsoleScript.Line

/-!
# Statements

A script is a tree. A loop, a condition and a switch own lists of statements;
every other statement is a single line. `Script.walk` lists the lines of the
whole tree in the order in which they stand, and then those of each function.
-/

namespace ConsoleScript

/-- A case of a switch, from its marker to its last line. -/
structure Case (α : Type) where
  pattern : String
  first : Nat
  last : Nat
  body : List α
  deriving Repr

/-- A line with the statements that it owns. -/
inductive Stmt where
  /-- A line without a directive. -/
  | plain (line : Line)
  | action (line : Line) (action : Action)
  | loop (line : Line) (loop : Loop) (body : List Stmt)
  | branch (line : Line) (condition : Condition) (yes no : List Stmt)
  | switch (line : Line) (options : SwitchOptions) (cases : List (Case Stmt))
      (otherwise : Option (List Stmt))
  deriving Repr

/-- A function, from its first marker to its last. -/
structure Function where
  name : String
  first : Nat
  last : Nat
  body : List Stmt
  deriving Repr

namespace Stmt

/-- The line at the head of a statement. -/
def line : Stmt → Line
  | plain line | action line _ | loop line _ _ | branch line _ _ _ | switch line _ _ _ => line

/-- The directive at the head of a statement. -/
def directive : Stmt → Option Directive
  | plain _ => none
  | action _ a => some (.action a)
  | loop _ l _ => some (.loop l)
  | branch _ c _ _ => some (.condition c)
  | switch _ o _ _ => some (.switch o)

/-- The line and the directive at the head of a statement. -/
def entry (s : Stmt) : Entry := ⟨s.line, s.directive⟩

/-- The statement without its directive and all that it owns. -/
def dropDirective (s : Stmt) : Stmt := .plain s.line

mutual

/-- The lines of a statement in the order in which they stand. -/
def walk : Stmt → List Line
  | plain line => [line]
  | action line _ => [line]
  | loop line _ body => line :: walkAll body
  | branch line _ yes no => line :: (walkAll yes ++ walkAll no)
  | switch line _ cases none => line :: walkCases cases
  | switch line _ cases (some body) => line :: (walkCases cases ++ walkAll body)

/-- The lines of a list of statements. -/
def walkAll : List Stmt → List Line
  | [] => []
  | s :: rest => walk s ++ walkAll rest

/-- The lines in the bodies of a list of cases. -/
def walkCases : List (Case Stmt) → List Line
  | [] => []
  | ⟨_, _, _, body⟩ :: rest => walkAll body ++ walkCases rest

end

end Stmt

-- ---------------------------------------------------------------------------
-- Scripts
-- ---------------------------------------------------------------------------

/-- Counts and names gathered over the lines of a script. -/
structure Summary where
  total : Nat
  text : Nat
  directive : Nat
  assignment : Nat
  comment : Nat
  blank : Nat
  /-- The names bound by an assignment or by `<set>`, sorted. -/
  boundNames : List String
  /-- The names of the functions, sorted. -/
  functions : List String
  deriving DecidableEq, Repr

/-- A script. -/
structure Script where
  body : List Stmt
  /-- In the order in which they are defined. -/
  functions : List Function
  summary : Summary
  deriving Repr

/-- Sorted by code points, each name once. -/
def sortedNames (names : List String) : List String :=
  sortNames names.eraseDups

/-- The name that an entry binds. -/
def Entry.boundName? (e : Entry) : Option String :=
  match e.line.binding, e.directive with
  | some (name, _), _ => some name
  | none, some (.action (.bind name _)) => some name
  | _, _ => none

/-- The summary of a script's lines and of its functions' names. -/
def Summary.of (entries : List Entry) (functions : List String) : Summary :=
  let count := fun p => entries.countP fun e => p e.line.kind
  { total := entries.length
    text := count (· == .text)
    directive := count LineKind.isDirective
    assignment := count (· == .assignment)
    comment := count (· == .comment)
    blank := count (· == .blank)
    boundNames := sortedNames (entries.filterMap Entry.boundName?)
    functions := sortedNames functions }

namespace Script

/-- The function of a given name. -/
def function? (script : Script) (name : String) : Option Function :=
  script.functions.find? (·.name == name)

/-- The functions in the order of their names. -/
def functionsByName (script : Script) : List Function :=
  sortBy (fun f g => decide (f.name ≤ g.name)) script.functions

/-- All lines of a script, first those outside functions and then those of each
    function in the order of the names. The flag tells the two apart. -/
def walk (script : Script) : List (Line × Bool) :=
  (Stmt.walkAll script.body).map (·, false) ++
    script.functionsByName.flatMap fun f => (Stmt.walkAll f.body).map (·, true)

/-- The script whose statements at the given lines, outside of functions and
    blocks, have lost their directives. -/
def dropDirectives (script : Script) (numbers : List Nat) : Script :=
  { script with
    body := script.body.map fun s =>
      if numbers.contains s.line.number then s.dropDirective else s }

end Script

end ConsoleScript
