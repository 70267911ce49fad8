-- SUMMARY: From the text of a script to its statements, in a single pass over its lines.
import ConsoleScript.Script.Grouping

/-!
# Parsing a script

Each line is read once, in the scope that the lines before it leave, and given
to the grouping. The first line that either refuses ends the parse, with the
scope as it is by then.
-/

namespace ConsoleScript.Script

/-- Reads and groups the lines from number `n` on. `entries` are the lines
    before, the last one first. -/
def parseFrom (now : Int) (scope : Scope) (n : Nat) (g : Grouping) (entries : List Entry) :
    List String → Except ParseError (Grouping × List Entry) × Scope
  | [] => (.ok (g, entries), scope)
  | raw :: rest =>
    match Line.read now scope n raw with
    | (.error e, scope) => (.error (.ofDirective n (Line.content (Text.trim raw)) e), scope)
    | (.ok entry, scope) =>
      match g.step entry with
      | .error e => (.error e, scope)
      | .ok g => parseFrom now scope (n + 1) g (entry :: entries) rest

/-- The script of the lines that were grouped. -/
def ofGrouping (g : Grouping) (entries : List Entry) : Except ParseError Script :=
  match g.finish with
  | .error e => .error e
  | .ok (body, functions) =>
    .ok ⟨body, functions, Summary.of entries.reverse (functions.map (·.name))⟩

/-- Parses the lines of a script in a scope, at a moment in seconds. -/
def parseLines (now : Int) (scope : Scope) (raws : List String) :
    Except ParseError Script × Scope :=
  match parseFrom now scope 1 .start [] raws with
  | (.error e, scope) => (.error e, scope)
  | (.ok (g, entries), scope) => (ofGrouping g entries, scope)

/-- Parses the text of a script in a scope, at a moment in seconds. -/
def parse (now : Int) (scope : Scope) (text : String) : Except ParseError Script × Scope :=
  parseLines now scope (Text.lines text)

end ConsoleScript.Script
