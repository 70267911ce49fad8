-- SUMMARY: Expansion: replacing the references of a text by the values of a scope.
import ConsoleScript.Scope
import ConsoleScript.Scope.Reference

/-!
# Expansion

Expanding a text replaces its references by values. It runs in passes, each
over the result of the one before:

1. an escaped dollar is set aside,
2. `${NAME:+text}` becomes `text` if the name has a value, else nothing,
3. `${NAME:=text}` becomes the value, or else `text`, expanded and stored,
4. `${NAME:-text}` becomes the value, or else `text`,
5. `$NAME` and `${NAME}` become the value, or nothing,
6. `{NAME}` becomes a reading of the clock or the value, or stays,
7. the dollars set aside come back.

A name *has a value* in passes 2 to 4 if its value is not empty. The values
that passes 3 and 4 put in have their dollars set aside too, so that pass 5
does not take them for references.
-/

namespace ConsoleScript.Scope

open Text (Segment)

/-- The character that stands for a dollar that is set aside. -/
def asideDollar : Char := '\uE000'

/-- Sets every dollar of a value aside. -/
def setAside (cs : List Char) : List Char :=
  cs.map fun c => if c = '$' then asideDollar else c

/-- Brings back the dollars that were set aside. -/
def bringBack (cs : List Char) : List Char :=
  cs.map fun c => if c = asideDollar then '$' else c

-- ---------------------------------------------------------------------------
-- Passes
-- ---------------------------------------------------------------------------

/-- Pass 2: `${NAME:+text}`. -/
def alternatePass (scope : Scope) : List Char → List Char :=
  Text.replaceForms (guarded '+') fun g =>
    if (scope.nonempty? g.name).isSome then g.text else []

/-- Pass 4: `${NAME:-text}`. -/
def defaultPass (scope : Scope) : List Char → List Char :=
  Text.replaceForms (guarded '-') fun g =>
    match scope.nonempty? g.name with
    | some value => setAside value.toList
    | none => g.text

/-- Pass 5: `$NAME` and `${NAME}`. -/
def plainPass (scope : Scope) : List Char → List Char :=
  Text.replaceForms plain fun name => ((scope.get? name).getD "").toList

/-- What a braced name stands for: the clock comes before the scope, and a name
    that neither knows stays as it is. -/
def bracedValue (now : Int) (scope : Scope) (name : String) : List Char :=
  match clockValue? now name <|> scope.get? name with
  | some value => value.toList
  | none => '\x7b' :: (name.toList ++ ['\x7d'])

/-- Pass 6: `{NAME}`. -/
def bracedPass (now : Int) (scope : Scope) : List Char → List Char :=
  Text.replaceForms braced (bracedValue now scope)

/-- The text that pass 3 stores and puts in for an unset name. The text of a
    guarded reference holds no closing brace, so of all references only the
    unbraced ones can occur in it. -/
def storedDefault (now : Int) (scope : Scope) (text : List Char) : List Char :=
  bracedPass now scope (plainPass scope text)

/-- Pass 3 over the segments of a text: `${NAME:=text}`, from the left, each
    form in the scope that the forms before it leave. -/
def assignSegments (now : Int) : Scope → List (Segment Guarded) → List Char × Scope
  | scope, [] => ([], scope)
  | scope, .char c :: rest =>
    let (out, scope) := assignSegments now scope rest
    (c :: out, scope)
  | scope, .form g :: rest =>
    match scope.nonempty? g.name with
    | some value =>
      let (out, scope) := assignSegments now scope rest
      (setAside value.toList ++ out, scope)
    | none =>
      let value := storedDefault now scope g.text
      let stored := scope.set g.name (String.ofList (bringBack value))
      let (out, scope) := assignSegments now stored rest
      (value ++ out, scope)

/-- Pass 3: `${NAME:=text}`. -/
def assignPass (now : Int) (scope : Scope) (cs : List Char) : List Char × Scope :=
  assignSegments now scope (Text.segments (guarded '=') cs)

/-- Passes 2 to 6 over a text whose escaped dollars are set aside. -/
def substitute (now : Int) (scope : Scope) (cs : List Char) : List Char × Scope :=
  let (cs, scope) := assignPass now scope (alternatePass scope cs)
  (bracedPass now scope (plainPass scope (defaultPass scope cs)), scope)

/-- All passes. -/
def expandChars (now : Int) (scope : Scope) (cs : List Char) : List Char × Scope :=
  let (out, scope) := substitute now scope (replaceEscapes [asideDollar] cs)
  (bringBack out, scope)

/-- Expands a text at a moment in seconds, and gives the scope with what the
    text stored. A text without a dollar and an opening brace is left alone. -/
def expand (now : Int) (scope : Scope) (text : String) : String × Scope :=
  let cs := text.toList
  if cs.contains '$' || cs.contains '\x7b' then
    let (out, scope) := expandChars now scope cs
    (String.ofList out, scope)
  else (text, scope)

/-- Expands texts one after the other. -/
def expandAll (now : Int) (scope : Scope) : List String → List String × Scope
  | [] => ([], scope)
  | text :: rest =>
    let (out, scope) := scope.expand now text
    let (outs, scope) := expandAll now scope rest
    (out :: outs, scope)

/-- The name and the expanded value of an assignment. One pair of double quotes
    around the value is removed before it is expanded. -/
def readAssignment? (now : Int) (scope : Scope) (line : String) :
    Option ((String × String) × Scope) :=
  match splitAssignment? line with
  | none => none
  | some (name, raw) =>
    let (value, scope) := scope.expand now (stripQuotes raw)
    some ((name, value), scope)

end ConsoleScript.Scope
