-- SUMMARY: The forms that refer to a variable: plain, guarded and braced references, and assignments.
import ConsoleScript.Text.Blank
import ConsoleScript.Text.Segment

/-!
# References

The forms in which a text can mention a variable:

* `$NAME` and `${NAME}`, the plain reference,
* `${NAME:+text}`, `${NAME:=text}` and `${NAME:-text}`, the guarded references,
  whose text runs to the next closing brace,
* `{NAME}`, the braced name.

A name is a word that does not start with a digit, or a run of digits. Each
form has a recogniser that gives the form at the front of a text.
-/

namespace ConsoleScript.Scope

open Text (Recogniser)

-- ---------------------------------------------------------------------------
-- Names
-- ---------------------------------------------------------------------------

/-- An ASCII letter or an underscore. -/
def isWordStart (c : Char) : Bool := c.isAlpha || c == '_'

/-- An ASCII letter, digit or underscore. -/
def isWordChar (c : Char) : Bool := c.isAlphanum || c == '_'

/-- The word at the front of a text and what follows it. -/
def splitWord? : List Char → Option (List Char × List Char)
  | [] => none
  | c :: rest =>
    if isWordStart c then some (c :: rest.takeWhile isWordChar, rest.dropWhile isWordChar)
    else none

/-- The name at the front of a text and what follows it. -/
def splitName? : List Char → Option (List Char × List Char)
  | [] => none
  | c :: rest =>
    if isWordStart c then some (c :: rest.takeWhile isWordChar, rest.dropWhile isWordChar)
    else if c.isDigit then some (c :: rest.takeWhile Char.isDigit, rest.dropWhile Char.isDigit)
    else none

-- ---------------------------------------------------------------------------
-- Forms
-- ---------------------------------------------------------------------------

/-- A name with the text that guards it. -/
structure Guarded where
  name : String
  text : List Char
  deriving DecidableEq, Repr

/-- The guarded reference with the given mark: `${NAME:` mark text `}`. -/
def guarded (mark : Char) : Recogniser Guarded
  | '$' :: '\x7b' :: cs =>
    match splitName? cs with
    | some (name, ':' :: m :: rest) =>
      if m = mark then
        let text := rest.takeWhile (· != '\x7d')
        match rest.dropWhile (· != '\x7d') with
        | [] => none
        | _ :: _ => some (⟨String.ofList name, text⟩, name.length + text.length + 5)
      else none
    | _ => none
  | _ => none

/-- The plain reference: `${NAME}` or `$NAME`. -/
def plain : Recogniser String
  | '$' :: '\x7b' :: cs =>
    match splitName? cs with
    | some (name, '\x7d' :: _) => some (String.ofList name, name.length + 3)
    | _ => none
  | '$' :: cs =>
    match splitName? cs with
    | some (name, _) => some (String.ofList name, name.length + 1)
    | none => none
  | _ => none

/-- The braced name: `{NAME}`. -/
def braced : Recogniser String
  | '\x7b' :: cs =>
    match splitWord? cs with
    | some (name, '\x7d' :: _) => some (String.ofList name, name.length + 2)
    | _ => none
  | _ => none

-- ---------------------------------------------------------------------------
-- Escapes
-- ---------------------------------------------------------------------------

/-- Replaces every escaped dollar, a backslash and a dollar. -/
def replaceEscapes (value : List Char) : List Char → List Char
  | '\\' :: '$' :: rest => value ++ replaceEscapes value rest
  | c :: rest => c :: replaceEscapes value rest
  | [] => []

/-- The names of the plain references of a text. Escaped dollars count for
    nothing, and neither do guarded references, which say themselves what an
    unset name stands for. -/
def plainReferences (text : String) : List String :=
  let bare := replaceEscapes [] text.toList
  let bare := Text.replaceForms (guarded '+') (fun _ => []) bare
  let bare := Text.replaceForms (guarded '=') (fun _ => []) bare
  let bare := Text.replaceForms (guarded '-') (fun _ => []) bare
  Text.forms plain bare

-- ---------------------------------------------------------------------------
-- Assignments
-- ---------------------------------------------------------------------------

/-- The text without the double quotes around it, if it stands in a pair. -/
def stripQuoteChars : List Char → List Char
  | '"' :: rest =>
    match rest.getLast? with
    | some '"' => rest.dropLast
    | _ => '"' :: rest
  | cs => cs

/-- The text without the double quotes around it, if it stands in a pair. -/
def stripQuotes (s : String) : String :=
  String.ofList (stripQuoteChars s.toList)

/-- The two sides of an assignment `NAME=VALUE` of one line, between any
    blanks. -/
def splitAssignment? (line : String) : Option (String × String) :=
  match splitWord? (Text.trimChars line.toList) with
  | some (name, '=' :: value) =>
    if value.contains '\n' then none else some (String.ofList name, String.ofList value)
  | _ => none

/-- Whether a line has the shape of an assignment. -/
def isAssignment (line : String) : Bool :=
  (splitAssignment? line).isSome

end ConsoleScript.Scope
