-- SUMMARY: The quoted form of a text, as messages and narration show it.
import ConsoleScript.Text.Escaped

/-!
# Quoted texts

Messages show a text between double quotes. A quote and a backslash get a
backslash in front, the common controls have a letter, and the other characters
of `isEscaped` are written as `\u` and their number in braces.
-/

namespace ConsoleScript.Text

/-- The number of a character in lower-case hexadecimal, in braces. -/
def escapeNumber (c : Char) : List Char :=
  '\\' :: 'u' :: '\x7b' :: (Nat.toDigits 16 c.toNat ++ ['\x7d'])

/-- One character of a quoted text. -/
def quoteChar (c : Char) : List Char :=
  if c = '"' then ['\\', '"']
  else if c = '\\' then ['\\', '\\']
  else if c = '\n' then ['\\', 'n']
  else if c = '\r' then ['\\', 'r']
  else if c = '\t' then ['\\', 't']
  else if c.toNat = 0 then ['\\', '0']
  else if isEscaped c then escapeNumber c
  else [c]

/-- A text between quotes. -/
def quoted (s : String) : String :=
  String.ofList ('"' :: (s.toList.flatMap quoteChar ++ ['"']))

/-- A list of texts, each between quotes. -/
def quotedList (texts : List String) : String :=
  "[" ++ ", ".intercalate (texts.map quoted) ++ "]"

end ConsoleScript.Text
