-- SUMMARY: Splitting the arguments of a call into words, with quotes and escapes.
import ConsoleScript.Text.Blank

/-!
# Arguments

The arguments of a call are words between blanks. Double quotes keep blanks
inside a word, and inside quotes a backslash takes the next character as it
is. A pair of quotes with nothing in it is an empty word.
-/

namespace ConsoleScript.Arguments

/-- The word read so far, if it counts as one. -/
def finish (word : List Char) (hadQuote : Bool) : List (List Char) :=
  if word.isEmpty && !hadQuote then [] else [word.reverse]

/-- The words of a text, after the letters of `word` (the last one first).
    `inQuotes` tells whether a quote is open and `hadQuote` whether the word has
    had one. -/
def splitFrom (word : List Char) (inQuotes hadQuote : Bool) : List Char → List (List Char)
  | [] => finish word hadQuote
  | c :: rest =>
    if c = '"' then splitFrom word (!inQuotes) true rest
    else if c = '\\' ∧ inQuotes then
      match rest with
      | [] => finish word hadQuote
      | escaped :: rest => splitFrom (escaped :: word) inQuotes hadQuote rest
    else if Text.isBlank c && !inQuotes then
      finish word hadQuote ++ splitFrom [] false false rest
    else splitFrom (c :: word) inQuotes hadQuote rest

/-- The words of a text. -/
def split (s : String) : List String :=
  (splitFrom [] false false s.toList).map String.ofList

end ConsoleScript.Arguments
