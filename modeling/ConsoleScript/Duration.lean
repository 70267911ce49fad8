-- SUMMARY: Lengths of time in whole milliseconds: how they are read and how messages show them.
import ConsoleScript.Text.Blank
import ConsoleScript.Text.Numeral

/-!
# Durations

A duration is a whole number of milliseconds. Scripts, configuration files and
options spell it as digits with a unit `ms`, `s` or `m`, where a bare number
counts seconds. Messages show it in seconds with the fraction they need, or in
milliseconds below one second.
-/

namespace ConsoleScript

/-- A length of time in milliseconds. -/
abbrev Duration := Nat

namespace Duration

/-- A number of seconds. -/
def ofSeconds (n : Nat) : Duration := n * 1000

/-- The duration that a number and a unit spell. A number of minutes has to
    stay below `2 ^ 64` when it is counted in seconds. -/
def ofUnit? (n : Nat) (unit : String) : Option Duration :=
  if unit = "ms" then some n
  else if unit = "" ∨ unit = "s" then some (ofSeconds n)
  else if unit = "m" then
    if n * 60 ≤ Text.maxWord then some (ofSeconds (n * 60)) else none
  else none

/-- Reads `500ms`, `5s`, `2m` or a bare `5`, between any blanks. -/
def read? (s : String) : Option Duration :=
  let cs := Text.trimChars s.toList
  let digits := cs.takeWhile Char.isDigit
  let unit := cs.dropWhile Char.isDigit
  match Text.readDigits1 Text.maxWord .tooLarge digits with
  | .error _ => none
  | .ok n => ofUnit? n (String.ofList unit)

/-- A number below one thousand as a decimal fraction without final zeros. -/
def fractionText (n : Nat) : String :=
  if n = 0 then ""
  else
    let digits := [n / 100 % 10, n / 10 % 10, n % 10]
    let kept := (digits.reverse.dropWhile (· == 0)).reverse
    "." ++ String.join (kept.map toString)

/-- A duration as messages show it: `1.5s`, `90s`, `20ms`, and `0ns` for none. -/
def text (d : Duration) : String :=
  if d = 0 then "0ns"
  else if d < 1000 then toString d ++ "ms"
  else toString (d / 1000) ++ fractionText (d % 1000) ++ "s"

end Duration

end ConsoleScript
