-- SUMMARY: White space: the class of blank characters, trimming, and cutting a text into lines.

/-!
# Blank characters and lines

A character is *blank* when it has the Unicode property `White_Space`.
Trimming removes blanks from the ends of a text, and a text is cut into lines
at line feeds. All functions work on lists of characters, with a `String`
version beside the ones that the rest of the library calls.
-/

namespace ConsoleScript.Text

-- ---------------------------------------------------------------------------
-- Blank characters
-- ---------------------------------------------------------------------------

/-- The characters with the property `White_Space`. -/
def isBlank (c : Char) : Bool :=
  let n := c.toNat
  (9 ≤ n && n ≤ 13) || n == 0x20 || n == 0x85 || n == 0xA0 || n == 0x1680 ||
    (0x2000 ≤ n && n ≤ 0x200A) || n == 0x2028 || n == 0x2029 || n == 0x202F ||
    n == 0x205F || n == 0x3000

-- ---------------------------------------------------------------------------
-- Trimming
-- ---------------------------------------------------------------------------

/-- The characters without the blanks in front. -/
def trimStart (cs : List Char) : List Char :=
  cs.dropWhile isBlank

/-- The characters without the blanks at the end. -/
def trimEnd (cs : List Char) : List Char :=
  (cs.reverse.dropWhile isBlank).reverse

/-- The characters without the blanks at either end. -/
def trimChars (cs : List Char) : List Char :=
  trimEnd (trimStart cs)

/-- The text without the blanks at either end. -/
def trim (s : String) : String :=
  String.ofList (trimChars s.toList)

-- ---------------------------------------------------------------------------
-- Words
-- ---------------------------------------------------------------------------

/-- The words between blanks. -/
def wordChars : List Char → List (List Char)
  | [] => []
  | c :: rest =>
    if isBlank c then wordChars rest
    else
      match rest, wordChars rest with
      | d :: _, word :: words => if isBlank d then [c] :: word :: words else (c :: word) :: words
      | _, words => [c] :: words

-- ---------------------------------------------------------------------------
-- Lines
-- ---------------------------------------------------------------------------

/-- Cuts at line feeds. A carriage return right before a line feed goes with
    it, and a line feed at the very end starts no further line. -/
def lineChars : List Char → List (List Char)
  | [] => []
  | '\n' :: rest => [] :: lineChars rest
  | '\r' :: '\n' :: rest => [] :: lineChars rest
  | c :: rest =>
    match lineChars rest with
    | [] => [[c]]
    | line :: lines => (c :: line) :: lines

/-- The lines of a text. -/
def lines (s : String) : List String :=
  (lineChars s.toList).map String.ofList

end ConsoleScript.Text
