-- SUMMARY: Finding, splitting and replacing parts of a text.

/-!
# Searching a text

Small searches over lists of characters: whether one text occurs in another,
where a text is cut by a character, and what comes after a given beginning.
-/

namespace ConsoleScript.Text

/-- Whether `needle` occurs somewhere in the characters. -/
def occursIn (needle : List Char) : List Char → Bool
  | [] => needle.isEmpty
  | c :: rest => needle.isPrefixOf (c :: rest) || occursIn needle rest

/-- Whether `needle` occurs somewhere in `text`. -/
def contains (text needle : String) : Bool :=
  occursIn needle.toList text.toList

/-- Whether `text` begins with `start`. -/
def beginsWith (text start : String) : Bool :=
  start.toList.isPrefixOf text.toList

/-- What comes after `start`, if the characters begin with it. -/
def dropStart? : (start cs : List Char) → Option (List Char)
  | [], cs => some cs
  | _ :: _, [] => none
  | s :: start, c :: cs => if s = c then dropStart? start cs else none

/-- The characters before and after the first `sep`, if there is one. -/
def splitFirst? (sep : Char) : List Char → Option (List Char × List Char)
  | [] => none
  | c :: rest =>
    if c = sep then some ([], rest)
    else (splitFirst? sep rest).map fun (before, after) => (c :: before, after)

/-- The characters before and after the last `sep`, if there is one. -/
def splitLast? (sep : Char) (cs : List Char) : Option (List Char × List Char) :=
  (splitFirst? sep cs.reverse).map fun (after, before) => (before.reverse, after.reverse)

/-- The pieces of a text between the characters `sep`. There is always one more
    than there are separators. -/
def pieces (sep : Char) : List Char → List (List Char)
  | [] => [[]]
  | c :: rest =>
    if c = sep then [] :: pieces sep rest
    else
      match pieces sep rest with
      | [] => [[c]]
      | piece :: more => (c :: piece) :: more

/-- Whether a text holds the character that ends texts outside. -/
def hasEndMark (text : String) : Bool :=
  text.toList.any (·.toNat == 0)

end ConsoleScript.Text
