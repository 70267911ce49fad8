-- SUMMARY: Captured screens: what is new against the screen before, searching, and choosing a case.
import ConsoleScript.Text.Blank
import ConsoleScript.Text.Search

/-!
# Screens

A screen is a list of rows of text, from top to bottom. Between two captures a
console scrolls by some *offset*: the row `j` of the later one is *aligned*
with the row `j + offset` of the earlier one. A row is *new* if the earlier
screen did not show it, or showed only its beginning in the aligned row.

A tracker remembers the last screen and searches the new rows first.
-/

namespace ConsoleScript

/-- The rows of a captured screen. -/
abbrev Screen := List String

namespace Screen

/-- Whether a row shows nothing. -/
def isBlankRow (row : String) : Bool := (Text.trimChars row.toList).isEmpty

/-- Whether some row contains a text. -/
def shows (screen : Screen) (needle : String) : Bool :=
  screen.any fun row => Text.contains row needle

-- ---------------------------------------------------------------------------
-- Alignment
-- ---------------------------------------------------------------------------

/-- The row of the earlier screen that is aligned with row `j` of the later. -/
def aligned? (before : Screen) (j : Nat) (offset : Int) : Option String :=
  let i := Int.ofNat j + offset
  if i < 0 then none else before[i.toNat]?

/-- Whether row `j` is not blank and equals the row it is aligned with. -/
def isAnchor (before after : Screen) (offset : Int) (j : Nat) : Bool :=
  match after[j]?, aligned? before j offset with
  | some row, some old => !isBlankRow row && row == old
  | _, _ => false

/-- How many rows after an anchor are compared. -/
def lookahead : Nat := 3

/-- The aligned pairs of rows after row `j`, the earlier row first. -/
def pairsAfter (before after : Screen) (offset : Int) (j : Nat) : List (String × String) :=
  (List.range lookahead).filterMap fun k =>
    match aligned? before (j + 1 + k) offset, after[j + 1 + k]? with
    | some old, some row => some (old, row)
    | _, _ => none

/-- Whether at least three in five of the pairs after row `j` agree: the later
    row is the earlier one or continues it. -/
def validates (before after : Screen) (offset : Int) (j : Nat) : Bool :=
  let pairs := pairsAfter before after offset j
  let agreed := pairs.countP fun pair => Text.beginsWith pair.2 pair.1
  decide (3 * pairs.length ≤ 5 * agreed)

/-- Whether the screens fit together under an offset. -/
def fits (before after : Screen) (offset : Int) : Bool :=
  (List.range after.length).any fun j =>
    isAnchor before after offset j && validates before after offset j

/-- The offsets of a magnitude, scrolling up first. -/
def offsetsOf (magnitude : Nat) : List Int :=
  if magnitude = 0 then [0] else [Int.ofNat magnitude, -Int.ofNat magnitude]

/-- The smallest offset under which the screens fit together. -/
def findOffset? (before after : Screen) : Option Int :=
  ((List.range (max before.length after.length)).flatMap offsetsOf).find? (fits before after)

-- ---------------------------------------------------------------------------
-- New rows
-- ---------------------------------------------------------------------------

/-- The difference of two screens. -/
structure Diff where
  offset : Option Int
  /-- From the bottom to the top. -/
  newRows : List String
  deriving DecidableEq, Repr

/-- Whether row `j` of the later screen, which is `row`, is new. -/
def isNew (before : Screen) (offset : Option Int) (row : String) (j : Nat) : Bool :=
  if isBlankRow row then false
  else if !before.contains row then true
  else
    match offset.bind (aligned? before j) with
    | some old => row != old && Text.beginsWith row old
    | none => false

/-- Compares a screen with the one before, if there was one that showed rows. -/
def diff (before : Option Screen) (after : Screen) : Diff :=
  match before with
  | none | some [] => ⟨none, (after.filter fun row => !isBlankRow row).reverse⟩
  | some before =>
    let offset := findOffset? before after
    let new := after.zipIdx.filter fun (row, j) => isNew before offset row j
    ⟨offset, (new.map Prod.fst).reverse⟩

-- ---------------------------------------------------------------------------
-- Choosing a case
-- ---------------------------------------------------------------------------

/-- The first of the patterns that a row contains, by its index. -/
def caseInRow? (patterns : List String) (row : String) : Option Nat :=
  patterns.findIdx? fun pattern => Text.contains row pattern

/-- A pattern and a row that contains it, by their indices. -/
structure CaseMatch where
  case : Nat
  row : Nat
  deriving DecidableEq, Repr

/-- The lowest row that contains a pattern, and the first pattern in it. -/
def selectCase? (patterns : List String) (screen : Screen) : Option CaseMatch :=
  screen.zipIdx.reverse.findSome? fun (text, row) =>
    (caseInRow? patterns text).map fun case => ⟨case, row⟩

end Screen

-- ---------------------------------------------------------------------------
-- Tracking
-- ---------------------------------------------------------------------------

/-- Where a text was found. -/
inductive Hit where
  /-- In a new row. -/
  | new
  /-- In a row that was there before. -/
  | screen
  | miss
  deriving DecidableEq, Repr

/-- Whether a text was found at all. -/
def Hit.found : Hit → Bool
  | .miss => false
  | _ => true

/-- The last screen that was seen. -/
structure ScreenTracker where
  last : Option Screen
  deriving DecidableEq, Repr, Inhabited

namespace ScreenTracker

/-- Nothing has been seen. -/
def empty : ScreenTracker := ⟨none⟩

/-- Compares a screen with the last one, and remembers it. -/
def observe (tracker : ScreenTracker) (screen : Screen) : Screen.Diff × ScreenTracker :=
  (Screen.diff tracker.last screen, ⟨some screen⟩)

/-- Searches a screen for a text, the new rows first, and remembers it. -/
def search (tracker : ScreenTracker) (screen : Screen) (needle : String) : Hit × ScreenTracker :=
  let (diff, tracker) := tracker.observe screen
  if Screen.shows diff.newRows needle then (.new, tracker)
  else if Screen.shows screen needle then (.screen, tracker)
  else (.miss, tracker)

/-- Forgets the last screen. All of the next one is new. -/
def reset (_tracker : ScreenTracker) : ScreenTracker := empty

end ScreenTracker

end ConsoleScript
