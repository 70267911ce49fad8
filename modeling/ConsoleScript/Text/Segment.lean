-- SUMMARY: Cutting a text into the forms that a recogniser finds and the characters between them.

/-!
# Segments

A recogniser looks at the front of a text and says whether a form stands there
and how long it is. `segments` runs it over a text from the left: where it
finds a form, the whole form is one segment, and every other character is a
segment of its own. Forms never overlap, and the leftmost one wins.
-/

namespace ConsoleScript.Text

/-- A character of the text, or a form that was recognised in it. -/
inductive Segment (α : Type) where
  | char (c : Char)
  | form (value : α)
  deriving DecidableEq, Repr

/-- What stands at the front of a text, with its length. -/
abbrev Recogniser (α : Type) := List Char → Option (α × Nat)

/-- The segments of a text whose first `skip` characters belong to a form that
    was recognised before. -/
def segmentsFrom {α : Type} (recognise : Recogniser α) : (skip : Nat) → List Char → List (Segment α)
  | _, [] => []
  | skip + 1, _ :: rest => segmentsFrom recognise skip rest
  | 0, c :: rest =>
    match recognise (c :: rest) with
    | some (value, size) => .form value :: segmentsFrom recognise (size - 1) rest
    | none => .char c :: segmentsFrom recognise 0 rest

/-- The segments of a text. -/
def segments {α : Type} (recognise : Recogniser α) (cs : List Char) : List (Segment α) :=
  segmentsFrom recognise 0 cs

/-- The text with each form replaced. -/
def replaceForms {α : Type} (recognise : Recogniser α) (value : α → List Char)
    (cs : List Char) : List Char :=
  (segments recognise cs).flatMap fun
    | .char c => [c]
    | .form a => value a

/-- The forms of a text, in order. -/
def forms {α : Type} (recognise : Recogniser α) (cs : List Char) : List α :=
  (segments recognise cs).filterMap fun
    | .char _ => none
    | .form a => some a

/-- Skipping as many characters as a text has leaves what follows it. -/
theorem segmentsFrom_append {α : Type} (recognise : Recogniser α) (cs rest : List Char) :
    segmentsFrom recognise cs.length (cs ++ rest) = segmentsFrom recognise 0 rest := by
  induction cs with
  | nil => rfl
  | cons c cs ih => exact ih

theorem mem_forms {α : Type} {recognise : Recogniser α} {cs : List Char} {a : α} :
    a ∈ forms recognise cs ↔ .form a ∈ segments recognise cs := by
  simp only [forms, List.mem_filterMap]
  constructor
  · rintro ⟨segment, hmem, hform⟩
    cases segment with
    | char c => cases hform
    | form b => cases hform; exact hmem
  · exact fun hmem => ⟨.form a, hmem, rfl⟩

end ConsoleScript.Text
