-- SUMMARY: Recognising the text of a screen image with an external program.
import ConsoleScript.Screen
import ConsoleScript.SystemError
import ConsoleScript.Text.Utf8

/-!
# Text recognition

The rows of a screen image come from a program, `tesseract`, that prints the
text it recognises. Its output is fitted to the screen: rows lose the blanks at
their end, are cut to the width, and only the lowest ones are kept.
-/

namespace ConsoleScript

/-- Why a screen could not be recognised. -/
inductive OcrError where
  | notStarted (program : String) (cause : SystemError)
  | failed (program : String) (status : Nat) (complaint : String)
  deriving DecidableEq, Repr

/-- The wording of an error. -/
def OcrError.message : OcrError → String
  | .notStarted program cause => "cannot run " ++ program ++ ": " ++ cause.message
  | .failed program status complaint =>
    program ++ " exited with exit status: " ++ toString status ++ ": " ++ complaint

/-- What a program left behind. -/
structure ProgramRun where
  status : Nat
  output : List UInt8
  complaint : List UInt8
  deriving DecidableEq, Repr

/-- How screens are recognised. -/
structure Ocr where
  program : String
  /-- Where the program finds its data. -/
  dataDir : Option String
  language : String
  /-- How the program divides an image. Mode 6 takes it for one block of text. -/
  segmentation : Nat
  /-- The width of the screen, or 0 for any. -/
  columns : Nat
  /-- The height of the screen, or 0 for any. -/
  rows : Nat
  deriving DecidableEq, Repr

namespace Ocr

/-- English on a screen of 80 columns and 25 rows. -/
def standard : Ocr := ⟨"tesseract", none, "eng", 6, 80, 25⟩

instance : Inhabited Ocr := ⟨standard⟩

/-- The arguments with which the program is run on an image. -/
def arguments (ocr : Ocr) (image : String) : List String :=
  [image, "stdout"] ++
    (match ocr.dataDir with
      | some dir => ["--tessdata-dir", dir]
      | none => []) ++
    ["-l", ocr.language, "--psm", toString ocr.segmentation]

-- ---------------------------------------------------------------------------
-- Fitting rows to the screen
-- ---------------------------------------------------------------------------

/-- One row without the blanks at its end, cut to a width unless that is 0. -/
def fitRow (columns : Nat) (row : List Char) : List Char :=
  let row := Text.trimEnd row
  if columns = 0 then row else row.take columns

/-- The last `n` elements of a list, or all for 0. -/
def keepLast {α : Type} (n : Nat) (xs : List α) : List α :=
  if n = 0 then xs else xs.drop (xs.length - n)

/-- The rows of a text, fitted to a screen. Empty rows at the bottom are left
    out before the lowest rows are kept. -/
def fitToScreen (text : String) (columns rows : Nat) : Screen :=
  let fitted := (Text.lineChars text.toList).map (fitRow columns)
  let shown := (fitted.reverse.dropWhile List.isEmpty).reverse
  (keepLast rows shown).map String.ofList

/-- The rows that a program's run gives. -/
def rowsOf (ocr : Ocr) (run : Except SystemError ProgramRun) : Except OcrError Screen :=
  match run with
  | .error e => .error (.notStarted ocr.program e)
  | .ok execution =>
    if execution.status = 0 then
      .ok (fitToScreen (Text.Utf8.decodeLossy execution.output) ocr.columns ocr.rows)
    else
      .error (.failed ocr.program execution.status
        (Text.trim (Text.Utf8.decodeLossy execution.complaint)))

end Ocr

end ConsoleScript
