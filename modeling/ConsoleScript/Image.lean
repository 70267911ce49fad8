-- SUMMARY: Image formats of screenshots, by name and by file extension.
import ConsoleScript.Text.Search

/-!
# Image formats

A screenshot is written as PPM, which is what a monitor does by itself, or as
PNG.
-/

namespace ConsoleScript

/-- The encoding of a screenshot. -/
inductive ImageFormat where
  | ppm
  | png
  deriving DecidableEq, Repr, Inhabited

namespace ImageFormat

/-- The format with a given name, in any case of its letters. -/
def ofName? (name : String) : Option ImageFormat :=
  let lower := String.ofList (name.toList.map Char.toLower)
  if lower = "ppm" ∨ lower = "pnm" then some .ppm
  else if lower = "png" then some .png
  else none

/-- The format that a path's extension names, and PPM for any other. -/
def ofPath (path : String) : ImageFormat :=
  match Text.splitLast? '.' path.toList with
  | some (_, extension) => (ofName? (String.ofList extension)).getD .ppm
  | none => .ppm

/-- The usual name of a format. -/
def name : ImageFormat → String
  | .ppm => "ppm"
  | .png => "png"

end ImageFormat

end ConsoleScript
