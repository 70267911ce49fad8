-- SUMMARY: Paths of files: joining, the directory of a path, and when two paths are spelled alike.
import ConsoleScript.Text.Search

/-!
# Paths

A path is a text whose parts are divided by slashes. An empty part and a part
`.` mean nothing, except that a `.` in front is kept, and so is the slash of an
absolute path.
-/

namespace ConsoleScript.Path

/-- Whether a path starts at the root. -/
def isAbsolute (path : String) : Bool := path.toList.head? == some '/'

/-- A path seen from a directory. An absolute path stays as it is. -/
def join (dir path : String) : String :=
  if isAbsolute path || dir.isEmpty then path
  else if dir.toList.getLast? == some '/' then dir ++ path
  else dir ++ "/" ++ path

/-- The parts of a path, as they stand between the slashes. -/
def parts (cs : List Char) : List (List Char) := Text.pieces '/' cs

/-- Whether a part means nothing. -/
def isNull (part : List Char) : Bool := part.isEmpty || part == ['.']

/-- The parts of a path that mean something. -/
def components (path : String) : List String :=
  ((parts path.toList).filter (!isNull ·)).map String.ofList

/-- The slash or the dot in front of a path, and what follows it. -/
def splitStart : List Char → List Char × List Char
  | '/' :: rest => (['/'], rest)
  | ['.'] => (['.'], [])
  | '.' :: '/' :: rest => (['.'], '/' :: rest)
  | cs => ([], cs)

/-- Parts with slashes between them. -/
def joinParts (ps : List (List Char)) : List Char :=
  List.intercalate ['/'] ps

/-- The directory of a path, if the path has a last part to leave out. -/
def parent? (path : String) : Option String :=
  let (start, body) := splitStart path.toList
  match (parts body).reverse.dropWhile isNull with
  | _ :: before => some (String.ofList (start ++ joinParts (before.dropWhile isNull).reverse))
  | [] => if start == ['.'] then some "" else none

/-- Whether two paths are spelled alike: they have the same parts and the same
    start. -/
def alike (p q : String) : Bool :=
  (splitStart p.toList).1 == (splitStart q.toList).1 && components p == components q

end ConsoleScript.Path
