-- SUMMARY: A tree of files as a value: resolving paths, reading texts, canonical names.
import ConsoleScript.Path
import ConsoleScript.SystemError
import ConsoleScript.Text.Utf8

/-!
# File systems

The files that a script can reach, as a value. A path is resolved part by part
from the working directory, or from the root, as POSIX has it: each part but
the last has to be a directory that exists, also before a `..`. There are no
symbolic links, so a place has one name.
-/

namespace ConsoleScript

/-- What a name in a directory stands for. -/
inductive FileNode where
  | directory
  | file (bytes : List UInt8)
  /-- A file that is neither: it exists, and nothing can be read from it. -/
  | socket
  deriving DecidableEq, Repr

/-- Files by their places, which are lists of names from the root. -/
structure FileSystem where
  nodes : List (List String × FileNode)
  /-- The place from which relative paths start. -/
  working : List String
  deriving Repr

namespace FileSystem

/-- The place where `node?` finds nothing but the directories on the way to the
    working directory. -/
def empty : FileSystem := ⟨[], []⟩

instance : Inhabited FileSystem := ⟨empty⟩

/-- What is at a place. A place on the way to another one is a directory. -/
def node? (fs : FileSystem) (place : List String) : Option FileNode :=
  match fs.nodes.lookup place with
  | some node => some node
  | none =>
    if place.isPrefixOf fs.working || fs.nodes.any (fun entry => place.isPrefixOf entry.1) then
      some .directory
    else none

/-- The longest name that a directory can hold, in bytes. -/
def maxName : Nat := 255

/-- The longest path, in bytes. -/
def maxPath : Nat := 4095

/-- Follows the parts of a path from a place. -/
def follow (fs : FileSystem) (place : List String) : List (List Char) → Except SystemError (List String)
  | [] => .ok place
  | part :: rest =>
    match fs.node? place with
    | some .directory =>
      if Path.isNull part then follow fs place rest
      else if part = ['.', '.'] then follow fs place.dropLast rest
      else
        let name := String.ofList part
        if maxName < (Text.Utf8.encode name).length then .error .nameTooLong
        else
          let next := place ++ [name]
          if (fs.node? next).isSome then follow fs next rest else .error .notFound
    | _ => .error .notADirectory

/-- The place of an existing file or directory. -/
def resolve (fs : FileSystem) (path : String) : Except SystemError (List String) :=
  if Text.hasEndMark path then .error .endMarkInPath
  else if path.isEmpty then .error .notFound
  else if maxPath < (Text.Utf8.encode path).length then .error .nameTooLong
  else
    let start := if Path.isAbsolute path then [] else fs.working
    fs.follow start (Path.parts path.toList)

/-- The one absolute path of an existing file or directory. -/
def canonical? (fs : FileSystem) (path : String) : Option String :=
  (fs.resolve path).toOption.map fun place => "/" ++ "/".intercalate place

/-- Whether a path leads to a file or a directory. -/
def pathExists (fs : FileSystem) (path : String) : Bool :=
  (fs.resolve path).toOption.isSome

/-- Reads a file as text. -/
def readText (fs : FileSystem) (path : String) : Except SystemError String :=
  match fs.resolve path with
  | .error e => .error e
  | .ok place =>
    match fs.node? place with
    | some (.file bytes) =>
      match Text.Utf8.decode? bytes with
      | some text => .ok text
      | none => .error .notText
    | some .directory => .error .isADirectory
    | some .socket => .error .noDevice
    | none => .error .notFound

/-- Where a name leads from a place, without regard to what exists. -/
def enter (place : List String) (name : String) : List String :=
  if name = ".." then place.dropLast else place ++ [name]

/-- The places that names lead to, one after the other. -/
def trail (place : List String) : List String → List (List String)
  | [] => []
  | name :: rest => enter place name :: trail (enter place name) rest

/-- The files with one more at a path. All that the path passes through becomes a
    directory. -/
def insert (fs : FileSystem) (path : String) (node : FileNode) : FileSystem :=
  let start := if Path.isAbsolute path then [] else fs.working
  let places := trail start (Path.components path)
  let passed := places.dropLast.map fun place => (place, FileNode.directory)
  { fs with nodes := (places.getLast?.getD start, node) :: passed ++ fs.nodes }

/-- The files with their paths from the working directory. Of two at one place the
    later stays. -/
def ofFiles (working : List String) (files : List (String × FileNode)) : FileSystem :=
  files.foldl (fun fs entry => fs.insert entry.1 entry.2) ⟨[], working⟩

end FileSystem

end ConsoleScript
