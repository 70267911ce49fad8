-- SUMMARY: The texts that can be read from a file system, with the names under which their files run.
import ConsoleScript.Run.Session

/-!
# Files that can be read

There are many ways to spell the path of a file. A file counts as running under its
canonical path though, and of these there are no more than there are files
(`FileSystem.readText_mem_texts`).
-/

namespace ConsoleScript

namespace FileSystem

/-- The texts of a file system, with the canonical paths of their files. -/
def texts (fs : FileSystem) : List (String × String) :=
  fs.nodes.filterMap fun entry =>
    match entry.2 with
    | .file bytes => (Text.Utf8.decode? bytes).map ("/" ++ "/".intercalate entry.1, ·)
    | _ => none

/-- A file is at a place that the file system lists. -/
theorem mem_nodes_of_file {fs : FileSystem} {place : List String} {bytes : List UInt8}
    (h : fs.node? place = some (.file bytes)) : (place, .file bytes) ∈ fs.nodes := by
  unfold node? at h
  split at h
  · next node hlookup =>
    cases h
    obtain ⟨before, after, hnodes, -⟩ := List.lookup_eq_some_iff.mp hlookup
    rw [hnodes]
    exact List.mem_append_right _ List.mem_cons_self
  · split at h
    · cases h
    · cases h

theorem readText_mem_texts {fs : FileSystem} {path text : String}
    (h : fs.readText path = .ok text) : (Session.fileKey fs path, text) ∈ fs.texts := by
  unfold readText at h
  split at h
  · cases h
  · next place hresolve =>
    split at h
    · next bytes hnode =>
      split at h
      · next text' hdecode =>
        cases h
        have hkey : Session.fileKey fs path = "/" ++ "/".intercalate place := by
          simp [Session.fileKey, canonical?, hresolve, Except.toOption]
        refine List.mem_filterMap.mpr ⟨_, mem_nodes_of_file hnode, ?_⟩
        simp [hdecode, hkey]
      · cases h
    · cases h
    · cases h
    · cases h

end FileSystem

end ConsoleScript
