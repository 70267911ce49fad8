-- SUMMARY: Searching the new rows first finds what a plain search of the screen finds.
import ConsoleScript.Proofs.Screen.Alignment

/-!
# Tracking screens

A tracker compares each screen with the one before, and searches the new rows first. What
counts as new depends on that screen, and on an offset that is only guessed. Whatever is
guessed, new rows are rows of the screen that are not blank (`mem_of_mem_newRows`), and
where they do not show a text the whole screen is searched. So a text is found exactly if
some row contains it (`search_found_iff`), whatever has been done with the tracker before.
-/

namespace ConsoleScript

namespace Screen

variable {screen : Screen} {before : Option Screen} {after : Screen} {row needle : String}

theorem shows_eq_true_iff :
    screen.shows needle = true ↔ ∃ row ∈ screen, needle.toList <:+: row.toList := by
  simp [shows, Text.contains_eq_true_iff]

theorem not_isBlankRow_of_isNew {offset : Option Int} {j : Nat} {old : Screen}
    (h : isNew old offset row j = true) : isBlankRow row = false := by
  unfold isNew at h
  split at h
  · cases h
  · next hblank => exact Bool.not_eq_true _ ▸ hblank

/-- Rows that are new are rows of the screen, and not blank. -/
theorem mem_of_mem_newRows (h : row ∈ (diff before after).newRows) :
    row ∈ after ∧ isBlankRow row = false := by
  unfold diff at h
  split at h
  -- of the first screen every row that is not blank is new
  iterate 2
    simpa using h
  · simp only [List.mem_reverse, List.mem_map, List.mem_filter] at h
    obtain ⟨⟨text, j⟩, ⟨hmem, hnew⟩, rfl⟩ := h
    exact ⟨List.fst_mem_of_mem_zipIdx hmem, not_isBlankRow_of_isNew hnew⟩

theorem shows_of_newRows (h : shows (diff before after).newRows needle = true) :
    ∃ row ∈ after, isBlankRow row = false ∧ needle.toList <:+: row.toList := by
  obtain ⟨row, hrow, hneedle⟩ := shows_eq_true_iff.mp h
  obtain ⟨hmem, hblank⟩ := mem_of_mem_newRows hrow
  exact ⟨row, hmem, hblank, hneedle⟩

end Screen

namespace ScreenTracker

/-- What can be done with a tracker. -/
inductive Use where
  | observe (screen : Screen)
  | search (screen : Screen) (needle : String)
  | reset

/-- A tracker after it was used. -/
def used (tracker : ScreenTracker) : Use → ScreenTracker
  | .observe screen => (tracker.observe screen).2
  | .search screen needle => (tracker.search screen needle).2
  | .reset => tracker.reset

/-- The tracker that has a history. -/
def ofHistory (history : List Use) : ScreenTracker := history.foldl used empty

variable {tracker : ScreenTracker} {screen : Screen} {needle : String}

theorem search_snd : (tracker.search screen needle).2 = ⟨some screen⟩ := by
  unfold search observe
  dsimp only
  split
  · rfl
  · split <;> rfl

theorem search_fst :
    (tracker.search screen needle).1 =
      if Screen.shows (Screen.diff tracker.last screen).newRows needle then .new
      else if screen.shows needle then .screen
      else .miss := by
  unfold search observe
  dsimp only
  split
  · rfl
  · split <;> rfl

theorem search_found_eq : (tracker.search screen needle).1.found = screen.shows needle := by
  rw [search_fst]
  split
  · next hnew =>
    obtain ⟨row, hrow, -, hneedle⟩ := Screen.shows_of_newRows hnew
    exact (Screen.shows_eq_true_iff.mpr ⟨row, hrow, hneedle⟩).symm
  · split
    · next hshows => exact hshows.symm
    · next hshows => exact (Bool.eq_false_iff.mpr hshows).symm

theorem search_found_iff : (tracker.search screen needle).1.found = true ↔
    ∃ row ∈ screen, needle.toList <:+: row.toList := by
  rw [search_found_eq, Screen.shows_eq_true_iff]

theorem exists_row_of_search_new (h : (tracker.search screen needle).1 = .new) :
    ∃ row ∈ screen, (∃ c ∈ row.toList, Text.isBlank c = false) ∧
      needle.toList <:+: row.toList := by
  rw [search_fst] at h
  split at h
  · next hnew =>
    obtain ⟨row, hrow, hblank, hneedle⟩ := Screen.shows_of_newRows hnew
    exact ⟨row, hrow, Screen.isBlankRow_eq_false_iff.mp hblank, hneedle⟩
  · split at h <;> cases h

end ScreenTracker

end ConsoleScript
