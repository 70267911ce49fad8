-- SUMMARY: What the rows of a recognised text are fitted to, and when fitting them once more changes nothing.
import ConsoleScript.Ocr
import ConsoleScript.Proofs.Text.Lines
import ConsoleScript.Proofs.Text.Words

/-!
# Fitted rows

Choosing the lines that are shown and shaping each of them do not depend on each other
(`fitToScreen_eq`): a line is shown or not for what it is before it is cut. So everything is a
fact about one line. A row that was not cut does not end with a blank, since the blanks were
taken off; a row that was cut ends with whatever the cut left there (`endsBlank_fitRow_iff`).
Rows without such a blank are their own lines, and fitting them leaves them as they are.
-/

namespace ConsoleScript.Ocr

open Text

variable {columns rows : Nat} {line : List Char}

/-! ## One line -/

/-- A row with a blank at its end. -/
def EndsBlank (row : List Char) : Prop := ∃ c ∈ row.getLast?, isBlank c = true

/-- A line that is longer than the screen is wide and has a blank where it is cut. -/
def CutAfterBlank (columns : Nat) (line : List Char) : Prop :=
  columns ≠ 0 ∧ columns < (trimEnd line).length ∧
    ∃ c ∈ (trimEnd line)[columns - 1]?, isBlank c = true

theorem not_endsBlank_trimEnd (line : List Char) : ¬ EndsBlank (trimEnd line) := by
  rintro ⟨c, hc, hblank⟩
  rw [getLast?_trimEnd line c hc] at hblank
  cases hblank

theorem trimEnd_eq_self_of_not_endsBlank (h : ¬ EndsBlank line) : trimEnd line = line :=
  trimEnd_eq_self fun c hc => Bool.eq_false_iff.mpr fun hblank => h ⟨c, hc, hblank⟩

theorem fitRow_sublist (columns : Nat) (line : List Char) : (fitRow columns line).Sublist line := by
  have htrim : (trimEnd line).Sublist line := List.rdropWhile_prefix isBlank line |>.sublist
  rw [fitRow]
  split
  · exact htrim
  · exact (List.take_sublist columns _).trans htrim

theorem length_fitRow_le (h : columns ≠ 0) (line : List Char) :
    (fitRow columns line).length ≤ columns := by
  rw [fitRow, if_neg h]
  exact List.length_take_le columns _

/-- A line is left with nothing if and only if there was nothing on it: a cut leaves at
    least one character. -/
theorem fitRow_eq_nil_iff : fitRow columns line = [] ↔ ∀ c ∈ line, isBlank c = true := by
  rw [← trimEnd_eq_nil_iff, fitRow]
  split
  · rfl
  · next h => rw [List.take_eq_nil_iff, or_iff_right h]

/-- Only a cut can leave a blank at the end of a row. -/
theorem endsBlank_fitRow_iff : EndsBlank (fitRow columns line) ↔ CutAfterBlank columns line := by
  rw [fitRow]
  split
  · next h => exact iff_of_false (not_endsBlank_trimEnd line) fun hcut => hcut.1 h
  · next h =>
    by_cases hlong : columns < (trimEnd line).length
    · have hlast : ((trimEnd line).take columns).getLast? = (trimEnd line)[columns - 1]? := by
        rw [List.getLast?_take, if_neg h, List.getElem?_eq_getElem (by omega)]
        rfl
      rw [EndsBlank, CutAfterBlank, hlast]
      exact ⟨fun hblank => ⟨h, hlong, hblank⟩, fun hcut => hcut.2.2⟩
    · rw [List.take_of_length_le (Nat.le_of_not_lt hlong)]
      exact iff_of_false (not_endsBlank_trimEnd line) fun hcut => hlong hcut.2.1

/-- A row that fits is left as it is. -/
theorem fitRow_eq_self (hwidth : columns ≠ 0 → line.length ≤ columns) (h : ¬ EndsBlank line) :
    fitRow columns line = line := by
  rw [fitRow, trimEnd_eq_self_of_not_endsBlank h]
  split
  · rfl
  · next hcolumns => exact List.take_of_length_le (hwidth hcolumns)

/-! ## The lines that are shown -/

/-- The lines down to the last that is not blank, and of them the lowest ones. -/
def shownOf (rows : Nat) (lines : List (List Char)) : List (List Char) :=
  keepLast rows (lines.reverse.dropWhile (·.all isBlank)).reverse

/-- The lines of a text that a screen shows. -/
def shownLines (rows : Nat) (text : String) : List (List Char) :=
  shownOf rows (lineChars text.toList)

theorem keepLast_suffix {α : Type} (n : Nat) (xs : List α) : keepLast n xs <:+ xs := by
  rw [keepLast]
  split
  · exact List.suffix_refl xs
  · exact List.drop_suffix _ xs

theorem map_keepLast {α β : Type} (f : α → β) (n : Nat) (xs : List α) :
    (keepLast n xs).map f = keepLast n (xs.map f) := by
  rw [keepLast, keepLast, List.length_map]
  split
  · rfl
  · exact List.map_drop

theorem length_keepLast_le {α : Type} {n : Nat} (h : n ≠ 0) (xs : List α) :
    (keepLast n xs).length ≤ n := by
  rw [keepLast, if_neg h, List.length_drop]
  omega

theorem shownOf_sublist (rows : Nat) (lines : List (List Char)) :
    (shownOf rows lines).Sublist lines :=
  (keepLast_suffix rows _).sublist.trans (List.rdropWhile_prefix _ lines).sublist

/-- The rows are the shown lines, each of them fitted by itself. -/
theorem fitToScreen_eq (text : String) (columns rows : Nat) :
    fitToScreen text columns rows =
      (shownLines rows text).map fun line => String.ofList (fitRow columns line) := by
  have hempty : List.isEmpty ∘ fitRow columns = fun line => line.all isBlank := by
    funext line
    rw [Bool.eq_iff_iff, Function.comp_apply, List.isEmpty_iff, fitRow_eq_nil_iff,
      List.all_eq_true]
  rw [fitToScreen, shownLines, shownOf, ← List.map_reverse, List.dropWhile_map, hempty,
    ← List.map_reverse, ← map_keepLast, List.map_map]
  rfl

theorem getLast?_keepLast {α : Type} (n : Nat) (xs : List α) :
    (keepLast n xs).getLast? = xs.getLast? := by
  rw [keepLast]
  split
  · rfl
  · next h =>
    rw [List.getLast?_drop]
    split
    · next hshort =>
      have hnil : xs = [] := List.length_eq_zero_iff.mp (by omega)
      rw [hnil, List.getLast?_nil]
    · rfl

/-- The lowest line that is shown is not blank. -/
theorem not_blank_of_mem_getLast?_shownOf {lines : List (List Char)}
    (h : line ∈ (shownOf rows lines).getLast?) : ¬ ∀ c ∈ line, isBlank c = true := by
  rw [shownOf, getLast?_keepLast] at h
  have hne := List.ne_nil_of_mem (List.mem_of_mem_getLast? h)
  rw [List.getLast?_eq_some_getLast hne] at h
  obtain rfl := Option.some.inj h
  rw [← List.all_eq_true]
  exact List.rdropWhile_last_not _ lines hne

/-- Lines that fit are all shown if the last one is not blank. -/
theorem shownOf_eq_self {lines : List (List Char)} (hheight : rows ≠ 0 → lines.length ≤ rows)
    (hlast : ∀ line ∈ lines.getLast?, ¬ ∀ c ∈ line, isBlank c = true) :
    shownOf rows lines = lines := by
  have hdropped : (lines.reverse.dropWhile (·.all isBlank)).reverse = lines := by
    refine List.rdropWhile_eq_self_iff.mpr fun hne => ?_
    rw [List.all_eq_true]
    exact hlast _ (List.getLast?_eq_some_getLast hne)
  rw [shownOf, hdropped, keepLast]
  split
  · rfl
  · next hrows => rw [Nat.sub_eq_zero_of_le (hheight hrows), List.drop_zero]

/-! ## The rows of a screen -/

/-- Rows that a screen can show, the lowest of which is not empty. A limit of 0 is none. -/
structure Fits (columns rows : Nat) (screen : Screen) : Prop where
  height : rows ≠ 0 → screen.length ≤ rows
  width : columns ≠ 0 → ∀ row ∈ screen, row.length ≤ columns
  last : ∀ row ∈ screen.getLast?, row ≠ ""

theorem fits_fitToScreen (text : String) (columns rows : Nat) :
    Fits columns rows (fitToScreen text columns rows) := by
  rw [fitToScreen_eq]
  refine ⟨fun hrows => ?_, fun hcolumns row hrow => ?_, fun row hrow => ?_⟩
  · rw [List.length_map]
    exact length_keepLast_le hrows _
  · obtain ⟨line, -, rfl⟩ := List.mem_map.mp hrow
    rw [String.length_ofList]
    exact length_fitRow_le hcolumns line
  · rw [List.getLast?_map] at hrow
    obtain ⟨line, hline, rfl⟩ := Option.map_eq_some_iff.mp hrow
    have hblank := not_blank_of_mem_getLast?_shownOf hline
    rw [← @fitRow_eq_nil_iff columns] at hblank
    simpa using hblank

theorem feed_not_mem_fitToScreen {text row : String} (h : row ∈ fitToScreen text columns rows) :
    '\n' ∉ row.toList := by
  rw [fitToScreen_eq] at h
  obtain ⟨line, hline, rfl⟩ := List.mem_map.mp h
  have hfeed : '\n' ∉ line := feed_not_mem_of_mem_lineChars ((shownOf_sublist rows _).mem hline)
  rw [String.toList_ofList]
  exact fun hmem => hfeed ((fitRow_sublist columns line).mem hmem)

theorem endsBlank_fitToScreen_iff (text : String) (columns rows : Nat) :
    (∀ row ∈ fitToScreen text columns rows, ¬ EndsBlank row.toList) ↔
      ∀ line ∈ shownLines rows text, ¬ CutAfterBlank columns line := by
  simp only [fitToScreen_eq, List.forall_mem_map, String.toList_ofList, endsBlank_fitRow_iff]

/-! ## Fitting rows once more -/

/-- The text of rows, one below the other. -/
def joined (screen : Screen) : String := "\n".intercalate screen

theorem toList_joined (screen : Screen) :
    (joined screen).toList = ['\n'].intercalate (screen.map String.toList) := by
  rw [joined, String.toList_intercalate]
  rfl

theorem Fits.getLast?_toList {screen : Screen} (h : Fits columns rows screen) :
    (screen.map String.toList).getLast? ≠ some [] := by
  rw [List.getLast?_map]
  intro hnil
  obtain ⟨row, hrow, hempty⟩ := Option.map_eq_some_iff.mp hnil
  exact h.last row hrow (by simpa using hempty)

/-- Rows that fit and do not end with a blank are left as they are. -/
theorem Fits.fitToScreen_joined {screen : Screen} (h : Fits columns rows screen)
    (hfeed : ∀ row ∈ screen, '\n' ∉ row.toList)
    (hplain : ∀ row ∈ screen, ¬ EndsBlank row.toList) :
    fitToScreen (joined screen) columns rows = screen := by
  have hlines : lineChars (joined screen).toList = screen.map String.toList := by
    rw [toList_joined]
    refine lineChars_intercalate_eq_self (List.forall_mem_map.mpr fun row hrow => ?_)
      h.getLast?_toList
    exact ⟨hfeed row hrow, fun hreturn => hplain row hrow ⟨'\r', hreturn, rfl⟩⟩
  have hshown : shownLines rows (joined screen) = screen.map String.toList := by
    rw [shownLines, hlines]
    refine shownOf_eq_self (by simpa using h.height) fun line hline hblank => ?_
    rw [List.getLast?_map] at hline
    obtain ⟨row, hrow, rfl⟩ := Option.map_eq_some_iff.mp hline
    have hne : row.toList ≠ [] := by simpa using h.last row hrow
    refine hplain row (List.mem_of_mem_getLast? hrow) ⟨row.toList.getLast hne, ?_, ?_⟩
    · exact List.getLast?_eq_some_getLast hne
    · exact hblank _ (List.getLast_mem hne)
  rw [fitToScreen_eq, hshown, List.map_map]
  refine (List.map_congr_left fun row hrow => ?_).trans (List.map_id screen)
  rw [Function.comp_apply, fitRow_eq_self (fun hcolumns => h.width hcolumns row hrow)
    (hplain row hrow), String.ofList_toList]
  rfl

/-- Fitting rows that fit cuts none of them, so no blank is left at their ends. -/
theorem Fits.not_endsBlank_joined {screen : Screen} (h : Fits columns rows screen)
    (hfeed : ∀ row ∈ screen, '\n' ∉ row.toList) :
    ∀ row ∈ fitToScreen (joined screen) columns rows, ¬ EndsBlank row.toList := by
  rw [endsBlank_fitToScreen_iff]
  rintro line hline ⟨hcolumns, hlong, -⟩
  have hmem : line ∈ lineChars (joined screen).toList := (shownOf_sublist rows _).mem hline
  rw [toList_joined] at hmem
  obtain ⟨whole, hwhole, hprefix⟩ := exists_prefix_of_mem_lineChars_intercalate
    (List.forall_mem_map.mpr hfeed) h.getLast?_toList hmem
  obtain ⟨row, hrow, rfl⟩ := List.mem_map.mp hwhole
  have hwidth : row.toList.length ≤ columns := h.width hcolumns row hrow
  have htrim : (trimEnd line).length ≤ line.length :=
    (List.rdropWhile_prefix isBlank (l := line)).length_le
  have hline : line.length ≤ row.toList.length := hprefix.length_le
  omega

/-- The rows of a recognised text keep to the screen and do not end with an empty one. They
    are in normal form, without blanks at their ends and left as they are when they are fitted
    once more, if and only if no line that is shown was cut right after a blank. -/
theorem fitToScreen_normal_iff (text : String) (columns rows : Nat) :
    let screen := fitToScreen text columns rows
    Fits columns rows screen ∧
      ((∀ row ∈ screen, ¬ EndsBlank row.toList) ↔
        ∀ line ∈ shownLines rows text, ¬ CutAfterBlank columns line) ∧
      (fitToScreen (joined screen) columns rows = screen ↔
        ∀ line ∈ shownLines rows text, ¬ CutAfterBlank columns line) := by
  intro screen
  have hfits : Fits columns rows screen := fits_fitToScreen text columns rows
  have hfeed : ∀ row ∈ screen, '\n' ∉ row.toList := fun _ => feed_not_mem_fitToScreen
  have hplain := endsBlank_fitToScreen_iff text columns rows
  refine ⟨hfits, hplain, fun hsame => ?_, fun hcut => ?_⟩
  · rw [← hplain]
    change ∀ row ∈ screen, _
    rw [← hsame]
    exact hfits.not_endsBlank_joined hfeed
  · exact hfits.fitToScreen_joined hfeed (hplain.mpr hcut)

/-- A line is trimmed before it is cut, so a blank right before the cut stays, and goes
    when the row is fitted once more. -/
theorem cut_leaves_blank :
    fitToScreen "ab cd" 3 0 = ["ab "] ∧ EndsBlank "ab ".toList ∧
      fitToScreen (joined ["ab "]) 3 0 = ["ab"] := by
  refine ⟨by decide, ⟨' ', by decide, by decide⟩, by decide⟩

end ConsoleScript.Ocr
