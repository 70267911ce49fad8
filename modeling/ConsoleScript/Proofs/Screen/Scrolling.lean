-- SUMMARY: How far a console has scrolled is found exactly, and so are the rows that are new since.
import ConsoleScript.Proofs.Screen.Alignment

/-!
# Scrolling

A console that has scrolled by `k` rows shows what was below them, and fresh rows after
that. Rows that stand in the place to which they have moved fit together under `k`,
whatever else is on the screen (`fitsAt_scrolled`), and where all rows are distinct
nothing else does (`FitsAt.eq_of_scrolled`). So `k` is found, and the fresh rows are the
new ones. A screen that is compared with itself has scrolled by nothing, and shows nothing
new even if it shows a row twice (`scrolling_found`).
-/

namespace ConsoleScript.Screen

variable {before after fresh screen : Screen} {offset : Int} {row : String} {i j k : Nat}

/-! ## Rows that have moved -/

theorem rowAt?_natCast (screen : Screen) (i : Nat) : screen.rowAt? i = screen[i]? := by
  simp [rowAt?]

/-- What was `k` rows further down stands above the fresh rows. -/
theorem getElem?_scrolled (hj : j + k < before.length) :
    (before.drop k ++ fresh)[j]? = before[j + k]? := by
  have hlt : j < (before.drop k).length := by
    rw [List.length_drop]
    omega
  rw [List.getElem?_append_left hlt, List.getElem?_drop, Nat.add_comm]

/-- A row that is not fresh stands above the fresh rows. -/
theorem getElem?_of_scrolled (hrow : row ∉ fresh) (h : (before.drop k ++ fresh)[j]? = some row) :
    before[j + k]? = some row := by
  rcases Nat.lt_or_ge j (before.drop k).length with hlt | hge
  · rw [List.getElem?_append_left hlt, List.getElem?_drop, Nat.add_comm] at h
    exact h
  · rw [List.getElem?_append_right hge] at h
    exact absurd (List.mem_of_getElem? h) hrow

/-! ## The offset -/

/-- Screens go on alike where each of the following rows is the one that it is aligned
    with. -/
theorem goesOnAlike_of_eq (h : ∀ (m : Nat) old, before.rowAt? (j + m + offset) = some old →
    ∀ row, after[j + m]? = some row → row = old) : GoesOnAlike before after offset j := by
  -- all of the rows that are counted begin alike
  refine .inr (Nat.mul_le_mul (by decide) (Nat.le_of_eq (List.countP_eq_length.mpr ?_).symm))
  rintro ⟨old, row⟩ hpair
  obtain ⟨m, -, hpair⟩ := List.mem_filterMap.mp hpair
  obtain ⟨old', hold, hpair⟩ := Option.bind_eq_some_iff.mp hpair
  obtain ⟨row', hrow, heq⟩ := Option.map_eq_some_iff.mp hpair
  obtain ⟨rfl, rfl⟩ := Prod.mk.inj heq
  rw [h m old' hold row' hrow]
  simp

/-- The screens fit together under `k` if some row that has moved is not blank. -/
theorem fitsAt_scrolled (hrow : before[j + k]? = some row)
    (hblank : ∃ c ∈ row.toList, Text.isBlank c = false) :
    FitsAt before (before.drop k ++ fresh) k := by
  have hmoved : ∀ {i : Nat} {old}, before.rowAt? (i + k) = some old →
      (before.drop k ++ fresh)[i]? = some old := by
    intro i old hold
    rw [← Int.natCast_add, rowAt?_natCast] at hold
    rw [getElem?_scrolled (List.getElem?_eq_some_iff.mp hold).1, hold]
  have hanchor : before.rowAt? (j + k) = some row := by
    rw [← Int.natCast_add, rowAt?_natCast, hrow]
  refine ⟨j, ⟨row, hmoved hanchor, hblank, hanchor⟩, goesOnAlike_of_eq ?_⟩
  intro m old hold row hrow
  have hsame := hmoved (i := j + m) hold
  rw [hrow] at hsame
  exact Option.some.inj hsame

/-- The screens fit together under nothing else if all rows are distinct: only a row that
    has moved can be the same. -/
theorem FitsAt.eq_of_scrolled (hdistinct : before.Nodup) (hfresh : ∀ row ∈ fresh, row ∉ before)
    (h : FitsAt before (before.drop k ++ fresh) offset) : offset = k := by
  obtain ⟨j, ⟨row, hafter, -, hbefore⟩, -⟩ := h
  obtain ⟨hnonneg, hlt⟩ := rowAt?_eq_some hbefore
  have hold : before[(j + offset).toNat]? = some row := by
    rw [← hbefore, rowAt?, if_pos hnonneg]
  have hnew : row ∉ fresh := fun hmem => hfresh row hmem (List.mem_of_getElem? hold)
  have hmoved := getElem?_of_scrolled hnew hafter
  have hplace : (j + offset).toNat = j + k :=
    (List.getElem?_inj (by omega) hdistinct).mp (hold.trans hmoved.symm)
  omega

theorem findOffset?_scrolled (hdistinct : before.Nodup)
    (hblank : ∀ row ∈ before, ∃ c ∈ row.toList, Text.isBlank c = false) (hk : k < before.length)
    (hfresh : ∀ row ∈ fresh, row ∉ before) :
    findOffset? before (before.drop k ++ fresh) = some (k : Int) := by
  have hrow : before[0 + k]? = some before[k] := by
    rw [Nat.zero_add, List.getElem?_eq_getElem hk]
  have hfits : FitsAt before (before.drop k ++ fresh) k :=
    fitsAt_scrolled hrow (hblank _ (List.getElem_mem hk))
  obtain ⟨offset, hfound⟩ := Option.isSome_iff_exists.mp (findOffset?_isSome_iff.mpr ⟨k, hfits⟩)
  rw [hfound, (fitsAt_of_findOffset? hfound).eq_of_scrolled hdistinct hfresh]

/-- No offset is smaller than none at all. -/
theorem findOffset?_of_fitsAt_zero (h : FitsAt before after 0) :
    findOffset? before after = some 0 := by
  obtain ⟨offset, hfound⟩ := Option.isSome_iff_exists.mp (findOffset?_isSome_iff.mpr ⟨0, h⟩)
  have hleast := not_triedBefore_of_findOffset? hfound h
  unfold TriedBefore at hleast
  rw [hfound]
  exact congrArg some (by omega)

/-! ## New rows -/

theorem diff_of_ne_nil (hbefore : before ≠ []) :
    diff (some before) after =
      ⟨findOffset? before after, ((after.zipIdx.filter fun (row, j) =>
        isNew before (findOffset? before after) row j).map Prod.fst).reverse⟩ := by
  cases before with
  | nil => exact absurd rfl hbefore
  | cons row rest => rfl

theorem isNew_of_blank {found : Option Int} (h : isBlankRow row = true) :
    isNew before found row j = false := by
  rw [isNew, if_pos h]

/-- A row that has only moved is not new. -/
theorem isNew_of_moved (h : before[j + k]? = some row) :
    isNew before (some (k : Int)) row j = false := by
  have haligned : aligned? before j k = some row := by
    rw [aligned?_eq_rowAt?, ← Int.natCast_add, rowAt?_natCast, h]
  have hseen : row ∈ before := List.mem_of_getElem? h
  cases hblank : isBlankRow row with
  | true => exact isNew_of_blank hblank
  | false => simp [isNew, hblank, hseen, haligned]

theorem isNew_of_fresh {found : Option Int} (hrow : row ∉ before)
    (hblank : ∃ c ∈ row.toList, Text.isBlank c = false) :
    isNew before found row j = true := by
  simp [isNew, isBlankRow_eq_false_iff.mpr hblank, hrow]

/-- What a screen shows is not new to it, be there rows that are the same or not. -/
theorem newRows_self (screen : Screen) : (diff (some screen) screen).newRows = [] := by
  by_cases hempty : screen = []
  · rw [hempty]
    rfl
  have hold : ∀ entry ∈ screen.zipIdx,
      ¬isNew screen (findOffset? screen screen) entry.1 entry.2 = true := by
    rintro ⟨row, j⟩ hentry
    have hrow : screen[j + 0]? = some row := List.mk_mem_zipIdx_iff_getElem?.mp hentry
    rw [Bool.not_eq_true]
    cases hblank : isBlankRow row with
    | true => exact isNew_of_blank hblank
    | false =>
      have hfits : FitsAt screen (screen.drop 0 ++ []) (0 : Nat) :=
        fitsAt_scrolled hrow (isBlankRow_eq_false_iff.mp hblank)
      rw [List.drop_zero, List.append_nil] at hfits
      rw [findOffset?_of_fitsAt_zero hfits]
      exact isNew_of_moved hrow
  rw [diff_of_ne_nil hempty, List.filter_eq_nil_iff.mpr hold]
  rfl

/-- If all rows of a screen are distinct and not blank, and it scrolls by less than its
    height while fresh rows follow that it did not show, then it is found how far it has
    scrolled, and the new rows are the fresh ones from the bottom to the top. And no screen
    at all shows anything new to itself. -/
theorem scrolling_found :
    (∀ (before fresh : Screen) (k : Nat), before.Nodup →
      (∀ row ∈ before, ∃ c ∈ row.toList, Text.isBlank c = false) → k < before.length →
      (∀ row ∈ fresh, (∃ c ∈ row.toList, Text.isBlank c = false) ∧ row ∉ before) →
      diff (some before) (before.drop k ++ fresh) = ⟨some (k : Int), fresh.reverse⟩) ∧
    ∀ screen, (diff (some screen) screen).newRows = [] := by
  refine ⟨?_, newRows_self⟩
  intro before fresh k hdistinct hblank hk hfresh
  have hoffset : findOffset? before (before.drop k ++ fresh) = some (k : Int) :=
    findOffset?_scrolled hdistinct hblank hk fun row hrow => (hfresh row hrow).2
  have hmoved : ∀ entry ∈ (before.drop k).zipIdx,
      ¬isNew before (some (k : Int)) entry.1 entry.2 := by
    rintro ⟨row, j⟩ hentry
    have hrow : before[k + j]? = some row :=
      List.getElem?_drop.symm.trans (List.mk_mem_zipIdx_iff_getElem?.mp hentry)
    rw [Nat.add_comm] at hrow
    rw [Bool.not_eq_true]
    exact isNew_of_moved hrow
  have hnew : ∀ entry ∈ fresh.zipIdx (0 + (before.drop k).length),
      isNew before (some (k : Int)) entry.1 entry.2 = true := by
    rintro ⟨row, j⟩ hentry
    obtain ⟨hshown, hunseen⟩ := hfresh row (List.fst_mem_of_mem_zipIdx hentry)
    exact isNew_of_fresh hunseen hshown
  have hnonempty : before ≠ [] := List.ne_nil_of_length_pos (Nat.zero_lt_of_lt hk)
  rw [diff_of_ne_nil hnonempty, hoffset, List.zipIdx_append, List.filter_append,
    List.filter_eq_nil_iff.mpr hmoved, List.filter_eq_self.mpr hnew, List.nil_append,
    List.zipIdx_map_fst]

/-- A single row is left of the screen before, and the fresh rows continue rows that it
    showed or are the beginnings of such rows. -/
theorem scrolling_found_beginnings :
    diff (some ["login:", "$ make", "$ "])
        (["login:", "$ make", "$ "].drop 2 ++ ["$ ma", "login: me"]) =
      ⟨some 2, ["login: me", "$ ma"]⟩ ∧
    (diff (some ["a", "", "a"]) ["a", "", "a"]).newRows = [] := by
  obtain ⟨hscrolled, hself⟩ := scrolling_found
  have hblank : ∀ row ∈ ["login:", "$ make", "$ "], isBlankRow row = false := by decide
  have hfresh : ∀ row ∈ ["$ ma", "login: me"], isBlankRow row = false ∧
      row ∉ ["login:", "$ make", "$ "] := by
    decide
  refine ⟨hscrolled _ _ 2 (by decide) ?_ (by decide) ?_, hself _⟩
  · exact fun row hrow => isBlankRow_eq_false_iff.mp (hblank row hrow)
  · exact fun row hrow => (hfresh row hrow).imp_left isBlankRow_eq_false_iff.mp

end ConsoleScript.Screen
