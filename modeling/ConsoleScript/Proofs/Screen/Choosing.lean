-- SUMMARY: The pattern that a screen is said to show is the first in the lowest row that has any.
import ConsoleScript.Proofs.Screen.Alignment

/-!
# Choosing a case

Of several patterns a screen may show more than one, and in more than one row. The lowest
row that contains some pattern decides, and in that row the pattern that comes first in
the list: `Chosen` says so without a search, and `selectCase?` finds a choice exactly if
some row contains some pattern (`selectCase?_isSome_iff`, `chosen_of_selectCase?`).
-/

namespace ConsoleScript.Screen

variable {screen : Screen} {patterns : List String} {text : String} {hit : CaseMatch} {i : Nat}

/-- Some row of the screen contains the text. -/
def Contains (screen : Screen) (text : String) : Prop :=
  ∃ row ∈ screen, text.toList <:+: row.toList

/-- The screen contains some of the patterns. -/
def Offers (screen : Screen) (patterns : List String) : Prop :=
  ∃ pattern ∈ patterns, screen.Contains pattern

/-- The row contains the pattern, no row below contains any, and no pattern before it in
    the list is in the row. -/
structure Chosen (patterns : List String) (screen : Screen) (hit : CaseMatch) : Prop where
  shown : ∃ row pattern, screen[hit.row]? = some row ∧ patterns[hit.case]? = some pattern ∧
    pattern.toList <:+: row.toList
  lowest : ∀ i row, hit.row < i → screen[i]? = some row →
    ∀ pattern ∈ patterns, ¬pattern.toList <:+: row.toList
  first : ∀ row j pattern, screen[hit.row]? = some row → j < hit.case →
    patterns[j]? = some pattern → ¬pattern.toList <:+: row.toList

/-! ## One row -/

theorem caseInRow?_eq_none_iff :
    caseInRow? patterns text = none ↔ ∀ pattern ∈ patterns, ¬pattern.toList <:+: text.toList := by
  simp only [caseInRow?, List.findIdx?_eq_none_iff, ← Text.contains_eq_true_iff, Bool.not_eq_true]

theorem caseInRow?_eq_some (h : caseInRow? patterns text = some i) :
    (∃ pattern, patterns[i]? = some pattern ∧ pattern.toList <:+: text.toList) ∧
      ∀ j pattern, j < i → patterns[j]? = some pattern → ¬pattern.toList <:+: text.toList := by
  obtain ⟨hi, hfound, hskipped⟩ := List.findIdx?_eq_some_iff_getElem.mp h
  constructor
  · exact ⟨patterns[i], List.getElem?_eq_getElem hi, Text.contains_eq_true_iff.mp hfound⟩
  · intro j pattern hj hpattern hoccurs
    obtain ⟨hlt, rfl⟩ := List.getElem?_eq_some_iff.mp hpattern
    exact hskipped j hj (Text.contains_eq_true_iff.mpr hoccurs)

/-! ## All rows -/

theorem selectCase?_isSome_iff :
    (selectCase? patterns screen).isSome = true ↔ screen.Offers patterns := by
  have hrow : ∀ row, (caseInRow? patterns row).isSome = true ↔
      ∃ pattern ∈ patterns, pattern.toList <:+: row.toList := by
    intro row
    rw [Option.isSome_iff_ne_none, ne_eq, caseInRow?_eq_none_iff]
    simp
  simp only [selectCase?, List.findSome?_isSome_iff, List.mem_reverse, Option.isSome_map, hrow,
    Offers, Contains]
  constructor
  · rintro ⟨⟨row, i⟩, hentry, pattern, hpattern, hoccurs⟩
    exact ⟨pattern, hpattern, row, List.fst_mem_of_mem_zipIdx hentry, hoccurs⟩
  · rintro ⟨pattern, hpattern, row, hrow, hoccurs⟩
    obtain ⟨i, hi⟩ := List.mem_iff_getElem?.mp hrow
    exact ⟨(row, i), List.mk_mem_zipIdx_iff_getElem?.mpr hi, pattern, hpattern, hoccurs⟩

/-- From the bottom to the top the rows have ever smaller indices. -/
theorem zipIdx_reverse_pairwise (screen : Screen) :
    screen.zipIdx.reverse.Pairwise fun a b => b.2 < a.2 := by
  have hup : (screen.zipIdx.map Prod.snd).Pairwise (· < ·) := by
    rw [List.zipIdx_map_snd]
    exact List.pairwise_lt_range' 1
  exact List.pairwise_reverse.mpr (List.pairwise_map.mp hup)

theorem chosen_of_selectCase? (h : selectCase? patterns screen = some hit) :
    Chosen patterns screen hit := by
  obtain ⟨below, ⟨row, i⟩, above, hrows, hhit, hbelow⟩ := List.findSome?_eq_some_iff.mp h
  obtain ⟨case, hcase, rfl⟩ := Option.map_eq_some_iff.mp hhit
  obtain ⟨⟨pattern, hpattern, hoccurs⟩, hfirst⟩ := caseInRow?_eq_some hcase
  have hmem : (row, i) ∈ screen.zipIdx.reverse := by
    simp [hrows]
  have hrow : screen[i]? = some row :=
    List.mk_mem_zipIdx_iff_getElem?.mp (List.mem_reverse.mp hmem)
  refine ⟨⟨row, pattern, hrow, hpattern, hoccurs⟩, ?_, ?_⟩
  · intro k other hk hother
    -- a row with a larger index comes before the row that was found
    have hentry : (other, k) ∈ below ++ (row, i) :: above := by
      rw [← hrows, List.mem_reverse]
      exact List.mk_mem_zipIdx_iff_getElem?.mpr hother
    have hsorted := zipIdx_reverse_pairwise screen
    rw [hrows] at hsorted
    rcases List.mem_append.mp hentry with hearlier | hlater
    · have hnone : caseInRow? patterns other = none :=
        Option.map_eq_none_iff.mp (hbelow (other, k) hearlier)
      exact caseInRow?_eq_none_iff.mp hnone
    · rcases List.mem_cons.mp hlater with heq | hlater
      · obtain ⟨-, rfl⟩ := Prod.mk.inj heq
        exact absurd hk (Nat.lt_irrefl k)
      · have hlt := List.rel_of_pairwise_cons (List.pairwise_append.mp hsorted).2.1 hlater
        exact absurd hlt (Nat.lt_asymm hk)
  · intro same j pattern' hsame hj hpattern'
    obtain rfl : row = same := Option.some.inj (hrow.symm.trans hsame)
    exact hfirst j pattern' hj hpattern'

/-- There is only one choice. -/
theorem Chosen.eq {other : CaseMatch} (h : Chosen patterns screen hit)
    (hother : Chosen patterns screen other) : hit = other := by
  obtain ⟨row, pattern, hrow, hpattern, hoccurs⟩ := h.shown
  obtain ⟨row', pattern', hrow', hpattern', hoccurs'⟩ := hother.shown
  have hsame : hit.row = other.row := by
    rcases Nat.lt_trichotomy hit.row other.row with hlt | heq | hgt
    · exact absurd hoccurs' (h.lowest _ _ hlt hrow' _ (List.mem_of_getElem? hpattern'))
    · exact heq
    · exact absurd hoccurs (hother.lowest _ _ hgt hrow _ (List.mem_of_getElem? hpattern))
  obtain rfl : row = row' := by
    rw [hsame, hrow'] at hrow
    exact (Option.some.inj hrow).symm
  have hcase : hit.case = other.case := by
    rcases Nat.lt_trichotomy hit.case other.case with hlt | heq | hgt
    · exact absurd hoccurs (hother.first _ _ _ hrow' hlt hpattern)
    · exact heq
    · exact absurd hoccurs' (h.first _ _ _ hrow hgt hpattern')
  cases hit
  cases other
  cases hsame
  cases hcase
  rfl

theorem selectCase?_eq_some_iff :
    selectCase? patterns screen = some hit ↔ Chosen patterns screen hit := by
  refine ⟨chosen_of_selectCase?, fun h => ?_⟩
  obtain ⟨row, pattern, hrow, hpattern, hoccurs⟩ := h.shown
  have hoffers : screen.Offers patterns :=
    ⟨pattern, List.mem_of_getElem? hpattern, row, List.mem_of_getElem? hrow, hoccurs⟩
  obtain ⟨found, hfound⟩ := Option.isSome_iff_exists.mp (selectCase?_isSome_iff.mpr hoffers)
  rw [hfound, h.eq (chosen_of_selectCase? hfound)]

/-- The lower row decides, and in a row the order of the patterns. -/
example : selectCase? ["login", "error", "relogin"] ["error", "please relogin", ""] =
    some ⟨0, 1⟩ := by
  decide +kernel

end ConsoleScript.Screen
