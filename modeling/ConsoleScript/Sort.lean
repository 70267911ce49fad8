-- SUMMARY: A stable sort by insertion.

/-!
# Sorting

`sortBy le` sorts by insertion from the right. Elements that are equal in the
order `le` keep the order in which they stand.
-/

namespace ConsoleScript

/-- Inserts an element before the first one that may follow it. -/
def insertBy {α : Type} (le : α → α → Bool) (a : α) : List α → List α
  | [] => [a]
  | b :: rest => if le a b then a :: b :: rest else b :: insertBy le a rest

/-- Sorts a list. -/
def sortBy {α : Type} (le : α → α → Bool) : List α → List α
  | [] => []
  | a :: rest => insertBy le a (sortBy le rest)

theorem insertBy_perm {α : Type} (le : α → α → Bool) (a : α) (as : List α) :
    (insertBy le a as).Perm (a :: as) := by
  induction as with
  | nil => exact .refl _
  | cons b rest ih =>
    unfold insertBy
    split
    · exact .refl _
    · exact (ih.cons b).trans (.swap a b rest)

/-- Sorting loses nothing and adds nothing. -/
theorem sortBy_perm {α : Type} (le : α → α → Bool) (as : List α) : (sortBy le as).Perm as := by
  induction as with
  | nil => exact .refl _
  | cons a rest ih => exact (insertBy_perm le a _).trans (ih.cons a)

theorem insertBy_map {α : Type} {le : α → α → Bool} {g : α → α}
    (hg : ∀ a b, le (g a) (g b) = le a b) (a : α) (as : List α) :
    insertBy le (g a) (as.map g) = (insertBy le a as).map g := by
  induction as with
  | nil => rfl
  | cons b rest ih =>
    simp only [List.map_cons, insertBy, hg]
    split
    · rfl
    · simp [ih]

/-- Sorting by what a change keeps commutes with the change. -/
theorem sortBy_map {α : Type} {le : α → α → Bool} {g : α → α}
    (hg : ∀ a b, le (g a) (g b) = le a b) (as : List α) :
    sortBy le (as.map g) = (sortBy le as).map g := by
  induction as with
  | nil => rfl
  | cons a rest ih => rw [List.map_cons, sortBy, ih, insertBy_map hg, sortBy]

theorem filter_insertBy_of_neg {α : Type} (le : α → α → Bool) {p : α → Bool} {a : α}
    (ha : ¬p a = true) (as : List α) : (insertBy le a as).filter p = as.filter p := by
  induction as with
  | nil => simp [insertBy, ha]
  | cons b rest ih =>
    unfold insertBy
    split
    · rw [List.filter_cons_of_neg ha]
    · rw [List.filter_cons, List.filter_cons, ih]

section Order

variable {α : Type} {le : α → α → Bool}
  (htrans : ∀ a b c, le a b = true → le b c = true → le a c = true)
include htrans

theorem insertBy_pairwise (htotal : ∀ a b, le a b = true ∨ le b a = true) (a : α) {as : List α}
    (h : as.Pairwise (le · · = true)) : (insertBy le a as).Pairwise (le · · = true) := by
  induction as with
  | nil => simp [insertBy]
  | cons b rest ih =>
    obtain ⟨hb, hrest⟩ := List.pairwise_cons.mp h
    unfold insertBy
    split
    case isTrue hle =>
      refine List.pairwise_cons.mpr ⟨fun c hc => ?_, h⟩
      rcases List.mem_cons.mp hc with rfl | hc
      · exact hle
      · exact htrans _ _ _ hle (hb c hc)
    case isFalse hle =>
      refine List.pairwise_cons.mpr ⟨fun c hc => ?_, ih hrest⟩
      rcases List.mem_cons.mp ((insertBy_perm le a rest).mem_iff.mp hc) with rfl | hc
      · exact (htotal c b).resolve_left hle
      · exact hb c hc

/-- What is sorted by an order in which any two elements can be compared stands in
    order. -/
theorem sortBy_pairwise (htotal : ∀ a b, le a b = true ∨ le b a = true) (as : List α) :
    (sortBy le as).Pairwise (le · · = true) := by
  induction as with
  | nil => exact .nil
  | cons a rest ih => exact insertBy_pairwise htrans htotal a ih

theorem filter_insertBy {p : α → Bool} {a : α} (ha : p a = true) {as : List α}
    (h : as.Pairwise (le · · = true)) :
    (insertBy le a as).filter p = insertBy le a (as.filter p) := by
  induction as with
  | nil => simp [insertBy, ha]
  | cons b rest ih =>
    obtain ⟨hb, hrest⟩ := List.pairwise_cons.mp h
    cases hp : p b with
    | true =>
      rw [List.filter_cons_of_pos hp, insertBy, insertBy]
      split
      · rw [List.filter_cons_of_pos ha, List.filter_cons_of_pos hp]
      · rw [List.filter_cons_of_pos hp, ih hrest]
    | false =>
      have hnot : ¬p b = true := by simp [hp]
      rw [List.filter_cons_of_neg hnot, insertBy]
      split
      case isFalse => rw [List.filter_cons_of_neg hnot, ih hrest]
      case isTrue hle =>
        -- all that stays stands behind `b`, and so behind `a`
        rw [List.filter_cons_of_pos ha, List.filter_cons_of_neg hnot]
        cases hkept : rest.filter p with
        | nil => rfl
        | cons c kept =>
          have hc : c ∈ rest.filter p := hkept ▸ List.mem_cons_self
          rw [insertBy, if_pos (htrans _ _ _ hle (hb c (List.mem_filter.mp hc).1))]

/-- Leaving elements out before sorting is leaving them out after it. -/
theorem sortBy_filter (htotal : ∀ a b, le a b = true ∨ le b a = true) (p : α → Bool)
    (as : List α) : sortBy le (as.filter p) = (sortBy le as).filter p := by
  induction as with
  | nil => rfl
  | cons a rest ih =>
    by_cases hp : p a = true
    · rw [List.filter_cons_of_pos hp, sortBy, sortBy, ih,
        filter_insertBy htrans hp (sortBy_pairwise htrans htotal rest)]
    · rw [List.filter_cons_of_neg hp, sortBy, ih, filter_insertBy_of_neg le hp]

end Order

/-- Sorts names by their code points. -/
def sortNames (names : List String) : List String :=
  sortBy (fun a b => decide (a ≤ b)) names

end ConsoleScript
