-- SUMMARY: The offset that is found between two screens is the smallest one under which they fit together.
import ConsoleScript.Screen
import Mathlib.Data.List.TakeWhile

/-!
# Alignment of screens

Two screens fit together under an offset if some row that is not blank is the same in
both, and the rows after it go on alike (`FitsAt`). Offsets of any magnitude could do so;
the search tries only those that are smaller than the screens. That is enough, as both
screens have to have the row: the search finds the first of all offsets in the order of
their magnitudes, where of two opposite ones the positive comes first
(`findOffset?_least`).
-/

namespace ConsoleScript

/-! ## Rows -/

namespace Text

theorem trimChars_eq_nil_iff {cs : List Char} :
    trimChars cs = [] ↔ ∀ c ∈ cs, isBlank c = true := by
  have hstart : trimStart cs = [] ↔ ∀ c ∈ cs, isBlank c = true := List.dropWhile_eq_nil_iff
  have htrim : trimChars cs = [] ↔ ∀ c ∈ trimStart cs, isBlank c = true := by
    simp [trimChars, trimEnd, List.dropWhile_eq_nil_iff]
  rw [htrim, ← hstart]
  constructor
  · intro hall
    refine Classical.byContradiction fun hne => ?_
    -- the first character that is left is not blank
    have hhead : isBlank ((trimStart cs).head hne) = false := List.head_dropWhile_not isBlank hne
    rw [hall _ (List.head_mem hne)] at hhead
    cases hhead
  · intro hnil
    simp [hnil]

theorem occursIn_eq_true_iff {needle cs : List Char} :
    occursIn needle cs = true ↔ needle <:+: cs := by
  induction cs with
  | nil => simp [occursIn]
  | cons c rest ih =>
    rw [occursIn, Bool.or_eq_true, ih, List.isPrefixOf_iff_prefix, List.infix_cons_iff]

theorem contains_eq_true_iff {text needle : String} :
    contains text needle = true ↔ needle.toList <:+: text.toList :=
  occursIn_eq_true_iff

end Text

namespace Screen

variable {before after : Screen} {offset : Int} {j : Nat}

theorem isBlankRow_eq_false_iff {row : String} :
    isBlankRow row = false ↔ ∃ c ∈ row.toList, Text.isBlank c = false := by
  rw [isBlankRow, Bool.eq_false_iff, ne_eq, List.isEmpty_iff, Text.trimChars_eq_nil_iff]
  simp

/-- The row at a place. There is none above the screen or below it. -/
def rowAt? (screen : Screen) (i : Int) : Option String :=
  if 0 ≤ i then screen[i.toNat]? else none

theorem aligned?_eq_rowAt? : aligned? before j offset = before.rowAt? (j + offset) := by
  unfold aligned? rowAt?
  by_cases h : (0 : Int) ≤ j + offset
  · rw [if_pos h]
    exact if_neg (Int.not_lt.mpr h)
  · rw [if_neg h]
    exact if_pos (Int.not_le.mp h)

theorem rowAt?_eq_some {screen : Screen} {i : Int} {row : String}
    (h : screen.rowAt? i = some row) : 0 ≤ i ∧ i < screen.length := by
  unfold rowAt? at h
  split at h
  · next hi =>
    have hlt := (List.getElem?_eq_some_iff.mp h).1
    omega
  · cases h

/-! ## Fitting together -/

/-- Row `j` of the later screen is not blank, and the earlier screen has the same row
    where the offset puts it. -/
def HasAnchor (before after : Screen) (offset : Int) (j : Nat) : Prop :=
  ∃ row, after[j]? = some row ∧ (∃ c ∈ row.toList, Text.isBlank c = false) ∧
    before.rowAt? (j + offset) = some row

/-- The rows `k` below row `j` of the later screen, and `k` below the row it is aligned
    with, if both screens have such a row. The earlier one comes first. -/
def pairBelow? (before after : Screen) (offset : Int) (j k : Nat) : Option (String × String) :=
  (before.rowAt? (j + k + offset)).bind fun old => after[j + k]?.map fun row => (old, row)

/-- The pairs of the three rows that follow. -/
def pairsBelow (before after : Screen) (offset : Int) (j : Nat) : List (String × String) :=
  [1, 2, 3].filterMap (pairBelow? before after offset j)

/-- There are no such pairs, or in 60 of 100 of them the later row starts with the
    earlier one. -/
def GoesOnAlike (before after : Screen) (offset : Int) (j : Nat) : Prop :=
  let pairs := pairsBelow before after offset j
  pairs = [] ∨ 60 * pairs.length ≤ 100 * pairs.countP fun (old, row) => old.toList <+: row.toList

/-- The screens fit together under an offset. -/
def FitsAt (before after : Screen) (offset : Int) : Prop :=
  ∃ j, HasAnchor before after offset j ∧ GoesOnAlike before after offset j

theorem isAnchor_eq_true_iff :
    isAnchor before after offset j = true ↔ HasAnchor before after offset j := by
  unfold isAnchor HasAnchor
  rw [aligned?_eq_rowAt?]
  cases hafter : after[j]? with
  | none => simp
  | some row =>
    cases hbefore : before.rowAt? (j + offset) with
    | none => simp
    | some old =>
      simp only [Bool.and_eq_true, Bool.not_eq_true', isBlankRow_eq_false_iff, beq_iff_eq,
        Option.some.injEq, exists_eq_left', eq_comm (a := old)]

theorem pairsAfter_eq_pairsBelow :
    pairsAfter before after offset j = pairsBelow before after offset j := by
  have hrange : [1, 2, 3] = (List.range lookahead).map (· + 1) := rfl
  rw [pairsAfter, pairsBelow, hrange, List.filterMap_map]
  refine congrArg (List.filterMap · _) (funext fun k => ?_)
  rw [Function.comp, aligned?_eq_rowAt?, pairBelow?, Nat.add_assoc, Nat.add_comm 1 k,
    Int.natCast_add]
  cases before.rowAt? (j + (k + 1 : Nat) + offset) with
  | none => rfl
  | some old => cases after[j + (k + 1)]? <;> rfl

theorem validates_eq_true_iff :
    validates before after offset j = true ↔ GoesOnAlike before after offset j := by
  have hcount : ∀ pairs : List (String × String),
      (pairs.countP fun pair => Text.beginsWith pair.2 pair.1) =
        pairs.countP fun (old, row) => old.toList <+: row.toList := by
    intro pairs
    refine List.countP_congr fun pair _ => ?_
    rw [Text.beginsWith, List.isPrefixOf_iff_prefix, decide_eq_true_eq]
  simp only [validates, GoesOnAlike, pairsAfter_eq_pairsBelow, hcount, decide_eq_true_eq]
  constructor
  · intro hmost
    right
    omega
  · rintro (hnone | hmost)
    · simp [hnone]
    · omega

theorem fits_eq_true_iff : fits before after offset = true ↔ FitsAt before after offset := by
  simp only [fits, List.any_eq_true, List.mem_range, Bool.and_eq_true, isAnchor_eq_true_iff,
    validates_eq_true_iff]
  constructor
  · rintro ⟨j, -, h⟩
    exact ⟨j, h⟩
  · rintro ⟨j, ⟨row, hrow, hsame⟩, hlike⟩
    exact ⟨j, (List.getElem?_eq_some_iff.mp hrow).1, ⟨row, hrow, hsame⟩, hlike⟩

/-- Both screens have the row that is the same. -/
theorem FitsAt.natAbs_lt (h : FitsAt before after offset) :
    offset.natAbs < max before.length after.length := by
  obtain ⟨j, ⟨row, hafter, -, hbefore⟩, -⟩ := h
  have hj := (List.getElem?_eq_some_iff.mp hafter).1
  have hi := rowAt?_eq_some hbefore
  omega

/-! ## Order of the search -/

/-- The offset `a` is tried before `b`. -/
def TriedBefore (a b : Int) : Prop :=
  a.natAbs < b.natAbs ∨ a.natAbs = b.natAbs ∧ b < a

theorem mem_offsetsOf {magnitude : Nat} :
    offset ∈ offsetsOf magnitude ↔ offset.natAbs = magnitude := by
  unfold offsetsOf
  split
  · simp [*]
  · simp only [List.mem_cons, List.not_mem_nil, or_false, Int.ofNat_eq_natCast]
    omega

theorem offsetsOf_pairwise (magnitude : Nat) : (offsetsOf magnitude).Pairwise TriedBefore := by
  unfold offsetsOf
  split
  · exact List.pairwise_singleton _ _
  · next hpos =>
    simp only [List.pairwise_pair, TriedBefore, Int.ofNat_eq_natCast]
    omega

theorem mem_tried {bound : Nat} :
    offset ∈ (List.range bound).flatMap offsetsOf ↔ offset.natAbs < bound := by
  simp [mem_offsetsOf]

theorem tried_pairwise (bound : Nat) :
    ((List.range bound).flatMap offsetsOf).Pairwise TriedBefore := by
  rw [List.pairwise_flatMap]
  refine ⟨fun magnitude _ => offsetsOf_pairwise magnitude, ?_⟩
  refine List.pairwise_lt_range.imp fun hlt a ha b hb => .inl ?_
  rw [mem_offsetsOf.mp ha, mem_offsetsOf.mp hb]
  exact hlt

/-- What is found first in a list precedes everything else that could be found. -/
theorem pairwise_of_find?_eq_some {α : Type} {R : α → α → Prop} {p : α → Bool} {l : List α}
    {a : α} (hl : l.Pairwise R) (h : l.find? p = some a) : ∀ b ∈ l, p b = true → a = b ∨ R a b := by
  obtain ⟨-, skipped, rest, rfl, hskipped⟩ := List.find?_eq_some_iff_append.mp h
  intro b hb hpb
  rcases List.mem_append.mp hb with hb | hb
  · have hmissed := hskipped b hb
    simp [hpb] at hmissed
  · rcases List.mem_cons.mp hb with rfl | hb
    · exact .inl rfl
    · exact .inr ((List.pairwise_cons.mp (List.pairwise_append.mp hl).2.1).1 b hb)

theorem findOffset?_isSome_iff :
    (findOffset? before after).isSome = true ↔ ∃ offset, FitsAt before after offset := by
  simp only [findOffset?, List.find?_isSome, mem_tried, fits_eq_true_iff]
  constructor
  · rintro ⟨offset, -, h⟩
    exact ⟨offset, h⟩
  · rintro ⟨offset, h⟩
    exact ⟨offset, h.natAbs_lt, h⟩

theorem fitsAt_of_findOffset? (h : findOffset? before after = some offset) :
    FitsAt before after offset :=
  fits_eq_true_iff.mp (List.find?_some h)

theorem not_triedBefore_of_findOffset? {other : Int} (h : findOffset? before after = some offset)
    (hother : FitsAt before after other) : offset = other ∨ TriedBefore offset other :=
  pairwise_of_find?_eq_some (tried_pairwise _) h other (mem_tried.mpr hother.natAbs_lt)
    (fits_eq_true_iff.mpr hother)

/-- An offset is found if there is any under which the screens fit together, and then it
    is the one of the smallest magnitude. If there are two of that magnitude it is the
    positive one. -/
theorem findOffset?_least (before after : Screen) :
    ((findOffset? before after).isSome = true ↔ ∃ offset, FitsAt before after offset) ∧
    ∀ offset, findOffset? before after = some offset ↔
      FitsAt before after offset ∧ ∀ other, FitsAt before after other →
        offset.natAbs < other.natAbs ∨ offset.natAbs = other.natAbs ∧ other ≤ offset := by
  have hleast : ∀ {offset}, findOffset? before after = some offset →
      ∀ other, FitsAt before after other →
        offset.natAbs < other.natAbs ∨ offset.natAbs = other.natAbs ∧ other ≤ offset := by
    intro offset h other hother
    rcases not_triedBefore_of_findOffset? h hother with rfl | hless | ⟨hsame, hlt⟩
    · exact .inr ⟨rfl, Int.le_refl _⟩
    · exact .inl hless
    · exact .inr ⟨hsame, Int.le_of_lt hlt⟩
  refine ⟨findOffset?_isSome_iff, fun offset => ⟨fun h => ⟨fitsAt_of_findOffset? h, hleast h⟩, ?_⟩⟩
  rintro ⟨hfits, hbest⟩
  obtain ⟨found, hfound⟩ := Option.isSome_iff_exists.mp (findOffset?_isSome_iff.mpr ⟨offset, hfits⟩)
  -- each of the two is at least as good as the other
  have hto := hleast hfound offset hfits
  have hfrom := hbest found (fitsAt_of_findOffset? hfound)
  rw [hfound]
  exact congrArg some (by omega)

/-- A prompt that shows at offset 0 by chance does not hide that the console has scrolled. -/
example : findOffset? ["$ ", "x1", "x2", "$ ", "y1", "y2"] ["$ ", "y1", "y2", "z1", "z2", "z3"] =
    some 3 := by
  decide +kernel

end Screen

end ConsoleScript
