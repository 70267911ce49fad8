-- SUMMARY: How a text is cut into lines when it is put together, or when some of its lines are emptied.
import Mathlib.Data.List.Basic
import ConsoleScript.Text.Blank

/-!
# Lines

A text can be cut at any of its line feeds first (`lines_append_line`), and a line with a
line feed after it is one line (`lines_append_end`). `emptyLines` takes the characters of
some lines out of a text and leaves the ends of the lines. Its lines are those of the text
with these emptied; only a last line without an end is gone (`lineChars_emptyChars`).
-/

namespace ConsoleScript.Text

/-! ## Texts put together -/

theorem lineChars_ne_nil {cs : List Char} (h : cs ≠ []) : lineChars cs ≠ [] := by
  fun_cases lineChars cs <;> simp_all

/-- Cutting at a line feed first does not change the lines. -/
theorem lineChars_append_line (front rest : List Char) :
    lineChars (front ++ '\n' :: rest) = lineChars (front ++ ['\n']) ++ lineChars rest := by
  induction front using lineChars.induct with
  | case1 => simp [lineChars]
  | case2 front ih => simp [lineChars, ih]
  | case3 front ih => simp [lineChars, ih]
  | case4 c front hline hreturn _ ih
  | case5 c front hline hreturn _ _ _ ih =>
    by_cases hends : c = '\r' ∧ front = []
    · obtain ⟨rfl, rfl⟩ := hends
      simp [lineChars]
    · have hfresh : ∀ r more, c = '\r' → front ++ '\n' :: r = '\n' :: more → False := by
        intro r more hc hmore
        cases front with
        | nil => exact hends ⟨hc, rfl⟩
        | cons d front =>
          cases hmore
          exact hreturn front hc rfl
      obtain ⟨line, lines, hlines⟩ := List.exists_cons_of_ne_nil
        (lineChars_ne_nil (List.append_ne_nil_of_right_ne_nil front (List.cons_ne_nil '\n' [])))
      rw [List.cons_append, List.cons_append, lineChars.eq_4 _ _ hline (hfresh rest),
        lineChars.eq_4 _ _ hline (hfresh []), ih, hlines]
      rfl

theorem lines_append_line (front rest : String) :
    lines (front ++ "\n" ++ rest) = lines (front ++ "\n") ++ lines rest := by
  simp only [lines, String.toList_append, List.append_assoc, ← List.map_append]
  exact congrArg _ (lineChars_append_line front.toList rest.toList)

/-- A line without the carriage return at its end. -/
def withoutReturn (line : List Char) : List Char :=
  if line.getLast? = some '\r' then line.dropLast else line

theorem withoutReturn_cons (c : Char) {line : List Char} (h : line ≠ []) :
    withoutReturn (c :: line) = c :: withoutReturn line := by
  obtain ⟨d, line, rfl⟩ := List.exists_cons_of_ne_nil h
  rw [withoutReturn, withoutReturn, List.getLast?_cons_cons, List.dropLast_cons_of_ne_nil h]
  split <;> rfl

theorem withoutReturn_prefix (line : List Char) : withoutReturn line <+: line := by
  rw [withoutReturn]
  split
  · exact List.dropLast_prefix line
  · exact List.prefix_refl line

theorem lineChars_append_feed {line : List Char} (hline : '\n' ∉ line) :
    lineChars (line ++ ['\n']) = [withoutReturn line] := by
  induction line with
  | nil => rfl
  | cons c line ih =>
    obtain ⟨hc, hline⟩ := List.ne_and_not_mem_of_not_mem_cons hline
    cases line with
    | nil =>
      by_cases hreturn : c = '\r'
      · subst hreturn
        rfl
      · rw [withoutReturn, if_neg (by simpa using hreturn)]
        exact lineChars.eq_4 _ _ (fun h => hc h.symm) fun _ h => absurd h hreturn
    | cons d line =>
      have hfresh : ∀ more, c = '\r' → d :: line ++ ['\n'] = '\n' :: more → False :=
        fun more _ h => hline (by rw [← (List.cons.inj h).1]; exact List.mem_cons_self)
      rw [List.cons_append, lineChars.eq_4 _ _ (fun h => hc h.symm) hfresh, ih hline,
        withoutReturn_cons c (List.cons_ne_nil d line)]

theorem lineChars_append_end {line : List Char} (hline : '\n' ∉ line) (hreturn : '\r' ∉ line) :
    lineChars (line ++ ['\n']) = [line] := by
  rw [lineChars_append_feed hline, withoutReturn,
    if_neg fun h : line.getLast? = some '\r' => hreturn (List.mem_of_mem_getLast? h)]

theorem lines_append_end {line : String} (hline : '\n' ∉ line.toList)
    (hreturn : '\r' ∉ line.toList) : lines (line ++ "\n") = [line] := by
  simp [lines, lineChars_append_end hline hreturn]

/-- A text without a line feed is one line, unless it is empty. -/
theorem lineChars_of_not_mem {line : List Char} (hline : '\n' ∉ line) (hne : line ≠ []) :
    lineChars line = [line] := by
  induction line with
  | nil => exact absurd rfl hne
  | cons c line ih =>
    obtain ⟨hc, hline⟩ := List.ne_and_not_mem_of_not_mem_cons hline
    have hfresh : ∀ more, c = '\r' → line = '\n' :: more → False :=
      fun more _ h => hline (by rw [h]; exact List.mem_cons_self)
    rw [lineChars.eq_4 _ _ (fun h => hc h.symm) hfresh]
    cases line with
    | nil => rfl
    | cons d line => rw [ih hline (List.cons_ne_nil d line)]

theorem feed_not_mem_of_mem_lineChars {cs line : List Char} (h : line ∈ lineChars cs) :
    '\n' ∉ line := by
  induction cs using lineChars.induct generalizing line with
  | case1 => cases h
  | case2 rest ih =>
    rcases List.mem_cons.mp h with rfl | h
    · exact List.not_mem_nil
    · exact ih h
  | case3 rest ih =>
    rcases List.mem_cons.mp h with rfl | h
    · exact List.not_mem_nil
    · exact ih h
  | case4 c rest hline hreturn hnil _ =>
    rw [lineChars.eq_4 _ _ hline hreturn, hnil] at h
    obtain rfl := List.mem_singleton.mp h
    exact fun hmem => hline (List.mem_singleton.mp hmem).symm
  | case5 c rest hline hreturn first others hlines ih =>
    rw [lineChars.eq_4 _ _ hline hreturn, hlines] at h
    rcases List.mem_cons.mp h with rfl | h
    · have hfirst : '\n' ∉ first := ih (by rw [hlines]; exact List.mem_cons_self)
      exact fun hmem => (List.mem_cons.mp hmem).elim (fun hc => hline hc.symm) hfirst
    · exact ih (by rw [hlines]; exact List.mem_cons_of_mem first h)

/-- Of lines that are put together with line feeds between them, all but the last lose a
    carriage return at their end, and the last is a line unless it is empty. -/
theorem lineChars_intercalate {lines : List (List Char)} (h : ∀ line ∈ lines, '\n' ∉ line)
    (hlast : lines.getLast? ≠ some []) :
    lineChars (['\n'].intercalate lines) =
      lines.dropLast.map withoutReturn ++ lines.getLast?.toList := by
  induction lines with
  | nil => rfl
  | cons line lines ih =>
    obtain ⟨hline, h⟩ := List.forall_mem_cons.mp h
    cases lines with
    | nil =>
      rw [List.intercalate_singleton]
      exact lineChars_of_not_mem hline fun hnil => hlast (by rw [hnil]; rfl)
    | cons next lines =>
      rw [List.getLast?_cons_cons] at hlast ⊢
      rw [List.intercalate_cons_cons, List.append_assoc, List.singleton_append,
        lineChars_append_line, lineChars_append_feed hline, ih h hlast,
        List.dropLast_cons_of_ne_nil (List.cons_ne_nil next lines)]
      rfl

/-- The lines of lines that are put together are those lines, if none ends with a carriage
    return. -/
theorem lineChars_intercalate_eq_self {lines : List (List Char)}
    (h : ∀ line ∈ lines, '\n' ∉ line ∧ line.getLast? ≠ some '\r')
    (hlast : lines.getLast? ≠ some []) : lineChars (['\n'].intercalate lines) = lines := by
  have hmap : lines.dropLast.map withoutReturn = lines.dropLast := by
    refine (List.map_congr_left fun line hline => ?_).trans (List.map_id lines.dropLast)
    exact if_neg (h line ((List.dropLast_sublist lines).mem hline)).2
  rw [lineChars_intercalate (fun line hline => (h line hline).1) hlast, hmap]
  cases hl : lines.getLast? with
  | none => rw [List.getLast?_eq_none_iff.mp hl]; rfl
  | some line => exact List.dropLast_append_getLast? line hl

/-- Lines do not become longer when they are put together and cut again. -/
theorem exists_prefix_of_mem_lineChars_intercalate {lines : List (List Char)}
    (h : ∀ line ∈ lines, '\n' ∉ line) (hlast : lines.getLast? ≠ some []) {line : List Char}
    (hline : line ∈ lineChars (['\n'].intercalate lines)) : ∃ whole ∈ lines, line <+: whole := by
  rw [lineChars_intercalate h hlast] at hline
  rcases List.mem_append.mp hline with hline | hline
  · obtain ⟨whole, hwhole, rfl⟩ := List.mem_map.mp hline
    exact ⟨whole, (List.dropLast_sublist lines).mem hwhole, withoutReturn_prefix whole⟩
  · exact ⟨line, List.mem_of_mem_getLast? (Option.mem_toList.mp hline), List.prefix_refl line⟩

/-! ## Line feeds and trimming -/

theorem trimChars_append_blank (cs : List Char) {b : Char} (h : isBlank b = true) :
    trimChars (cs ++ [b]) = trimChars cs := by
  have hend : ∀ rest, trimEnd (rest ++ [b]) = trimEnd rest := by
    intro rest
    rw [trimEnd, trimEnd, List.reverse_append, List.reverse_singleton, List.singleton_append,
      List.dropWhile_cons_of_pos h]
  rw [trimChars, trimChars, trimStart, List.dropWhile_append]
  split
  · next hnil =>
    rw [trimStart, List.isEmpty_iff.mp hnil, List.dropWhile_cons_of_pos h, List.dropWhile_nil]
  · exact hend _

theorem trim_append_line (line : String) : trim (line ++ "\n") = trim line := by
  simp [trim, trimChars_append_blank line.toList (show isBlank '\n' = true from rfl)]

/-! ## Texts with some lines emptied -/

/-- The lines with those emptied whose number, counted from `n`, satisfies `P`. -/
def emptied (P : Nat → Bool) (n : Nat) : List (List Char) → List (List Char)
  | [] => []
  | line :: rest => (if P n then [] else line) :: emptied P (n + 1) rest

/-- The characters without those of the lines whose number, counted from `n`, satisfies
    `P`. The ends of the lines stay. -/
def emptyChars (P : Nat → Bool) (n : Nat) : List Char → List Char
  | [] => []
  | '\n' :: rest => '\n' :: emptyChars P (n + 1) rest
  | '\r' :: '\n' :: rest => '\r' :: '\n' :: emptyChars P (n + 1) rest
  | c :: rest => if P n then emptyChars P n rest else c :: emptyChars P n rest

/-- The text with an empty line in the place of each line whose number satisfies `P`. -/
def emptyLines (P : Nat → Bool) (text : String) : String :=
  String.ofList (emptyChars P 1 text.toList)

variable {P : Nat → Bool} {n : Nat}

theorem head?_emptyChars (h : P n = false) (cs : List Char) :
    (emptyChars P n cs).head? = cs.head? := by
  fun_cases emptyChars P n cs <;> simp_all

/-- A character of a line that stays is the first one of that line. -/
theorem lineChars_cons_emptyChars (h : P n = false) {c : Char} {rest : List Char}
    (hline : c ≠ '\n') (hreturn : ∀ more, c = '\r' → rest ≠ '\n' :: more) :
    lineChars (c :: emptyChars P n rest) =
      match lineChars (emptyChars P n rest) with
      | [] => [[c]]
      | line :: lines => (c :: line) :: lines := by
  refine lineChars.eq_4 _ _ hline fun more hc hmore => ?_
  have hhead := head?_emptyChars h rest
  rw [hmore] at hhead
  obtain ⟨more, hmore⟩ := List.head?_eq_some_iff.mp hhead.symm
  exact hreturn more hc hmore

/-- Emptying lines in the text empties them, up to a last one that has no end: that one is
    no line any more. -/
theorem lineChars_emptyChars (P : Nat → Bool) (n : Nat) (cs : List Char) :
    emptied P n (lineChars cs) = lineChars (emptyChars P n cs) ∨
      emptied P n (lineChars cs) = lineChars (emptyChars P n cs) ++ [[]] := by
  induction cs using lineChars.induct generalizing n with
  | case1 => exact .inl rfl
  | case2 rest ih => simpa [lineChars, emptied, emptyChars] using ih (n + 1)
  | case3 rest ih => simpa [lineChars, emptied, emptyChars] using ih (n + 1)
  | case4 c rest hline hreturn hnil ih =>
    have hrest : rest = [] := by
      by_contra hne
      exact lineChars_ne_nil hne hnil
    subst hrest
    rw [lineChars.eq_4 _ _ hline hreturn, emptyChars.eq_4 _ _ _ _ hline hreturn]
    cases h : P n with
    | true => exact .inr (by simp [lineChars, emptied, emptyChars, h])
    | false => exact .inl (by simp [lineChars, emptied, emptyChars, h])
  | case5 c rest hline hreturn line lines hlines ih =>
    rw [lineChars.eq_4 _ _ hline hreturn, emptyChars.eq_4 _ _ _ _ hline hreturn, hlines]
    have ih := ih n
    rw [hlines] at ih
    cases h : P n with
    | true => simpa [emptied, h] using ih
    | false =>
      have hne : emptyChars P n rest ≠ [] := by
        intro hnil
        have hhead := head?_emptyChars h rest
        rw [hnil, List.head?_nil, eq_comm, List.head?_eq_none_iff] at hhead
        rw [hhead] at hlines
        cases hlines
      obtain ⟨first, others, hfirst⟩ := List.exists_cons_of_ne_nil (lineChars_ne_nil hne)
      simp only [Bool.false_eq_true, ↓reduceIte]
      rw [lineChars_cons_emptyChars h hline hreturn]
      simpa [hfirst, emptied, h] using ih

end ConsoleScript.Text
