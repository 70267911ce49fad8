-- SUMMARY: Arguments that are written between quotes are read back as they are.
import ConsoleScript.Directive.Arguments
import ConsoleScript.Proofs.Text.Words

/-!
# Arguments between quotes

Between quotes every text can be written, with a backslash before each quote and each
backslash. Splitting reads one such argument at a time (`splitFrom_quoted`), whatever state
the words before it leave.
-/

namespace ConsoleScript.Arguments

open Text (isBlank spaced)

/-- A character between quotes. -/
def escapeChar (c : Char) : List Char := if c = '"' ∨ c = '\\' then ['\\', c] else [c]

/-- An argument between quotes. -/
def quoted (arg : String) : String :=
  String.ofList ('"' :: (arg.toList.flatMap escapeChar ++ ['"']))

@[simp] theorem toList_quoted (arg : String) :
    (quoted arg).toList = '"' :: (arg.toList.flatMap escapeChar ++ ['"']) :=
  String.toList_ofList

variable {word rest : List Char} {inQuotes hadQuote : Bool}

theorem splitFrom_quote :
    splitFrom word inQuotes hadQuote ('"' :: rest) = splitFrom word (!inQuotes) true rest := by
  rw [splitFrom.eq_def]
  simp

theorem splitFrom_blank {c : Char} (h : isBlank c = true) :
    splitFrom word false hadQuote (c :: rest) =
      finish word hadQuote ++ splitFrom [] false false rest := by
  have hquote : c ≠ '"' := by rintro rfl; cases h
  rw [splitFrom.eq_def]
  simp [hquote, h]

/-- A character between quotes is read as it is. -/
theorem splitFrom_escapeChar (c : Char) :
    splitFrom word true hadQuote (escapeChar c ++ rest) =
      splitFrom (c :: word) true hadQuote rest := by
  rw [escapeChar]
  split
  · rw [splitFrom.eq_def]
    simp
  · next hplain =>
    obtain ⟨hquote, hslash⟩ := not_or.mp hplain
    rw [splitFrom.eq_def]
    simp [hquote, hslash]

theorem splitFrom_escaped (arg : List Char) :
    splitFrom word true hadQuote (arg.flatMap escapeChar ++ rest) =
      splitFrom (arg.reverse ++ word) true hadQuote rest := by
  induction arg generalizing word with
  | nil => rfl
  | cons c arg ih =>
    rw [List.flatMap_cons, List.append_assoc, splitFrom_escapeChar, ih]
    simp

theorem splitFrom_quoted (arg : String) :
    splitFrom [] false hadQuote ((quoted arg).toList ++ rest) =
      splitFrom arg.toList.reverse false true rest := by
  rw [toList_quoted, List.cons_append, List.append_assoc, splitFrom_quote, Bool.not_false,
    splitFrom_escaped, List.append_nil, List.singleton_append, splitFrom_quote, Bool.not_true]

theorem finish_quoted (word : List Char) : finish word true = [word.reverse] := by
  simp [finish]

theorem splitFrom_spaced (args : List String) :
    splitFrom word false true (spaced (args.map quoted)) =
      word.reverse :: args.map String.toList := by
  induction args generalizing word with
  | nil => exact finish_quoted word
  | cons arg args ih =>
    rw [List.map_cons, Text.spaced_cons, splitFrom_blank rfl, finish_quoted, splitFrom_quoted, ih]
    simp

/-- Arguments that are written one after the other are read back. -/
theorem split_quoted (arg : String) (args : List String) :
    split (String.ofList ((quoted arg).toList ++ spaced (args.map quoted))) = arg :: args := by
  rw [split, String.toList_ofList, splitFrom_quoted, splitFrom_spaced, List.reverse_reverse,
    List.map_cons, List.map_map]
  simp [Function.comp_def]

/-! ## What arguments are made of -/

theorem mem_of_mem_finish {w : List Char} {c : Char} (hw : w ∈ finish word hadQuote)
    (hc : c ∈ w) : c ∈ word := by
  unfold finish at hw
  split at hw
  · cases hw
  · obtain rfl := List.mem_singleton.mp hw
    exact List.mem_reverse.mp hc

/-- Arguments have no characters of their own. -/
theorem mem_of_mem_splitFrom {cs w : List Char} {c : Char}
    (hw : w ∈ splitFrom word inQuotes hadQuote cs) (hc : c ∈ w) : c ∈ word ∨ c ∈ cs := by
  fun_induction splitFrom word inQuotes hadQuote cs with
  | case1 word inQuotes hadQuote => exact .inl (mem_of_mem_finish hw hc)
  | case2 word inQuotes hadQuote rest ih => exact (ih hw).imp_right (List.mem_cons_of_mem _)
  | case3 word inQuotes hadQuote => exact .inl (mem_of_mem_finish hw hc)
  | case4 word inQuotes hadQuote d _ _ escaped rest ih =>
    rcases ih hw with hword | hrest
    · rcases List.mem_cons.mp hword with rfl | hword
      · exact .inr (by simp)
      · exact .inl hword
    · exact .inr (List.mem_cons_of_mem _ (List.mem_cons_of_mem _ hrest))
  | case5 word inQuotes hadQuote d rest _ _ _ ih =>
    rcases List.mem_append.mp hw with hw | hw
    · exact .inl (mem_of_mem_finish hw hc)
    · rcases ih hw with hnil | hrest
      · cases hnil
      · exact .inr (List.mem_cons_of_mem _ hrest)
  | case6 word inQuotes hadQuote d rest _ _ _ ih =>
    rcases ih hw with hword | hrest
    · rcases List.mem_cons.mp hword with rfl | hword
      · exact .inr List.mem_cons_self
      · exact .inl hword
    · exact .inr (List.mem_cons_of_mem _ hrest)

theorem mem_of_mem_split {s arg : String} {c : Char} (harg : arg ∈ split s)
    (hc : c ∈ arg.toList) : c ∈ s.toList := by
  obtain ⟨w, hw, rfl⟩ := List.mem_map.mp harg
  rw [String.toList_ofList] at hc
  exact (mem_of_mem_splitFrom hw hc).resolve_left (List.not_mem_nil)

end ConsoleScript.Arguments
