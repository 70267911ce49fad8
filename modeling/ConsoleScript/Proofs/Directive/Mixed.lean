-- SUMMARY: Arguments are read back however they are mixed of bare and quoted ones, with any blanks between.
import ConsoleScript.Proofs.Directive.Arguments

/-!
# Bare and quoted arguments

An argument that has a blank or a quote in it, or nothing, needs quotes around it, and any other
may be written bare. `WritesAll` relates a list of arguments to every text that says it: each
argument in one of its ways, with at least one blank before the next. What splitting has read
of a word when the word ends differs between the two ways, but either counts as the argument
(`Writes.splitFrom`), so the texts of one list are all split into that list.
-/

namespace ConsoleScript.Arguments

open Text (isBlank)

/-- An argument that can be told without quotes. -/
def Bare (arg : String) : Prop := arg ≠ "" ∧ ∀ c ∈ arg.toList, isBlank c = false ∧ c ≠ '"'

/-- The ways to write an argument. -/
inductive Writes (arg : String) : List Char → Prop where
  | quoted : Writes arg (quoted arg).toList
  /-- A backslash outside quotes is a character like any other. -/
  | bare (h : Bare arg) : Writes arg arg.toList

/-- The texts that say a list of arguments. -/
inductive WritesAll : List String → List Char → Prop where
  | none : WritesAll [] []
  | one {arg : String} {written : List Char} (h : Writes arg written) : WritesAll [arg] written
  | more {arg next : String} {args : List String} {written gap text : List Char}
      (h : Writes arg written) (hne : gap ≠ []) (hblank : ∀ c ∈ gap, isBlank c = true)
      (htext : WritesAll (next :: args) text) :
      WritesAll (arg :: next :: args) (written ++ (gap ++ text))

variable {word rest : List Char} {hadQuote : Bool}

theorem splitFrom_bare {cs : List Char} (h : ∀ c ∈ cs, isBlank c = false ∧ c ≠ '"') :
    splitFrom word false hadQuote (cs ++ rest) =
      splitFrom (cs.reverse ++ word) false hadQuote rest := by
  induction cs generalizing word with
  | nil => rfl
  | cons c cs ih =>
    obtain ⟨⟨hblank, hquote⟩, hcs⟩ := List.forall_mem_cons.mp h
    have hstep : splitFrom word false hadQuote (c :: (cs ++ rest)) =
        splitFrom (c :: word) false hadQuote (cs ++ rest) := by
      rw [splitFrom.eq_def]
      simp [hblank, hquote]
    rw [List.cons_append, hstep, ih hcs]
    simp

/-- Blanks end the word that was read, and there is no empty word between two of them. -/
theorem splitFrom_gap {gap : List Char} (hne : gap ≠ []) (hblank : ∀ c ∈ gap, isBlank c = true) :
    splitFrom word false hadQuote (gap ++ rest) =
      finish word hadQuote ++ splitFrom [] false false rest := by
  induction gap generalizing word hadQuote with
  | nil => exact absurd rfl hne
  | cons c gap ih =>
    obtain ⟨hc, hgap⟩ := List.forall_mem_cons.mp hblank
    rw [List.cons_append, splitFrom_blank hc]
    cases gap with
    | nil => rfl
    | cons d gap => rw [ih (List.cons_ne_nil d gap) hgap, finish]; rfl

/-- At the end of a written argument the word that was read is the argument. -/
theorem Writes.splitFrom {arg : String} {written : List Char} (h : Writes arg written) :
    ∃ hadQuote, finish arg.toList.reverse hadQuote = [arg.toList] ∧
      ∀ rest, Arguments.splitFrom [] false false (written ++ rest) =
        Arguments.splitFrom arg.toList.reverse false hadQuote rest := by
  cases h with
  | quoted =>
    refine ⟨true, ?_, fun rest => splitFrom_quoted arg⟩
    rw [finish_quoted, List.reverse_reverse]
  | bare h =>
    refine ⟨false, ?_, fun rest => ?_⟩
    · have hne : arg.toList ≠ [] := by simpa using h.1
      simp [finish, hne]
    · rw [splitFrom_bare h.2, List.append_nil]

theorem WritesAll.splitFrom {args : List String} {text : List Char} (h : WritesAll args text) :
    Arguments.splitFrom [] false false text = args.map String.toList := by
  induction h with
  | none => rfl
  | one h =>
    obtain ⟨hadQuote, hfinish, hsplit⟩ := h.splitFrom
    have hsplit := hsplit []
    rw [List.append_nil] at hsplit
    rw [hsplit, List.map_singleton, ← hfinish]
    rfl
  | more h hne hblank _ ih =>
    obtain ⟨hadQuote, hfinish, hsplit⟩ := h.splitFrom
    rw [hsplit, splitFrom_gap hne hblank, hfinish, ih, List.singleton_append, ← List.map_cons]

/-- A text that says a list of arguments is split into them. -/
theorem split_of_writesAll {args : List String} {text : String} (h : WritesAll args text.toList) :
    split text = args := by
  rw [split, h.splitFrom, List.map_map]
  simp [Function.comp_def]

/-- An empty argument, a bare one with a backslash, and one that ends with a backslash
    between quotes. -/
theorem split_of_writesAll_mixed :
    WritesAll ["", "C:\\", "a \"b\\"] "\"\" \t C:\\\n\"a \\\"b\\\\\"".toList ∧
      split "\"\" \t C:\\\n\"a \\\"b\\\\\"" = ["", "C:\\", "a \"b\\"] := by
  have hbare : Bare "C:\\" := by simp [Bare, isBlank]
  have hspaces : ∀ c ∈ [' ', '\t', ' '], isBlank c = true := List.all_eq_true.mp rfl
  have hfeed : ∀ c ∈ ['\n'], isBlank c = true := List.all_eq_true.mp rfl
  have hlast : WritesAll ["a \"b\\"] (quoted "a \"b\\").toList := .one .quoted
  have hmiddle : WritesAll ["C:\\", "a \"b\\"]
      ("C:\\".toList ++ (['\n'] ++ (quoted "a \"b\\").toList)) :=
    .more (.bare hbare) (List.cons_ne_nil _ _) hfeed hlast
  have hall : WritesAll ["", "C:\\", "a \"b\\"] ((quoted "").toList ++ ([' ', '\t', ' '] ++
      ("C:\\".toList ++ (['\n'] ++ (quoted "a \"b\\").toList)))) :=
    .more .quoted (List.cons_ne_nil _ _) hspaces hmiddle
  exact ⟨hall, split_of_writesAll hall⟩

end ConsoleScript.Arguments
