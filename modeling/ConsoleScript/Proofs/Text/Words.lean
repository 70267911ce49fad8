-- SUMMARY: Texts of words with blanks between them: how they are trimmed, cut and put together.
import Mathlib.Data.List.Basic
import Mathlib.Data.List.DropRight
import ConsoleScript.Text.Blank
import ConsoleScript.Text.Search

/-!
# Words

The words of a text that starts with one are its first word and the words of what follows
(`wordChars_eq_cons`). `spaced` puts words after a text, each after one space, and cutting
there gives the words back. Trimming takes nothing from a text whose ends are not blank.
-/

namespace ConsoleScript.Text

variable {cs rest : List Char}

/-! ## Trimming -/

theorem trimStart_eq_self (h : ∀ c ∈ cs.head?, isBlank c = false) : trimStart cs = cs := by
  cases cs with
  | nil => rfl
  | cons c cs => simp [trimStart, h c (by simp)]

theorem trimEnd_eq_self (h : ∀ c ∈ cs.getLast?, isBlank c = false) : trimEnd cs = cs := by
  have hstart : trimStart cs.reverse = cs.reverse := trimStart_eq_self (by simpa using h)
  rw [trimEnd, ← trimStart, hstart, List.reverse_reverse]

theorem trimChars_eq_self (hhead : ∀ c ∈ cs.head?, isBlank c = false)
    (hlast : ∀ c ∈ cs.getLast?, isBlank c = false) : trimChars cs = cs := by
  rw [trimChars, trimStart_eq_self hhead, trimEnd_eq_self hlast]

theorem head?_trimStart (cs : List Char) : ∀ c ∈ (trimStart cs).head?, isBlank c = false := by
  intro c hc
  have hhead := List.head?_dropWhile_not isBlank cs
  rw [← trimStart, Option.mem_def.mp hc] at hhead
  simpa using hhead

/-- A trimmed text does not start with a blank. -/
theorem head?_trimChars (cs : List Char) : ∀ c ∈ (trimChars cs).head?, isBlank c = false := by
  intro c hc
  have hprefix : trimChars cs <+: trimStart cs := by
    rw [trimChars, trimEnd]
    exact List.reverse_suffix.mp (by simpa using List.dropWhile_suffix isBlank)
  obtain ⟨more, hmore⟩ := hprefix
  refine head?_trimStart cs c ?_
  rw [← hmore]
  cases htrim : trimChars cs with
  | nil => simp [htrim] at hc
  | cons d ds => simpa [htrim] using hc

/-- Trimming takes blanks from the ends and nothing else. -/
theorem exists_eq_append_trimChars (cs : List Char) :
    ∃ before after, cs = before ++ trimChars cs ++ after ∧
      (∀ c ∈ before, isBlank c = true) ∧ ∀ c ∈ after, isBlank c = true := by
  have hend : trimChars cs ++ (trimStart cs).rtakeWhile isBlank = trimStart cs :=
    List.rdropWhile_append_rtakeWhile
  refine ⟨cs.takeWhile isBlank, (trimStart cs).rtakeWhile isBlank, ?_, ?_, ?_⟩
  · rw [List.append_assoc, hend, trimStart, List.takeWhile_append_dropWhile]
  · exact fun c hc => List.all_eq_true.mp List.all_takeWhile c hc
  · exact fun c hc => List.mem_rtakeWhile_imp hc

/-- A text without the blanks at its end does not end with one. -/
theorem getLast?_trimEnd (cs : List Char) : ∀ c ∈ (trimEnd cs).getLast?, isBlank c = false := by
  intro c hc
  have hne : trimEnd cs ≠ [] := List.ne_nil_of_mem (List.mem_of_mem_getLast? hc)
  have hlast : isBlank ((trimEnd cs).getLast hne) ≠ true := List.rdropWhile_last_not isBlank cs hne
  rw [List.getLast?_eq_some_getLast hne] at hc
  obtain rfl := Option.some.inj hc
  exact Bool.eq_false_iff.mpr hlast

/-- Trimming a text that was trimmed changes nothing. -/
theorem trim_trim (text : String) : trim (trim text) = trim text := by
  have hself : trimChars (trimChars text.toList) = trimChars text.toList :=
    trimChars_eq_self (head?_trimChars _) (getLast?_trimEnd _)
  rw [trim, trim, String.toList_ofList, hself]

theorem trimEnd_eq_nil_iff : trimEnd cs = [] ↔ ∀ c ∈ cs, isBlank c = true :=
  List.rdropWhile_eq_nil_iff

/-! ## Cutting -/

theorem dropStart?_eq_some_iff {start : List Char} :
    dropStart? start cs = some rest ↔ cs = start ++ rest := by
  induction start generalizing cs with
  | nil => simp [dropStart?, eq_comm]
  | cons s start ih =>
    cases cs with
    | nil => simp [dropStart?]
    | cons c cs =>
      rw [dropStart?]
      by_cases hc : s = c
      · simp [hc, ih]
      · simp [hc, Ne.symm hc]

theorem splitFirst?_eq_some_iff {sep : Char} {before after : List Char} :
    splitFirst? sep cs = some (before, after) ↔ sep ∉ before ∧ cs = before ++ sep :: after := by
  induction cs generalizing before with
  | nil => simp [splitFirst?]
  | cons c cs ih =>
    rw [splitFirst?]
    by_cases hc : c = sep
    · subst hc
      cases before with
      | nil => simp [eq_comm]
      | cons b before => simp +contextual [eq_comm]
    · rw [if_neg hc]
      cases before with
      | nil => simp [hc]
      | cons b before =>
        simp only [Option.map_eq_some_iff, Prod.mk.injEq, List.cons.injEq, List.mem_cons, not_or,
          List.cons_append]
        constructor
        · rintro ⟨⟨before', after'⟩, hsplit, ⟨rfl, rfl⟩, rfl⟩
          obtain ⟨hnot, rfl⟩ := ih.mp hsplit
          exact ⟨⟨Ne.symm hc, hnot⟩, rfl, rfl⟩
        · rintro ⟨⟨-, hnot⟩, rfl, rfl⟩
          exact ⟨(before, after), ih.mpr ⟨hnot, rfl⟩, ⟨rfl, rfl⟩, rfl⟩

/-! ## Words -/

/-- The characters up to the first blank. -/
def firstWord (cs : List Char) : List Char := cs.takeWhile (!isBlank ·)

/-- What starts with the first blank. -/
def afterFirstWord (cs : List Char) : List Char := cs.dropWhile (!isBlank ·)

/-- A text without blanks, which is not empty. -/
def IsWord (cs : List Char) : Prop := cs ≠ [] ∧ ∀ c ∈ cs, isBlank c = false

theorem IsWord.trimChars_eq_self (h : IsWord cs) : trimChars cs = cs :=
  Text.trimChars_eq_self (fun _ hc => h.2 _ (List.mem_of_mem_head? hc))
    fun _ hc => h.2 _ (List.mem_of_mem_getLast? hc)

/-- Of a word between blanks, trimming leaves the word. -/
theorem IsWord.trimChars_between (h : IsWord cs) {before after : List Char}
    (hbefore : ∀ c ∈ before, isBlank c = true) (hafter : ∀ c ∈ after, isBlank c = true) :
    trimChars (before ++ cs ++ after) = cs := by
  have hhead : ∀ c ∈ (cs ++ after).head?, isBlank c = false := by
    rw [List.head?_append_of_ne_nil cs h.1]
    exact fun c hc => h.2 c (List.mem_of_mem_head? hc)
  have hstart : trimStart (before ++ (cs ++ after)) = cs ++ after := by
    rw [trimStart, List.dropWhile_append_of_pos hbefore, ← trimStart, trimStart_eq_self hhead]
  have hend : trimEnd (cs ++ after) = trimEnd cs := by
    rw [trimEnd, List.reverse_append,
      List.dropWhile_append_of_pos fun c hc => hafter c (List.mem_reverse.mp hc), ← trimEnd]
  rw [trimChars, List.append_assoc, hstart, hend]
  exact trimEnd_eq_self fun c hc => h.2 c (List.mem_of_mem_getLast? hc)

theorem wordChars_nil : wordChars [] = [] := rfl

theorem wordChars_cons (c : Char) (cs : List Char) :
    wordChars (c :: cs) =
      if isBlank c then wordChars cs
      else
        match cs, wordChars cs with
        | d :: _, word :: words => if isBlank d then [c] :: word :: words else (c :: word) :: words
        | _, words => [c] :: words :=
  rfl

theorem wordChars_blank {c : Char} (h : isBlank c = true) (cs : List Char) :
    wordChars (c :: cs) = wordChars cs := by
  rw [wordChars_cons, if_pos h]

theorem wordChars_eq_cons {c : Char} (h : isBlank c = false) (cs : List Char) :
    wordChars (c :: cs) = firstWord (c :: cs) :: wordChars (afterFirstWord (c :: cs)) := by
  induction cs generalizing c with
  | nil =>
    rw [wordChars_cons, if_neg (by simp [h])]
    simp [firstWord, afterFirstWord, h, wordChars_nil]
  | cons d cs ih =>
    rw [wordChars_cons, if_neg (by simp [h])]
    by_cases hd : isBlank d = true
    · have hfirst : firstWord (c :: d :: cs) = [c] := by simp [firstWord, h, hd]
      have hafter : afterFirstWord (c :: d :: cs) = d :: cs := by simp [afterFirstWord, h, hd]
      rw [hfirst, hafter]
      split
      · next heq hwords =>
        obtain ⟨rfl, -⟩ := List.cons.inj heq
        rw [if_pos hd, hwords]
      · rfl
    · have hd : isBlank d = false := by simpa using hd
      have hfirst : firstWord (c :: d :: cs) = c :: firstWord (d :: cs) := by simp [firstWord, h]
      have hafter : afterFirstWord (c :: d :: cs) = afterFirstWord (d :: cs) := by
        simp [afterFirstWord, h]
      rw [hfirst, hafter, ih hd]
      simp [hd]

/-- Scanning by a class stops where a text of the class ends. -/
theorem span_append {p : Char → Bool} {cs rest : List Char} (hcs : ∀ c ∈ cs, p c = true)
    (hrest : ∀ c ∈ rest.head?, p c = false) :
    (cs ++ rest).takeWhile p = cs ∧ (cs ++ rest).dropWhile p = rest := by
  rw [List.takeWhile_append_of_pos hcs, List.dropWhile_append_of_pos hcs]
  cases rest with
  | nil => simp
  | cons c rest => simp [hrest c (by simp)]

theorem firstWord_append {word : List Char} (rest : List Char)
    (hword : ∀ c ∈ word, isBlank c = false) (hrest : ∀ c ∈ rest.head?, isBlank c = true) :
    firstWord (word ++ rest) = word ∧ afterFirstWord (word ++ rest) = rest :=
  span_append (by simpa using hword) (by simpa using hrest)

/-! ## Words after a text -/

/-- Words with a space before each. -/
def spaced (words : List String) : List Char := words.flatMap fun word => ' ' :: word.toList

@[simp] theorem spaced_nil : spaced [] = [] := rfl

@[simp] theorem spaced_cons (word : String) (words : List String) :
    spaced (word :: words) = ' ' :: (word.toList ++ spaced words) := by
  simp [spaced]

theorem head?_spaced (words : List String) : ∀ c ∈ (spaced words).head?, isBlank c = true := by
  cases words with
  | nil => simp
  | cons word words => simp [show isBlank ' ' = true from rfl]

theorem toList_intercalate_space (word : String) (words : List String) :
    (" ".intercalate (word :: words)).toList = word.toList ++ spaced words := by
  induction words generalizing word with
  | nil => simp
  | cons next words ih =>
    rw [String.intercalate_cons_cons, String.toList_append, String.toList_append, ih]
    simp

theorem wordChars_spaced {word : List Char} {words : List String} (hword : IsWord word)
    (hwords : ∀ w ∈ words, IsWord w.toList) :
    wordChars (word ++ spaced words) = word :: words.map String.toList := by
  induction words generalizing word with
  | nil =>
    obtain ⟨c, cs, rfl⟩ := List.exists_cons_of_ne_nil hword.1
    have hc : isBlank c = false := hword.2 c List.mem_cons_self
    obtain ⟨hfirst, hafter⟩ := firstWord_append [] hword.2 (by simp)
    rw [spaced_nil, List.cons_append, wordChars_eq_cons hc, ← List.cons_append, hfirst, hafter]
    rfl
  | cons next words ih =>
    obtain ⟨hnext, hwords⟩ := List.forall_mem_cons.mp hwords
    obtain ⟨c, cs, rfl⟩ := List.exists_cons_of_ne_nil hword.1
    have hc : isBlank c = false := hword.2 c List.mem_cons_self
    obtain ⟨hfirst, hafter⟩ := firstWord_append _ hword.2 (head?_spaced (next :: words))
    rw [List.cons_append, wordChars_eq_cons hc, ← List.cons_append, hfirst, hafter, spaced_cons,
      wordChars_blank rfl, ih hnext hwords, List.map_cons]

/-- The last word ends the text. -/
theorem getLast?_spaced {word : List Char} {words : List String} {P : Char → Prop}
    (hword : ∀ c ∈ word.getLast?, P c)
    (hwords : ∀ w ∈ words, w ≠ "" ∧ ∀ c ∈ w.toList.getLast?, P c) :
    ∀ c ∈ (word ++ spaced words).getLast?, P c := by
  induction words generalizing word with
  | nil => simpa using hword
  | cons next words ih =>
    obtain ⟨⟨hne, hnext⟩, hwords⟩ := List.forall_mem_cons.mp hwords
    have hne : next.toList ≠ [] := by simpa using hne
    obtain ⟨d, ds, hds⟩ := List.exists_cons_of_ne_nil hne
    have hlast : (word ++ spaced (next :: words)).getLast? =
        (next.toList ++ spaced words).getLast? := by
      rw [spaced_cons, hds, List.cons_append, List.getLast?_append, List.getLast?_cons_cons,
        List.getLast?_cons]
      rfl
    rw [hlast]
    exact ih hnext hwords

end ConsoleScript.Text
