-- SUMMARY: The written form of a directive, and that every directive that is read is read again from it.
import ConsoleScript.Proofs.Directive.Exclusive

/-!
# Written directives

`Directive.words` is the table of the forms read from right to left: the words in which a
directive is written, with the optional ones only where it has them, and `written` puts spaces
between the words. A directive that can be written is read from its written form
(`read_written`), and every directive that is read can be written. So reading undoes writing on
all that is ever read (`written_reads_back`).
-/

namespace ConsoleScript.Directive

open Text (isBlank spaced IsWord)

/-! ## The written form -/

/-- A text between double quotes. -/
def inQuotes (text : String) : String := "\"" ++ text ++ "\""

/-- The value of a binding: between quotes unless there is a quote in it. -/
def boundForm (value : String) : String :=
  if '"' ∈ value.toList then value else inQuotes value

/-- An option of a switch: its timeout, or how often it looks. -/
def optionWord (isTimeout : Bool) (d : Duration) : String :=
  (if isTimeout then "timeout=" else "poll=") ++ d.written

/-- The words in which a directive is written. -/
def words : Directive → List String
  | .action (.key name) => [name]
  | .action (.watch text timeout) =>
    "watch" :: inQuotes text :: timeout.toList.map Duration.written
  | .action (.console number) => ["console", toString number]
  | .action (.wait duration) => ["wait", duration.written]
  | .action (.exit code) => ["exit", toString code]
  | .action .endIf => ["end-if"]
  | .action .doReturn => ["return"]
  | .action .doBreak => ["break"]
  | .action (.includeFile path) => ["include", inQuotes path]
  | .action (.screenshot path format) => ["screenshot", inQuotes path, format.name]
  | .action (.call name args) => "call" :: name :: args.map Arguments.quoted
  | .action (.bind name value) => ["set", name ++ "=" ++ boundForm value]
  | .loop (.retry count) => ["retry", toString count]
  | .loop (.repeatTimes count) => ["repeat", toString count]
  | .loop (.whileScreen .found text timeout poll) =>
    "while-found" :: inQuotes text :: timeout.written ::
      poll.toList.flatMap fun d => ["poll", d.written]
  | .loop (.whileScreen .notFound text timeout poll) =>
    "while-not-found" :: inQuotes text :: timeout.written ::
      poll.toList.flatMap fun d => ["poll", d.written]
  | .condition ⟨.found, text, timeout⟩ => ["if-found", inQuotes text, timeout.written]
  | .condition ⟨.notFound, text, timeout⟩ => ["if-not-found", inQuotes text, timeout.written]
  | .switch options =>
    "switch" ::
      (options.timeout.toList.map (optionWord true) ++ options.poll.toList.map (optionWord false))
  | .marker .otherwise => ["else"]
  | .marker (.case pattern) => ["case", inQuotes pattern]
  | .marker .default => ["default"]
  | .marker .endCase => ["end-case"]
  | .marker .endSwitch => ["end-switch"]
  | .marker (.function name) => ["function", name]
  | .marker .endFunction => ["end-function"]

/-- The written form of a directive. -/
def written (d : Directive) : String := " ".intercalate d.words

/-! ## Words without a blank at either end -/

/-- A word that is not empty and has no blank at either end. -/
structure Edged (word : String) : Prop where
  head : ∀ c ∈ word.toList.head?, isBlank c = false
  last : ∀ c ∈ word.toList.getLast?, isBlank c = false
  ne : word ≠ ""

theorem Edged.of_isWord {word : String} (h : IsWord word.toList) : Edged word where
  head c hc := h.2 c (List.mem_of_mem_head? hc)
  last c hc := h.2 c (List.mem_of_mem_getLast? hc)
  ne := by simpa using h.1

theorem edged_written (d : Duration) : Edged d.written := .of_isWord d.isWord_written

theorem isWord_toString (n : Nat) : IsWord (toString n).toList := by
  rw [Text.toList_toString_nat]
  exact Text.isWord_toDigits n

theorem isWord_toString_int (i : Int) : IsWord (toString i).toList := by
  rw [Text.toList_toString_int]
  split
  · exact Text.isWord_toDigits _
  · exact ⟨List.cons_ne_nil _ _, List.forall_mem_cons.mpr ⟨rfl, (Text.isWord_toDigits _).2⟩⟩

@[simp] theorem toList_inQuotes (text : String) :
    (inQuotes text).toList = '"' :: (text.toList ++ ['"']) := by
  simp [inQuotes]

/-- What starts and ends with a quote. -/
theorem edged_of_toList_eq {word : String} {cs : List Char}
    (h : word.toList = '"' :: (cs ++ ['"'])) : Edged word where
  head := by simp [h, show isBlank '"' = false from rfl]
  last := by simp [h, List.getLast?_cons, show isBlank '"' = false from rfl]
  ne := by rintro rfl; cases h

theorem edged_inQuotes (text : String) : Edged (inQuotes text) :=
  edged_of_toList_eq (toList_inQuotes text)

theorem edged_quoted (arg : String) : Edged (Arguments.quoted arg) :=
  edged_of_toList_eq (Arguments.toList_quoted arg)

theorem not_isBlank_of_isWordChar {c : Char} (h : Scope.isWordChar c = true) :
    isBlank c = false := by
  simp only [Scope.isWordChar, Bool.or_eq_true, beq_iff_eq] at h
  rcases h with h | rfl
  · exact Text.not_isBlank_of_isAlphanum h
  · rfl

theorem isWord_of_isWord {name : List Char} (h : Scope.isWord name = true) : IsWord name := by
  cases name with
  | nil => cases h
  | cons c cs =>
    obtain ⟨hc, hcs⟩ : Scope.isWordStart c = true ∧ ∀ d ∈ cs, Scope.isWordChar d = true := by
      simpa [Scope.isWord] using h
    refine ⟨List.cons_ne_nil _ _, List.forall_mem_cons.mpr ⟨?_, fun d hd => ?_⟩⟩
    · exact not_isBlank_of_isWordChar (Scope.isWordChar_of_isWordStart hc)
    · exact not_isBlank_of_isWordChar (hcs d hd)

theorem isWord_of_isFunctionName {name : List Char} (h : isFunctionName name = true) :
    IsWord name := by
  cases name with
  | nil => cases h
  | cons c cs =>
    obtain ⟨hc, hcs⟩ : Scope.isWordStart c = true ∧ ∀ d ∈ cs, isNameChar d = true := by
      simpa [isFunctionName] using h
    refine ⟨List.cons_ne_nil _ _, List.forall_mem_cons.mpr ⟨?_, fun d hd => ?_⟩⟩
    · exact not_isBlank_of_isWordChar (Scope.isWordChar_of_isWordStart hc)
    · have hd := hcs d hd
      simp only [isNameChar, Bool.or_eq_true, beq_iff_eq] at hd
      rcases hd with hd | rfl
      · exact not_isBlank_of_isWordChar hd
      · rfl

theorem isWord_of_isKeyForm {name : List Char} (h : isKeyForm false name = true) :
    IsWord name := by
  refine ⟨?_, by simpa using not_isBlank_of_isKeyForm h⟩
  rintro rfl
  cases h

theorem edged_binding {name value : String} (hname : Scope.isWord name.toList = true)
    (hvalue : Bindable value) : Edged (name ++ "=" ++ boundForm value) := by
  obtain ⟨hne, hblank⟩ := isWord_of_isWord hname
  obtain ⟨c, cs, hchars⟩ := List.exists_cons_of_ne_nil hne
  refine ⟨?_, ?_, ?_⟩
  · have hc : isBlank c = false := hblank c (by simp [hchars])
    simp [hchars, hc]
  · unfold boundForm
    split
    · next hquote =>
      have hnone := (hvalue hquote).1
      have hvalue : value.toList ≠ [] := List.ne_nil_of_mem hquote
      intro d hd
      simp only [String.toList_append, List.getLast?_append] at hd
      cases hlast : value.toList.getLast? with
      | none => exact absurd (List.getLast?_eq_none_iff.mp hlast) hvalue
      | some e =>
        rw [hlast] at hd
        obtain rfl := Option.some.inj hd
        exact hnone e (List.mem_of_getLast? hlast)
    · simp [List.getLast?_append, List.getLast?_cons, show isBlank '"' = false from rfl]
  · intro hnil
    have hlist := congrArg String.toList hnil
    simp [hchars] at hlist

theorem isWord_literal {word : String}
    (h : (!word.isEmpty && word.toList.all (!isBlank ·)) = true) : IsWord word.toList := by
  simpa [IsWord] using h

theorem edged_literal {word : String}
    (h : (!word.isEmpty && word.toList.all (!isBlank ·)) = true) : Edged word :=
  .of_isWord (isWord_literal h)

theorem isWord_optionWord (isTimeout : Bool) (d : Duration) :
    IsWord (optionWord isTimeout d).toList := by
  have hlead : IsWord (if isTimeout then "timeout=" else "poll=").toList := by
    cases isTimeout <;> exact isWord_literal (by decide)
  rw [optionWord, String.toList_append]
  exact ⟨by simp [d.isWord_written.1], List.forall_mem_append.mpr ⟨hlead.2, d.isWord_written.2⟩⟩

/-- The options of a switch. -/
theorem isWord_options (options : SwitchOptions) :
    ∀ w ∈ options.timeout.toList.map (optionWord true) ++
      options.poll.toList.map (optionWord false), IsWord w.toList := by
  refine List.forall_mem_append.mpr ⟨?_, ?_⟩
  · simp [isWord_optionWord]
  · simp [isWord_optionWord]

/-- No word of a written form begins or ends with a blank. -/
theorem edged_words {d : Directive} (h : d.Writable) : ∀ word ∈ d.words, Edged word := by
  have cons : ∀ {word : String} {rest : List String}, Edged word → (∀ w ∈ rest, Edged w) →
      ∀ w ∈ word :: rest, Edged w := fun hword hrest => List.forall_mem_cons.mpr ⟨hword, hrest⟩
  have nil : ∀ w ∈ ([] : List String), Edged w := List.forall_mem_nil _
  have number : ∀ n : Nat, Edged (toString n) := fun n => .of_isWord (isWord_toString n)
  have name : ∀ {name : String}, isFunctionName name.toList = true → Edged name :=
    fun hname => .of_isWord (isWord_of_isFunctionName hname)
  have poll : ∀ poll : Option Duration,
      ∀ w ∈ poll.toList.flatMap fun d => ["poll", d.written], Edged w := fun poll => by
    cases poll with
    | none => exact nil
    | some d => exact cons (edged_literal (by decide)) (cons (edged_written d) nil)
  match d, h with
  | .action (.key _), h => exact cons (.of_isWord (isWord_of_isKeyForm h.1)) nil
  | .action (.watch text timeout), _ =>
    exact cons (edged_literal (by decide)) (cons (edged_inQuotes text) (by simp [edged_written]))
  | .action (.console n), _ => exact cons (edged_literal (by decide)) (cons (number n) nil)
  | .action (.wait d), _ => exact cons (edged_literal (by decide)) (cons (edged_written d) nil)
  | .action (.exit code), _ =>
    exact cons (edged_literal (by decide)) (cons (.of_isWord (isWord_toString_int code)) nil)
  | .action .endIf, _ | .action .doReturn, _ | .action .doBreak, _ =>
    exact cons (edged_literal (by decide)) nil
  | .action (.includeFile path), _ =>
    exact cons (edged_literal (by decide)) (cons (edged_inQuotes path) nil)
  | .action (.screenshot path .ppm), _ | .action (.screenshot path .png), _ =>
    exact cons (edged_literal (by decide)) (cons (edged_inQuotes path)
      (cons (edged_literal (by decide)) nil))
  | .action (.call _ args), h =>
    exact cons (edged_literal (by decide)) (cons (name h.1) (by simp [edged_quoted]))
  | .action (.bind _ _), h =>
    exact cons (edged_literal (by decide)) (cons (edged_binding h.1 h.2) nil)
  | .loop (.retry n), _ | .loop (.repeatTimes n), _ =>
    exact cons (edged_literal (by decide)) (cons (number n) nil)
  | .loop (.whileScreen .found text timeout p), _
  | .loop (.whileScreen .notFound text timeout p), _ =>
    exact cons (edged_literal (by decide)) (cons (edged_inQuotes text)
      (cons (edged_written timeout) (poll p)))
  | .condition ⟨.found, text, timeout⟩, _ | .condition ⟨.notFound, text, timeout⟩, _ =>
    exact cons (edged_literal (by decide)) (cons (edged_inQuotes text)
      (cons (edged_written timeout) nil))
  | .switch options, _ =>
    exact cons (edged_literal (by decide)) fun w hw => .of_isWord (isWord_options options w hw)
  | .marker (.case pattern), _ =>
    exact cons (edged_literal (by decide)) (cons (edged_inQuotes pattern) nil)
  | .marker (.function _), h => exact cons (edged_literal (by decide)) (cons (name h) nil)
  | .marker .otherwise, _ | .marker .default, _ | .marker .endCase, _ | .marker .endSwitch, _
  | .marker .endFunction, _ => exact cons (edged_literal (by decide)) nil

theorem toList_written {d : Directive} {word : String} {rest : List String}
    (h : d.words = word :: rest) : d.written.toList = word.toList ++ spaced rest := by
  rw [written, h, Text.toList_intercalate_space]

/-- Trimming takes nothing from a written form. -/
theorem trimChars_written {d : Directive} (h : d.Writable) :
    Text.trimChars d.written.toList = d.written.toList := by
  have hedged := edged_words h
  cases hwords : d.words with
  | nil => rw [written, hwords]; rfl
  | cons word rest =>
    rw [hwords, List.forall_mem_cons] at hedged
    obtain ⟨hword, hrest⟩ := hedged
    rw [toList_written hwords]
    refine Text.trimChars_eq_self ?_ (Text.getLast?_spaced hword.last fun w hw =>
      ⟨(hrest w hw).ne, (hrest w hw).last⟩)
    cases hchars : word.toList with
    | nil => exact absurd (by simpa using hchars) hword.ne
    | cons c cs => simpa [hchars] using hword.head

/-! ## Reading the parts -/

variable {word : String} {rest : List String} {more : List Char}

theorem Edged.head?_append (h : Edged word) (cs : List Char) :
    ∀ c ∈ (word.toList ++ cs).head?, isBlank c = false := by
  cases hchars : word.toList with
  | nil => exact absurd (by simpa using hchars) h.ne
  | cons c cs => simpa [hchars] using h.head

theorem afterWord?_spaced (first : String) (rest : List String) (h : Edged word) :
    afterWord? first (first.toList ++ spaced (word :: rest)) =
      some (word.toList ++ spaced rest) := by
  have hdrop : Text.dropStart? first.toList (first.toList ++ spaced (word :: rest)) =
      some (' ' :: (word.toList ++ spaced rest)) := by
    rw [Text.dropStart?_eq_some_iff, Text.spaced_cons]
  have hblank : isBlank ' ' = true := rfl
  rw [afterWord?, hdrop]
  simp only [hblank, ↓reduceIte, Text.trimStart_eq_self (h.head?_append _)]

/-- A reader does not take a text that begins with another word than its own. -/
theorem afterWord?_of_ne (first other : String) (hother : other.toList.all (!isBlank ·) = true)
    (hfirst : first.toList.all (!isBlank ·) = true) (hne : other ≠ first) :
    afterWord? first (other.toList ++ spaced rest) = none := by
  rw [← Option.not_isSome_iff_eq_none]
  intro hsome
  have hword := (firstWord_of_afterWord? hfirst hsome).1
  rw [(Text.firstWord_append _ (by simpa using hother) (Text.head?_spaced rest)).1,
    String.ofList_toList] at hword
  exact hne hword

theorem afterBlanks?_spaced (rest : List String) (h : Edged word) :
    afterBlanks? (spaced (word :: rest)) = some (word.toList ++ spaced rest) := by
  have hblank : isBlank ' ' = true := rfl
  rw [Text.spaced_cons, afterBlanks?, if_pos hblank, Text.trimStart_eq_self (h.head?_append _)]

theorem quotedText?_inQuotes {text : String} (h : Quotable text) (more : List Char) :
    quotedText? ((inQuotes text).toList ++ more) = some (text, more) :=
  quotedText?_eq_some_iff.mpr ⟨h, by simp⟩

theorem isNumeral_digits (n : Nat) : isNumeral (Nat.toDigits 10 n) = true := by
  have hdigits : ∀ c ∈ Nat.toDigits 10 n, Text.isDecimalDigit c = true := fun c hc =>
    Text.isDecimalDigit_of_isDigit (Text.isDigit_of_mem_toDigits hc)
  simpa [isNumeral, Nat.toDigits_ne_nil] using hdigits

theorem isDurationWord_written (d : Duration) : isDurationWord d.written.toList = true := by
  obtain ⟨hcount, hunit⟩ := d.span_written (fun _ h => Text.isDecimalDigit_of_isDigit h)
    fun _ h => h
  have hmem : d.unit ∈ ["", "ms", "s", "m"] := by
    have hunits : ∀ unit ∈ ["s", "ms"], unit ∈ ["", "ms", "s", "m"] := by decide
    exact hunits _ d.mem_units
  rw [isDurationWord, hcount, hunit, String.ofList_toList, isNumeral_digits, decide_eq_true hmem]
  rfl

theorem durationOf_written {d : Duration} (h : d.IsWritable) :
    durationOf d.written.toList = .ok d := by
  rw [durationOf, String.ofList_toList, Duration.read?_written h]

theorem finalDuration?_written (timeout : Option Duration) (h : ∀ d ∈ timeout, d.IsWritable) :
    finalDuration? (spaced (timeout.toList.map Duration.written)) = some (.ok timeout) := by
  cases timeout with
  | none => rfl
  | some d =>
    have hafter : afterBlanks? (spaced [d.written]) = some d.written.toList := by
      simpa using afterBlanks?_spaced [] (edged_written d)
    simp only [Option.toList_some, List.map_cons, List.map_nil, finalDuration?, hafter,
      isDurationWord_written, durationOf_written (h d rfl)]
    simp

theorem finalPoll?_written {poll : Option Duration} (h : ∀ d ∈ poll, d.IsWritable) :
    finalPoll? (spaced (poll.toList.flatMap fun d => ["poll", d.written])) = some (.ok poll) := by
  cases poll with
  | none => rfl
  | some d =>
    have hblanks : afterBlanks? (spaced ["poll", d.written]) =
        some ("poll".toList ++ spaced [d.written]) :=
      afterBlanks?_spaced _ (edged_literal (by decide))
    have hafter : afterWord? "poll" ("poll".toList ++ spaced [d.written]) =
        some d.written.toList := by
      simpa using afterWord?_spaced "poll" [] (edged_written d)
    have hne : (spaced ["poll", d.written]).isEmpty = false := by simp
    simp only [Option.toList_some, List.flatMap_cons, List.flatMap_nil, List.append_nil, finalPoll?,
      hne, hblanks, hafter, Option.bind_eq_bind, Option.bind_some, isDurationWord_written,
      durationOf_written (h d rfl)]
    rfl

theorem splitFunctionName?_append {name : List Char} (h : isFunctionName name = true)
    (hmore : ∀ c ∈ more.head?, isNameChar c = false) :
    splitFunctionName? (name ++ more) = some (name, more) := by
  cases name with
  | nil => cases h
  | cons c cs =>
    obtain ⟨hc, hcs⟩ : Scope.isWordStart c = true ∧ ∀ d ∈ cs, isNameChar d = true := by
      simpa [isFunctionName] using h
    obtain ⟨htake, hdrop⟩ := Text.span_append hcs hmore
    unfold isNameChar at htake hdrop
    simp [splitFunctionName?, hc, htake, hdrop]

theorem isNameChar_head?_spaced (words : List String) :
    ∀ c ∈ (spaced words).head?, isNameChar c = false := by
  cases words with
  | nil => simp
  | cons word words => simp [show isNameChar ' ' = false from rfl]

theorem splitWord?_append {name : List Char} (h : Scope.isWord name = true)
    (hmore : ∀ c ∈ more.head?, Scope.isWordChar c = false) :
    Scope.splitWord? (name ++ more) = some (name, more) := by
  cases name with
  | nil => cases h
  | cons c cs =>
    obtain ⟨hc, hcs⟩ : Scope.isWordStart c = true ∧ ∀ d ∈ cs, Scope.isWordChar d = true := by
      simpa [Scope.isWord] using h
    obtain ⟨htake, hdrop⟩ := Text.span_append hcs hmore
    simp [Scope.splitWord?, hc, htake, hdrop]

theorem boundValue?_boundForm {value : String} (h : Bindable value) :
    boundValue? (boundForm value).toList = some value := by
  unfold boundForm
  split
  · next hquote =>
    obtain ⟨hblank, hquoted⟩ := h hquote
    have hnone : value.toList.any isBlank = false := by simpa using hblank
    unfold boundValue?
    split
    · next text heq => exact absurd heq (hquoted text)
    · simp [hnone]
  · next hquote =>
    have hquoted : quotedText? (inQuotes value).toList = some (value, []) := by
      simpa using quotedText?_inQuotes hquote []
    rw [boundValue?, hquoted]

/-! ## Reading the forms -/

theorem readWatch_written {text : String} {timeout : Option Duration} (htext : Quotable text)
    (htimeout : ∀ d ∈ timeout, d.IsWritable) :
    readWatch ("watch".toList ++ spaced (inQuotes text :: timeout.toList.map Duration.written)) =
      some (.ok (.action (.watch text timeout))) := by
  simp only [readWatch, afterWord?_spaced "watch" _ (edged_inQuotes text), Option.bind_eq_bind,
    Option.bind_some, quotedText?_inQuotes htext, finalDuration?_written _ htimeout]
  rfl

theorem readConsole_written {n : Nat} (h : 1 ≤ n ∧ n ≤ 12) :
    readConsole ("console".toList ++ spaced [toString n]) = some (.ok (.action (.console n))) := by
  have hword : Edged (toString n) := .of_isWord (isWord_toString n)
  have hnumeral : isNumeral (toString n).toList = true := by
    rw [Text.toList_toString_nat]
    exact isNumeral_digits n
  have hread : Text.readNat? 255 (toString n) = some n := Text.readNat?_toString (by omega)
  simp only [readConsole, afterWord?_spaced "console" _ hword, Option.bind_eq_bind,
    Option.bind_some, Text.spaced_nil, List.append_nil, hnumeral, ↓reduceIte,
    String.ofList_toList, hread, h, and_self]
  rfl

theorem readWait_written {d : Duration} (h : d.IsWritable) :
    readWait ("wait".toList ++ spaced [d.written]) = some (.ok (.action (.wait d))) := by
  simp only [readWait, afterWord?_spaced "wait" _ (edged_written d), Option.bind_eq_bind,
    Option.bind_some, Text.spaced_nil, List.append_nil, isDurationWord_written, ↓reduceIte,
    durationOf_written h]
  rfl

theorem isNumeral_unsigned (i : Int) : isNumeral (unsigned (toString i).toList) = true := by
  rw [Text.toList_toString_int]
  split
  · obtain ⟨c, cs, heq, hc⟩ := Text.exists_toDigits_eq_cons i.toNat
    have hsame : unsigned (Nat.toDigits 10 i.toNat) = Nat.toDigits 10 i.toNat := by
      rw [heq, unsigned]
      rintro rest hminus
      obtain ⟨rfl, -⟩ := List.cons.inj hminus
      cases hc
    rw [hsame]
    exact isNumeral_digits _
  · exact isNumeral_digits _

theorem readExit_written {code : Int} (h : Text.IsSigned Text.maxSignedHalfWord code) :
    readExit ("exit".toList ++ spaced [toString code]) = some (.ok (.action (.exit code))) := by
  have hword : Edged (toString code) := .of_isWord (isWord_toString_int code)
  have hmore : String.ofList ("exit".toList ++ spaced [toString code]) ≠ "exit" := by
    intro heq
    have hlength := congrArg (List.length ∘ String.toList) heq
    simp at hlength
  simp only [readExit, hmore, ↓reduceIte, afterWord?_spaced "exit" _ hword, Option.bind_eq_bind,
    Option.bind_some, Text.spaced_nil, List.append_nil, isNumeral_unsigned,
    String.ofList_toList, Text.readInt_toString h]
  rfl

theorem readConditionOf_written (first : String) (presence : Presence) {text : String}
    {timeout : Duration} (htext : Quotable text) (htimeout : timeout.IsWritable) :
    readConditionOf first presence (first.toList ++ spaced [inQuotes text, timeout.written]) =
      some (.ok (.condition ⟨presence, text, timeout⟩)) := by
  have hfinal : finalDuration? (spaced [timeout.written]) = some (.ok (some timeout)) :=
    finalDuration?_written (some timeout) (by simpa using htimeout)
  simp only [readConditionOf, afterWord?_spaced first _ (edged_inQuotes text), Option.bind_eq_bind,
    Option.bind_some, quotedText?_inQuotes htext, hfinal]
  rfl

theorem readCountedOf_written (first : String) (loop : Nat → Loop) {n : Nat}
    (h : 1 ≤ n ∧ n ≤ Text.maxHalfWord) :
    readCountedOf first loop (first.toList ++ spaced [toString n]) =
      some (.ok (.loop (loop n))) := by
  have hword : Edged (toString n) := .of_isWord (isWord_toString n)
  have hnumeral : isNumeral (toString n).toList = true := by
    rw [Text.toList_toString_nat]
    exact isNumeral_digits n
  have hpos : 0 < n := h.1
  simp only [readCountedOf, afterWord?_spaced first _ hword, Option.bind_eq_bind,
    Option.bind_some, Text.spaced_nil, List.append_nil, hnumeral, ↓reduceIte,
    String.ofList_toList, Text.readNat?_toString h.2, hpos]
  rfl

theorem readWhileOf_written (first : String) (presence : Presence) {text : String}
    {timeout : Duration} {poll : Option Duration} (htext : Quotable text)
    (htimeout : timeout.IsWritable) (hpoll : ∀ d ∈ poll, d.IsWritable) :
    readWhileOf first presence (first.toList ++ spaced (inQuotes text :: timeout.written ::
        poll.toList.flatMap fun d => ["poll", d.written])) =
      some (.ok (.loop (.whileScreen presence text timeout poll))) := by
  have hsplit : ∀ words, splitAtBlank (timeout.written.toList ++ spaced words) =
      (timeout.written.toList, spaced words) := fun words => by
    obtain ⟨hfirst, hafter⟩ :=
      Text.firstWord_append _ timeout.isWord_written.2 (Text.head?_spaced words)
    exact Prod.ext hfirst hafter
  simp only [readWhileOf, afterWord?_spaced first _ (edged_inQuotes text), Option.bind_eq_bind,
    Option.bind_some, quotedText?_inQuotes htext, afterBlanks?_spaced _ (edged_written timeout),
    hsplit, isDurationWord_written, ↓reduceIte, finalPoll?_written hpoll,
    durationOf_written htimeout]
  rfl

/-- The second of two readers reads what begins with its word. -/
theorem readConditionOf_other {words : List String} :
    readConditionOf "if-found" .found ("if-not-found".toList ++ spaced words) = none := by
  simp only [readConditionOf, afterWord?_of_ne "if-found" "if-not-found"
    (by decide) (by decide) (by decide), Option.bind_eq_bind, Option.bind_none]

theorem readCountedOf_other {loop : Nat → Loop} {words : List String} :
    readCountedOf "retry" loop ("repeat".toList ++ spaced words) = none := by
  simp only [readCountedOf, afterWord?_of_ne "retry" "repeat"
    (by decide) (by decide) (by decide), Option.bind_eq_bind, Option.bind_none]

theorem readWhileOf_other {words : List String} :
    readWhileOf "while-found" .found ("while-not-found".toList ++ spaced words) = none := by
  simp only [readWhileOf, afterWord?_of_ne "while-found" "while-not-found"
    (by decide) (by decide) (by decide), Option.bind_eq_bind, Option.bind_none]

theorem readCondition_written {c : Condition} (h : (Directive.condition c).Writable) :
    readCondition (Directive.condition c).written.toList = some (.ok (.condition c)) := by
  obtain ⟨presence, text, timeout⟩ := c
  cases presence with
  | found =>
    rw [toList_written rfl, readCondition, readConditionOf_written "if-found" .found h.1 h.2]
    rfl
  | notFound =>
    rw [toList_written rfl, readCondition, readConditionOf_other,
      readConditionOf_written "if-not-found" .notFound h.1 h.2]
    rfl

theorem readCounted_written_retry {n : Nat} (h : 1 ≤ n ∧ n ≤ Text.maxHalfWord) :
    readCounted ("retry".toList ++ spaced [toString n]) = some (.ok (.loop (.retry n))) := by
  rw [readCounted, readCountedOf_written "retry" .retry h]
  rfl

theorem readCounted_written_repeat {n : Nat} (h : 1 ≤ n ∧ n ≤ Text.maxHalfWord) :
    readCounted ("repeat".toList ++ spaced [toString n]) = some (.ok (.loop (.repeatTimes n))) := by
  rw [readCounted, readCountedOf_other, readCountedOf_written "repeat" .repeatTimes h]
  rfl

theorem readWhile_written {presence : Presence} {text : String} {timeout : Duration}
    {poll : Option Duration}
    (h : (Directive.loop (.whileScreen presence text timeout poll)).Writable) :
    readWhile (Directive.loop (.whileScreen presence text timeout poll)).written.toList =
      some (.ok (.loop (.whileScreen presence text timeout poll))) := by
  obtain ⟨htext, htimeout, hpoll⟩ := h
  cases presence with
  | found =>
    rw [toList_written rfl, readWhile,
      readWhileOf_written "while-found" .found htext htimeout hpoll]
    rfl
  | notFound =>
    rw [toList_written rfl, readWhile, readWhileOf_other,
      readWhileOf_written "while-not-found" .notFound htext htimeout hpoll]
    rfl

theorem switchOption?_optionWord (isTimeout : Bool) (d : Duration) :
    switchOption? (optionWord isTimeout d).toList = some (isTimeout, d.written.toList) := by
  cases isTimeout with
  | true =>
    have hdrop : Text.dropStart? "timeout=".toList (optionWord true d).toList =
        some d.written.toList := by
      rw [Text.dropStart?_eq_some_iff, optionWord, String.toList_append]
      rfl
    simp only [switchOption?, hdrop, isDurationWord_written, ↓reduceIte]
  | false =>
    have hother : Text.dropStart? "timeout=".toList (optionWord false d).toList = none := by
      rw [optionWord, String.toList_append]
      rfl
    have hdrop : Text.dropStart? "poll=".toList (optionWord false d).toList =
        some d.written.toList := by
      rw [Text.dropStart?_eq_some_iff, optionWord, String.toList_append]
      rfl
    simp only [switchOption?, hother, hdrop, isDurationWord_written, ↓reduceIte]

theorem readSwitch_written {options : SwitchOptions} (h : (Directive.switch options).Writable) :
    readSwitch (Directive.switch options).written.toList = some (.ok (.switch options)) := by
  have hfirst : IsWord "switch".toList := isWord_literal (by decide)
  have hsplit := Text.wordChars_spaced hfirst (isWord_options options)
  rw [toList_written rfl]
  simp only [readSwitch, hsplit, String.ofList_toList, ↓reduceIte]
  obtain ⟨timeout, poll⟩ := options
  obtain ⟨htimeout, hpoll⟩ := h
  rcases timeout with _ | t
  · rcases poll with _ | p
    · rfl
    · simp [switchOption?_optionWord, switchOptions, durationOf_written (hpoll p rfl)]
      rfl
  · rcases poll with _ | p
    · simp [switchOption?_optionWord, switchOptions, durationOf_written (htimeout t rfl)]
      rfl
    · simp [switchOption?_optionWord, switchOptions, durationOf_written (htimeout t rfl),
        durationOf_written (hpoll p rfl)]
      rfl

theorem readCase_written {pattern : String} (h : Quotable pattern) :
    readCase ("case".toList ++ spaced [inQuotes pattern]) =
      some (.ok (.marker (.case pattern))) := by
  simp only [readCase, afterWord?_spaced "case" _ (edged_inQuotes pattern), Option.bind_eq_bind,
    Option.bind_some, Text.spaced_nil, quotedText?_inQuotes h]
  rfl

theorem readInclude_written {path : String} (h : Quotable path ∧ path ≠ "") :
    readInclude ("include".toList ++ spaced [inQuotes path]) =
      some (.ok (.action (.includeFile path))) := by
  have hne : path.isEmpty = false := by simpa using h.2
  simp only [readInclude, afterWord?_spaced "include" _ (edged_inQuotes path), Option.bind_eq_bind,
    Option.bind_some, Text.spaced_nil, quotedText?_inQuotes h.1, hne]
  rfl

theorem ofName?_name (format : ImageFormat) : ImageFormat.ofName? format.name = some format := by
  cases format <;> decide

theorem readScreenshot_written {path : String} (format : ImageFormat)
    (h : Quotable path ∧ path ≠ "") :
    readScreenshot ("screenshot".toList ++ spaced [inQuotes path, format.name]) =
      some (.ok (.action (.screenshot path format))) := by
  have hne : path.isEmpty = false := by simpa using h.2
  have hname : Edged format.name ∧
      (!format.name.toList.isEmpty && format.name.toList.all Char.isAlpha) = true := by
    cases format <;> exact ⟨edged_literal (by decide), by decide⟩
  have hafter : afterBlanks? (spaced [format.name]) = some format.name.toList := by
    simpa using afterBlanks?_spaced [] hname.1
  have hsome : (spaced [format.name]).isEmpty = false := by simp
  simp only [readScreenshot, afterWord?_spaced "screenshot" _ (edged_inQuotes path),
    Option.bind_eq_bind, Option.bind_some, quotedText?_inQuotes h.1, hne, hsome, hafter, hname.2,
    ↓reduceIte, String.ofList_toList, ofName?_name]
  rfl

theorem readFunction_written {name : String} (h : isFunctionName name.toList = true) :
    readFunction ("function".toList ++ spaced [name]) = some (.ok (.marker (.function name))) := by
  have hname : Edged name := .of_isWord (isWord_of_isFunctionName h)
  have hsplit : splitFunctionName? (name.toList ++ []) = some (name.toList, []) :=
    splitFunctionName?_append h (by simp)
  simp only [readFunction, afterWord?_spaced "function" _ hname, Option.bind_eq_bind,
    Option.bind_some, Text.spaced_nil, hsplit]
  simp

theorem newline_not_mem_quoted {arg : String} (h : '\n' ∉ arg.toList) :
    '\n' ∉ (Arguments.quoted arg).toList := by
  have hescape : ∀ c ∈ arg.toList, '\n' ∉ Arguments.escapeChar c := fun c hc hmem => by
    have hne : '\n' ≠ c := by rintro rfl; exact h hc
    unfold Arguments.escapeChar at hmem
    split at hmem <;> simp [hne] at hmem
  simpa using hescape

theorem readCall_written {name : String} {args : List String}
    (h : (Directive.action (.call name args)).Writable) :
    readCall ("call".toList ++ spaced (name :: args.map Arguments.quoted)) =
      some (.ok (.action (.call name args))) := by
  obtain ⟨hfunction, hargs⟩ := h
  have hname : Edged name := .of_isWord (isWord_of_isFunctionName hfunction)
  have hsplit := splitFunctionName?_append hfunction
    (isNameChar_head?_spaced (args.map Arguments.quoted))
  simp only [readCall, afterWord?_spaced "call" _ hname, Option.bind_eq_bind, Option.bind_some,
    hsplit]
  cases args with
  | nil => simp
  | cons arg args =>
    have hafter := afterBlanks?_spaced (args.map Arguments.quoted) (edged_quoted arg)
    have hline : ((Arguments.quoted arg).toList ++
        spaced (args.map Arguments.quoted)).contains '\n' = false := by
      obtain ⟨harg, hargs⟩ := List.forall_mem_cons.mp hargs
      have hnone : '\n' ∉ spaced (args.map Arguments.quoted) := by
        have hquoted : ∀ a ∈ args, '\n' ∉ (Arguments.quoted a).toList := fun a ha =>
          newline_not_mem_quoted (hargs a ha)
        simpa [spaced] using hquoted
      rw [List.contains_eq_mem, decide_eq_false_iff_not, List.mem_append, not_or]
      exact ⟨newline_not_mem_quoted harg, hnone⟩
    simp only [List.map_cons, hafter, Option.bind_some, hline, Arguments.split_quoted,
      String.ofList_toList]
    rfl

theorem readBinding_written {name value : String} (hname : Scope.isWord name.toList = true)
    (hvalue : Bindable value) :
    readBinding ("set".toList ++ spaced [name ++ "=" ++ boundForm value]) =
      some (.ok (.action (.bind name value))) := by
  have hsplit : Scope.splitWord? (name ++ "=" ++ boundForm value).toList =
      some (name.toList, '=' :: (boundForm value).toList) := by
    rw [String.toList_append, String.toList_append, List.append_assoc]
    exact splitWord?_append hname (by simp; decide)
  simp only [readBinding, afterWord?_spaced "set" _ (edged_binding hname hvalue),
    Option.bind_eq_bind, Option.bind_some, Text.spaced_nil, List.append_nil, hsplit,
    boundValue?_boundForm hvalue, String.ofList_toList]
  rfl

/-! ## Reading what is written -/

/-- A directive that can be written is read from its written form. -/
theorem exists_reader_of_writable {d : Directive} (h : d.Writable) :
    ∃ reader ∈ readers, reader d.written.toList = some (.ok d) := by
  have found : ∀ (reader : List Char → Reading) {word : String} {rest : List String},
      reader ∈ readers → d.words = word :: rest →
        reader (word.toList ++ spaced rest) = some (.ok d) →
        ∃ reader ∈ readers, reader d.written.toList = some (.ok d) :=
    fun _ _ _ hmem hwords hreads => ⟨_, hmem, by rwa [toList_written hwords]⟩
  match d, h with
  | .action (.key name), h =>
    refine found readKey (by simp [readers]) rfl ?_
    rw [Text.spaced_nil, List.append_nil, readKey_eq_some_iff, String.ofList_toList]
    exact ⟨rfl, h⟩
  | .action (.watch _ _), h =>
    exact found readWatch (by simp [readers]) rfl (readWatch_written h.1 h.2)
  | .action (.console _), h =>
    exact found readConsole (by simp [readers]) rfl (readConsole_written h)
  | .action (.wait _), h =>
    exact found readWait (by simp [readers]) rfl (readWait_written h)
  | .action (.exit _), h =>
    exact found readExit (by simp [readers]) rfl (readExit_written h)
  | .action .endIf, _ | .action .doReturn, _ | .action .doBreak, _ =>
    exact found readWord (by simp [readers]) rfl (by rfl)
  | .action (.includeFile _), h =>
    exact found readInclude (by simp [readers]) rfl (readInclude_written h)
  | .action (.screenshot _ format), h =>
    exact found readScreenshot (by simp [readers]) rfl (readScreenshot_written format h)
  | .action (.call _ _), h =>
    exact found readCall (by simp [readers]) rfl (readCall_written h)
  | .action (.bind _ _), h =>
    exact found readBinding (by simp [readers]) rfl (readBinding_written h.1 h.2)
  | .loop (.retry _), h =>
    exact found readCounted (by simp [readers]) rfl (readCounted_written_retry h)
  | .loop (.repeatTimes _), h =>
    exact found readCounted (by simp [readers]) rfl (readCounted_written_repeat h)
  | .loop (.whileScreen _ _ _ _), h => exact ⟨readWhile, by simp [readers], readWhile_written h⟩
  | .condition _, h => exact ⟨readCondition, by simp [readers], readCondition_written h⟩
  | .switch _, h => exact ⟨readSwitch, by simp [readers], readSwitch_written h⟩
  | .marker (.case _), h =>
    exact found readCase (by simp [readers]) rfl (readCase_written h)
  | .marker (.function _), h =>
    exact found readFunction (by simp [readers]) rfl (readFunction_written h)
  | .marker .otherwise, _ | .marker .default, _ | .marker .endCase, _ | .marker .endSwitch, _
  | .marker .endFunction, _ => exact found readWord (by simp [readers]) rfl (by rfl)

theorem read_written {d : Directive} (h : d.Writable) : read d.written = .ok d := by
  obtain ⟨reader, hmem, hreads⟩ := exists_reader_of_writable h
  rw [← trimChars_written h] at hreads
  exact read_eq_of_mem hmem hreads

/-- The values of a directive are within their ranges. -/
def InRange : Directive → Prop
  | .action (.console number) => 1 ≤ number ∧ number ≤ 12
  | .loop (.retry count) | .loop (.repeatTimes count) => 1 ≤ count ∧ count ≤ 4294967295
  | .action (.includeFile path) | .action (.screenshot path _) => path ≠ ""
  | _ => True

theorem Writable.inRange {d : Directive} (h : d.Writable) : d.InRange := by
  match d, h with
  | .action (.console _), h => exact h
  | .loop (.retry _), h | .loop (.repeatTimes _), h => exact h
  | .action (.includeFile _), h | .action (.screenshot _ _), h => exact h.2
  | .action (.key _), _ | .action (.watch _ _), _ | .action (.wait _), _ | .action (.exit _), _
  | .action .endIf, _ | .action .doReturn, _ | .action .doBreak, _ | .action (.call _ _), _
  | .action (.bind _ _), _ | .loop (.whileScreen _ _ _ _), _ | .condition _, _ | .switch _, _
  | .marker _, _ => exact trivial

/-- Whatever is read is read again from its written form, and its values are within their
    ranges. -/
theorem written_reads_back {content : String} {d : Directive} (h : read content = .ok d) :
    read d.written = .ok d ∧ d.InRange :=
  ⟨read_written (writable_of_read h), (writable_of_read h).inRange⟩

/-- A call whose second argument holds quotes, as it is written and as it is read again. -/
theorem written_reads_back_call :
    let d : Directive := .action (.call "greet" ["a", "b \"c\""])
    read "call  greet a \"b \\\"c\\\"\" " = .ok d ∧
      d.written = "call greet \"a\" \"b \\\"c\\\"\"" ∧ read d.written = .ok d ∧ d.InRange := by
  intro d
  have hread : read "call  greet a \"b \\\"c\\\"\" " = .ok d := by decide +kernel
  exact ⟨hread, by decide +kernel, written_reads_back hread⟩

end ConsoleScript.Directive
