-- SUMMARY: What holds of every directive that is read: its texts, names and numbers can be written.
import ConsoleScript.Directive.Read
import ConsoleScript.Proofs.Directive.Arguments
import ConsoleScript.Proofs.Scope.Occurrences
import ConsoleScript.Proofs.Text.Numerals

/-!
# Directives that can be written

Not every directive can be written: a text between quotes cannot hold one, a console has a
number from 1 to 12, and so on. `Directive.Writable` says for each form what it takes. Every
directive that is read is one of these (`writable_of_read`), and a key comes from the reader
of keys only (`Sound`).
-/

namespace ConsoleScript.Directive

open Text (isBlank)

/-! ## Parts that can be written -/

/-- A text that can stand between double quotes. -/
def Quotable (text : String) : Prop := '"' ∉ text.toList

/-- A character of a function's name after the first one. -/
def isNameChar (c : Char) : Bool := Scope.isWordChar c || c == '-'

/-- The name of a function. -/
def isFunctionName : List Char → Bool
  | [] => false
  | c :: cs => Scope.isWordStart c && cs.all isNameChar

/-- A value that a binding can give: one with a quote stands as it is, and is not taken for a
    text between quotes. -/
def Bindable (value : String) : Prop :=
  '"' ∈ value.toList →
    (∀ c ∈ value.toList, isBlank c = false) ∧ ∀ text, quotedText? value.toList ≠ some (text, [])

/-- Whether a directive is a key. -/
def isKey : Directive → Bool
  | .action (.key _) => true
  | _ => false

/-- What the parts of a directive are like if it can be written. -/
def Writable : Directive → Prop
  | .action (.key name) => isKeyForm false name.toList = true ∧ name ∉ reserved
  | .action (.watch text timeout) => Quotable text ∧ ∀ d ∈ timeout, d.IsWritable
  | .action (.console number) => 1 ≤ number ∧ number ≤ 12
  | .action (.wait duration) => duration.IsWritable
  | .action (.exit code) => Text.IsSigned Text.maxSignedHalfWord code
  | .action .endIf | .action .doReturn | .action .doBreak => True
  | .action (.includeFile path) | .action (.screenshot path _) => Quotable path ∧ path ≠ ""
  | .action (.call name args) =>
    isFunctionName name.toList = true ∧ ∀ arg ∈ args, '\n' ∉ arg.toList
  | .action (.bind name value) => Scope.isWord name.toList = true ∧ Bindable value
  | .loop (.retry count) | .loop (.repeatTimes count) => 1 ≤ count ∧ count ≤ Text.maxHalfWord
  | .loop (.whileScreen _ text timeout poll) =>
    Quotable text ∧ timeout.IsWritable ∧ ∀ d ∈ poll, d.IsWritable
  | .condition c => Quotable c.text ∧ c.timeout.IsWritable
  | .switch options =>
    (∀ d ∈ options.timeout, d.IsWritable) ∧ ∀ d ∈ options.poll, d.IsWritable
  | .marker (.case pattern) => Quotable pattern
  | .marker (.function name) => isFunctionName name.toList = true
  | .marker _ => True

/-! ## Parts that are read -/

variable {cs rest : List Char}

theorem quotedText?_eq_some_iff {text : String} :
    quotedText? cs = some (text, rest) ↔
      Quotable text ∧ cs = '"' :: (text.toList ++ '"' :: rest) := by
  unfold quotedText?
  split
  · next cs =>
    simp only [Option.map_eq_some_iff, Prod.mk.injEq, List.cons.injEq, true_and]
    constructor
    · rintro ⟨⟨before, after⟩, hsplit, rfl, rfl⟩
      obtain ⟨hnot, rfl⟩ := Text.splitFirst?_eq_some_iff.mp hsplit
      simpa [Quotable] using hnot
    · rintro ⟨hnot, rfl⟩
      exact ⟨(text.toList, rest), Text.splitFirst?_eq_some_iff.mpr ⟨hnot, rfl⟩, by simp, rfl⟩
  · next hquote =>
    simp only [reduceCtorEq, false_iff, not_and]
    rintro - rfl
    exact hquote _ rfl

theorem isWritable_of_durationOf {word : List Char} {d : Duration} (h : durationOf word = .ok d) :
    d.IsWritable := by
  unfold durationOf at h
  split at h
  · next hread =>
    cases h
    exact Duration.isWritable_of_read? hread
  · cases h

/-- An optional duration that is made of one that was read. -/
theorem isWritable_of_map_some {word : List Char} {timeout : Option Duration}
    (h : some <$> durationOf word = .ok timeout) : ∀ d ∈ timeout, d.IsWritable := by
  cases hword : durationOf word with
  | error e => rw [hword] at h; cases h
  | ok t =>
    rw [hword] at h
    obtain rfl := Except.ok.inj h
    intro d hd
    obtain rfl := Option.some.inj hd
    exact isWritable_of_durationOf hword

theorem isWritable_of_finalDuration? {timeout : Option Duration}
    (h : finalDuration? cs = some (.ok timeout)) : ∀ d ∈ timeout, d.IsWritable := by
  unfold finalDuration? at h
  split at h
  · cases h; simp
  · split at h
    · cases h
    · split at h
      · exact isWritable_of_map_some (Option.some.inj h)
      · cases h

theorem isWritable_of_finalPoll? {poll : Option Duration} (h : finalPoll? cs = some (.ok poll)) :
    ∀ d ∈ poll, d.IsWritable := by
  unfold finalPoll? at h
  split at h
  · cases h; simp
  · simp only [Option.bind_eq_bind, Option.bind_eq_some_iff] at h
    obtain ⟨_, -, word, -, h⟩ := h
    split at h
    · exact isWritable_of_map_some (Option.some.inj h)
    · cases h

theorem splitFunctionName?_eq_some {name : List Char}
    (h : splitFunctionName? cs = some (name, rest)) :
    isFunctionName name = true ∧ cs = name ++ rest := by
  cases cs with
  | nil => cases h
  | cons c cs =>
    simp only [splitFunctionName?] at h
    split at h
    · next hc =>
      cases h
      have hname : ∀ d ∈ cs.takeWhile fun d => Scope.isWordChar d || d == '-',
          isNameChar d = true := fun d hd => List.mem_takeWhile_imp hd
      simpa [isFunctionName, hc] using hname
    · cases h

theorem bindable_of_boundValue? {value : String} (h : boundValue? cs = some value) :
    Bindable value := by
  unfold boundValue? at h
  split at h
  · next text hquoted =>
    cases h
    exact fun hquote => absurd hquote (quotedText?_eq_some_iff.mp hquoted).1
  · next hquoted =>
    split at h
    · cases h
    · next hblank =>
      cases h
      intro _
      rw [String.toList_ofList]
      exact ⟨by simpa using hblank, fun text heq => hquoted text heq⟩

/-! ## Directives that are read -/

/-- What the reader gives can be written, and is no key. -/
def Sound (reader : List Char → Reading) : Prop :=
  ∀ ⦃cs : List Char⦄ ⦃d : Directive⦄, reader cs = some (.ok d) → d.Writable ∧ d.isKey = false

/-- A directive that is made of an optional duration. -/
theorem exists_of_map_eq_ok {α : Type} {f : α → Directive} {d : Directive}
    {x : Except DirectiveError α} (h : some (x.map f) = some (.ok d)) :
    ∃ a, x = .ok a ∧ d = f a := by
  cases x with
  | error e => cases h
  | ok a => exact ⟨a, rfl, (Except.ok.inj (Option.some.inj h)).symm⟩

theorem writable_of_readKey {d : Directive} (h : readKey cs = some (.ok d)) :
    d.Writable ∧ d = .action (.key (String.ofList cs)) := by
  simp only [readKey] at h
  split at h
  · cases h
  · next hreserved =>
    split at h
    · next hform =>
      cases h
      exact ⟨⟨by rwa [String.toList_ofList], by simpa using hreserved⟩, rfl⟩
    · cases h

theorem readWatch_sound : Sound readWatch := by
  intro cs d h
  simp only [readWatch, Option.bind_eq_bind, Option.bind_eq_some_iff] at h
  obtain ⟨_, -, ⟨text, _⟩, hquoted, timeout, hfinal, h⟩ := h
  obtain ⟨timeout, rfl, rfl⟩ := exists_of_map_eq_ok h
  exact ⟨⟨(quotedText?_eq_some_iff.mp hquoted).1, isWritable_of_finalDuration? hfinal⟩, rfl⟩

theorem readConsole_sound : Sound readConsole := by
  intro cs d h
  simp only [readConsole, Option.bind_eq_bind, Option.bind_eq_some_iff] at h
  obtain ⟨word, -, h⟩ := h
  split at h
  · split at h
    · split at h
      · next hrange => cases h; exact ⟨hrange, rfl⟩
      · cases h
    · cases h
  · cases h

theorem readWait_sound : Sound readWait := by
  intro cs d h
  simp only [readWait, Option.bind_eq_bind, Option.bind_eq_some_iff] at h
  obtain ⟨word, -, h⟩ := h
  split at h
  · obtain ⟨duration, hduration, rfl⟩ := exists_of_map_eq_ok h
    exact ⟨isWritable_of_durationOf hduration, rfl⟩
  · cases h

theorem readExit_sound : Sound readExit := by
  intro cs d h
  simp only [readExit] at h
  split at h
  · cases h
    exact ⟨⟨by decide, by decide⟩, rfl⟩
  · simp only [Option.bind_eq_bind, Option.bind_eq_some_iff] at h
    obtain ⟨word, -, h⟩ := h
    split at h
    · split at h
      · next hread => cases h; exact ⟨Text.isSigned_of_readInt hread, rfl⟩
      · cases h
    · cases h

/-- The time of a condition that gives none can be written, too. -/
theorem isWritable_getD {timeout : Option Duration} (h : ∀ d ∈ timeout, d.IsWritable) :
    (timeout.getD Condition.defaultTimeout).IsWritable := by
  cases timeout with
  | none => exact (by decide : (5 : Nat) ≤ Text.maxWord)
  | some d => exact h d rfl

theorem readConditionOf_sound (word : String) (presence : Presence) :
    Sound (readConditionOf word presence) := by
  intro cs d h
  simp only [readConditionOf, Option.bind_eq_bind, Option.bind_eq_some_iff] at h
  obtain ⟨_, -, ⟨text, _⟩, hquoted, timeout, hfinal, h⟩ := h
  obtain ⟨timeout, rfl, rfl⟩ := exists_of_map_eq_ok h
  exact ⟨⟨(quotedText?_eq_some_iff.mp hquoted).1,
    isWritable_getD (isWritable_of_finalDuration? hfinal)⟩, rfl⟩

theorem readCountedOf_sound (word : String) (loop : Nat → Loop)
    (hloop : ∀ n, 1 ≤ n → n ≤ Text.maxHalfWord → (Directive.loop (loop n)).Writable) :
    Sound (readCountedOf word loop) := by
  intro cs d h
  simp only [readCountedOf, Option.bind_eq_bind, Option.bind_eq_some_iff] at h
  obtain ⟨given, -, h⟩ := h
  split at h
  · split at h
    · next n hread =>
      split at h
      · next hpos => cases h; exact ⟨hloop n hpos (Text.le_of_readNat? hread), rfl⟩
      · cases h
    · cases h
  · cases h

theorem readWhileOf_sound (word : String) (presence : Presence) :
    Sound (readWhileOf word presence) := by
  intro cs d h
  simp only [readWhileOf, Option.bind_eq_bind, Option.bind_eq_some_iff] at h
  obtain ⟨_, -, ⟨text, _⟩, hquoted, _, -, h⟩ := h
  split at h
  · simp only [Option.bind_eq_some_iff] at h
    obtain ⟨poll, hpoll, h⟩ := h
    cases htimeout : durationOf (splitAtBlank _).1 with
    | error e => rw [htimeout] at h; cases h
    | ok timeout =>
      rw [htimeout] at h
      cases poll with
      | error e => cases h
      | ok poll =>
        cases h
        exact ⟨⟨(quotedText?_eq_some_iff.mp hquoted).1, isWritable_of_durationOf htimeout,
          isWritable_of_finalPoll? hpoll⟩, rfl⟩
  · cases h

/-- One of two readers gives what both give. -/
theorem Sound.orElse {r s : List Char → Reading} (hr : Sound r) (hs : Sound s) :
    Sound fun cs => r cs <|> s cs := by
  intro cs d h
  cases hfirst : r cs with
  | none =>
    have hreads : s cs = some (.ok d) := by simpa [hfirst] using h
    exact hs hreads
  | some reading =>
    have hreads : r cs = some (.ok d) := by simpa [hfirst] using h
    exact hr hreads

theorem readWord_sound : Sound readWord := by
  intro cs d h
  unfold readWord at h
  split at h
  all_goals first | (cases h; exact ⟨trivial, rfl⟩) | cases h

theorem isWritable_of_switchOptions {given options : SwitchOptions}
    {words : List (Bool × List Char)} (h : switchOptions given words = .ok options)
    (hgiven : (Directive.switch given).Writable) : (Directive.switch options).Writable := by
  induction words generalizing given with
  | nil => cases h; exact hgiven
  | cons word words ih =>
    obtain ⟨isTimeout, word⟩ := word
    rw [switchOptions] at h
    cases hword : durationOf word with
    | error e => rw [hword] at h; cases h
    | ok d =>
      rw [hword] at h
      have hd := isWritable_of_durationOf hword
      refine ih h ?_
      cases isTimeout with
      | true => exact ⟨by simpa using hd, hgiven.2⟩
      | false => exact ⟨hgiven.1, by simpa using hd⟩

theorem readSwitch_sound : Sound readSwitch := by
  intro cs d h
  simp only [readSwitch] at h
  split at h
  · cases h
  · split at h
    · simp only [Option.bind_eq_bind, Option.bind_eq_some_iff] at h
      obtain ⟨words, -, h⟩ := h
      cases hoptions : switchOptions ⟨none, none⟩ words with
      | error e => rw [hoptions] at h; cases h
      | ok options =>
        rw [hoptions] at h
        cases h
        exact ⟨isWritable_of_switchOptions hoptions ⟨by simp, by simp⟩, rfl⟩
    · cases h

theorem readCase_sound : Sound readCase := by
  intro cs d h
  simp only [readCase, Option.bind_eq_bind, Option.bind_eq_some_iff] at h
  obtain ⟨_, -, ⟨text, rest⟩, hquoted, h⟩ := h
  cases rest with
  | nil => cases h; exact ⟨(quotedText?_eq_some_iff.mp hquoted).1, rfl⟩
  | cons => cases h

theorem readInclude_sound : Sound readInclude := by
  intro cs d h
  simp only [readInclude, Option.bind_eq_bind, Option.bind_eq_some_iff] at h
  obtain ⟨_, -, ⟨path, rest⟩, hquoted, h⟩ := h
  cases rest with
  | nil =>
    simp only at h
    split at h
    · cases h
    · next hne =>
      cases h
      exact ⟨⟨(quotedText?_eq_some_iff.mp hquoted).1, by simpa using hne⟩, rfl⟩
  | cons => cases h

theorem readScreenshot_sound : Sound readScreenshot := by
  intro cs d h
  simp only [readScreenshot, Option.bind_eq_bind, Option.bind_eq_some_iff] at h
  obtain ⟨_, -, ⟨path, rest⟩, hquoted, h⟩ := h
  have hpath := (quotedText?_eq_some_iff.mp hquoted).1
  split at h
  · cases h
  · next hne =>
    have hne : path ≠ "" := by simpa using hne
    split at h
    · cases h; exact ⟨⟨hpath, hne⟩, rfl⟩
    · simp only [Option.bind_eq_some_iff] at h
      obtain ⟨word, -, h⟩ := h
      split at h
      · split at h
        · cases h; exact ⟨⟨hpath, hne⟩, rfl⟩
        · cases h
      · cases h

theorem readFunction_sound : Sound readFunction := by
  intro cs d h
  simp only [readFunction, Option.bind_eq_bind, Option.bind_eq_some_iff] at h
  obtain ⟨_, -, ⟨name, rest⟩, hname, h⟩ := h
  cases rest with
  | nil =>
    cases h
    refine ⟨?_, rfl⟩
    rw [Writable, String.toList_ofList]
    exact (splitFunctionName?_eq_some hname).1
  | cons => cases h

theorem readCall_sound : Sound readCall := by
  intro cs d h
  simp only [readCall, Option.bind_eq_bind, Option.bind_eq_some_iff] at h
  obtain ⟨_, -, ⟨name, rest⟩, hname, h⟩ := h
  have hname := (splitFunctionName?_eq_some hname).1
  split at h
  · cases h
    exact ⟨⟨by rwa [String.toList_ofList], by simp⟩, rfl⟩
  · simp only [Option.bind_eq_some_iff] at h
    obtain ⟨args, -, h⟩ := h
    split at h
    · cases h
    · next hline =>
      cases h
      refine ⟨⟨by rwa [String.toList_ofList], fun arg harg hmem => ?_⟩, rfl⟩
      have hchar := Arguments.mem_of_mem_split harg hmem
      rw [String.toList_ofList] at hchar
      exact hline (List.contains_iff_mem.mpr hchar)

theorem readBinding_sound : Sound readBinding := by
  intro cs d h
  simp only [readBinding, Option.bind_eq_bind, Option.bind_eq_some_iff] at h
  obtain ⟨_, -, ⟨name, rest⟩, hname, h⟩ := h
  split at h
  · simp only [Option.bind_eq_some_iff] at h
    obtain ⟨value, hvalue, h⟩ := h
    cases h
    refine ⟨⟨?_, bindable_of_boundValue? hvalue⟩, rfl⟩
    rw [String.toList_ofList]
    next heq =>
      obtain ⟨rfl, -⟩ := Prod.mk.inj heq
      exact (Scope.splitWord?_eq_some hname).1
  · cases h

/-- Every reader but the one of keys gives directives that can be written and are no keys. -/
theorem sound_of_mem {reader : List Char → Reading} (h : reader ∈ readers.tail) : Sound reader := by
  simp only [readers, List.tail_cons, List.mem_cons, List.not_mem_nil, or_false] at h
  rcases h with rfl | rfl | rfl | rfl | rfl | rfl | rfl | rfl | rfl | rfl | rfl | rfl | rfl | rfl |
    rfl
  · exact readWatch_sound
  · exact readConsole_sound
  · exact readWait_sound
  · exact readExit_sound
  · exact (readConditionOf_sound _ _).orElse (readConditionOf_sound _ _)
  · exact (readCountedOf_sound "retry" .retry fun _ hpos hle => ⟨hpos, hle⟩).orElse
      (readCountedOf_sound "repeat" .repeatTimes fun _ hpos hle => ⟨hpos, hle⟩)
  · exact (readWhileOf_sound _ _).orElse (readWhileOf_sound _ _)
  · exact readWord_sound
  · exact readSwitch_sound
  · exact readCase_sound
  · exact readInclude_sound
  · exact readScreenshot_sound
  · exact readFunction_sound
  · exact readCall_sound
  · exact readBinding_sound

/-- What is read comes from one of the readers. -/
theorem exists_reader_of_read {content : String} {d : Directive} (h : read content = .ok d) :
    ∃ reader ∈ readers, reader (Text.trimChars content.toList) = some (.ok d) := by
  simp only [read] at h
  split at h
  · next hfound =>
    obtain ⟨reader, hmem, hreads⟩ := List.exists_of_findSome?_eq_some hfound
    exact ⟨reader, hmem, h ▸ hreads⟩
  · cases h

/-- Every directive that is read can be written. -/
theorem writable_of_read {content : String} {d : Directive} (h : read content = .ok d) :
    d.Writable := by
  obtain ⟨reader, hmem, hreads⟩ := exists_reader_of_read h
  rcases List.mem_cons.mp hmem with rfl | hmem
  · exact (writable_of_readKey hreads).1
  · exact (sound_of_mem hmem hreads).1

end ConsoleScript.Directive
