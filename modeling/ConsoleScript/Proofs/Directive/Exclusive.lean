-- SUMMARY: No two readers of directives read the same text, so their order makes no difference.
import ConsoleScript.Proofs.Directive.Writable

/-!
# Readers exclude each other

Every form of a directive but the key begins with words of its own (`leads`), and no word
begins two forms. A key is a single word. Those of the other forms that are single words are
the reserved ones, which the reader of keys leaves out. So at most one reader reads a text, and
a text is read as a key exactly if it has the form of a key and no other reader reads it
(`readers_exclusive`).
-/

namespace ConsoleScript.Directive

open Text (isBlank firstWord)

variable {cs rest : List Char}

/-! ## First words -/

/-- The texts that a reader reads begin with one of the words, and those without a blank are
    reserved. -/
def LedBy (words : List String) (reader : List Char → Reading) : Prop :=
  ∀ ⦃cs : List Char⦄, (∀ c ∈ cs.head?, isBlank c = false) → (reader cs).isSome = true →
    String.ofList (firstWord cs) ∈ words ∧
      (cs.any isBlank = true ∨ String.ofList cs ∈ reserved)

theorem afterWord?_eq_some {word : String} (h : afterWord? word cs = some rest) :
    ∃ c more, cs = word.toList ++ c :: more ∧ isBlank c = true ∧ rest = Text.trimStart more := by
  unfold afterWord? at h
  split at h
  · next c more hdrop =>
    split at h
    · next hblank =>
      cases h
      exact ⟨c, more, Text.dropStart?_eq_some_iff.mp hdrop, hblank, rfl⟩
    · cases h
  · cases h

theorem firstWord_of_afterWord? {word : String} (hword : word.toList.all (!isBlank ·) = true)
    (h : (afterWord? word cs).isSome = true) :
    String.ofList (firstWord cs) = word ∧ cs.any isBlank = true := by
  obtain ⟨rest, hafter⟩ := Option.isSome_iff_exists.mp h
  obtain ⟨c, more, rfl, hblank, -⟩ := afterWord?_eq_some hafter
  have hfirst := Text.firstWord_append (c :: more) (by simpa using hword)
    (by simpa using hblank)
  exact ⟨by rw [hfirst.1, String.ofList_toList], by simp [hblank]⟩

/-- A reader that starts with a word. -/
theorem LedBy.of_afterWord? {word : String} {read : List Char → Reading}
    (hword : word.toList.all (!isBlank ·) = true) :
    LedBy [word] fun cs => (afterWord? word cs).bind read := by
  intro cs _ hreads
  obtain ⟨hfirst, hblank⟩ := firstWord_of_afterWord? hword (Option.isSome_of_isSome_bind hreads)
  exact ⟨List.mem_singleton.mpr hfirst, .inl hblank⟩

theorem LedBy.orElse {words more : List String} {r s : List Char → Reading} (hr : LedBy words r)
    (hs : LedBy more s) : LedBy (words ++ more) fun cs => r cs <|> s cs := by
  intro cs hhead hreads
  cases hfirst : r cs with
  | none =>
    have hreads : (s cs).isSome = true := by simpa [hfirst] using hreads
    exact (hs hhead hreads).imp_left (List.mem_append_right words)
  | some reading =>
    exact (hr hhead (by simp [hfirst])).imp_left (List.mem_append_left more)

/-- A single word is its own first word. -/
theorem firstWord_eq_self (h : cs.any isBlank = false) : firstWord cs = cs := by
  have hnone : ∀ c ∈ cs, isBlank c = false := by simpa using h
  simpa using (Text.firstWord_append [] hnone (by simp)).1

theorem readExit_ledBy : LedBy ["exit"] readExit := by
  intro cs hhead hreads
  simp only [readExit] at hreads
  split at hreads
  · next hword =>
    have hchars : cs = "exit".toList := by rw [← hword, String.toList_ofList]
    subst hchars
    exact ⟨by decide, .inr (by decide)⟩
  · exact LedBy.of_afterWord? (by decide) hhead hreads

/-- Words that are directives by themselves. -/
def singleWords : List String :=
  ["else", "end-if", "return", "default", "end-case", "end-switch", "end-function", "break"]

theorem singleWords_reserved : ∀ word ∈ singleWords,
    word ∈ reserved ∧ word.toList.any isBlank = false := by
  decide

theorem mem_singleWords_of_readWord (h : (readWord cs).isSome = true) :
    String.ofList cs ∈ singleWords := by
  unfold readWord at h
  split at h
  all_goals first | (next hword => simp [hword, singleWords]) | cases h

theorem readWord_ledBy : LedBy singleWords readWord := by
  intro cs _ hreads
  have hword := mem_singleWords_of_readWord hreads
  obtain ⟨hreserved, hblank⟩ := singleWords_reserved _ hword
  rw [String.toList_ofList] at hblank
  exact ⟨by rwa [firstWord_eq_self hblank], .inr hreserved⟩

theorem readSwitch_ledBy : LedBy ["switch"] readSwitch := by
  intro cs hhead hreads
  cases cs with
  | nil => cases hreads
  | cons c cs =>
    have hc : isBlank c = false := hhead c rfl
    simp only [readSwitch, Text.wordChars_eq_cons hc] at hreads
    split at hreads
    · next hword =>
      refine ⟨by simp [hword], ?_⟩
      cases hblank : (c :: cs).any isBlank with
      | true => exact .inl rfl
      | false =>
        rw [firstWord_eq_self hblank] at hword
        exact .inr (by rw [hword]; decide)
    · cases hreads

/-! ## All readers -/

/-- The readers of all forms but the key, with the words that the forms begin with. -/
def leads : List (List String × (List Char → Reading)) :=
  [(["watch"], readWatch), (["console"], readConsole), (["wait"], readWait),
    (["exit"], readExit), (["if-found", "if-not-found"], readCondition),
    (["retry", "repeat"], readCounted), (["while-found", "while-not-found"], readWhile),
    (singleWords, readWord), (["switch"], readSwitch), (["case"], readCase),
    (["include"], readInclude), (["screenshot"], readScreenshot), (["function"], readFunction),
    (["call"], readCall), (["set"], readBinding)]

theorem readers_eq : readers = readKey :: leads.map Prod.snd := rfl

/-- No word begins two forms. -/
theorem leads_disjoint : (leads.map Prod.fst).Pairwise fun words more => ∀ w ∈ words, w ∉ more := by
  decide +kernel

theorem leads_ledBy : ∀ lead ∈ leads, LedBy lead.1 lead.2 := by
  simp only [leads, List.forall_mem_cons]
  refine ⟨?_, ?_, ?_, readExit_ledBy, ?condition, ?counted, ?polling, readWord_ledBy,
    readSwitch_ledBy, ?_, ?_, ?_, ?_, ?_, ?_, List.forall_mem_nil _⟩
  case condition =>
    exact (LedBy.of_afterWord? (by decide)).orElse (LedBy.of_afterWord? (by decide))
  case counted =>
    exact (LedBy.of_afterWord? (by decide)).orElse (LedBy.of_afterWord? (by decide))
  case polling =>
    exact (LedBy.of_afterWord? (by decide)).orElse (LedBy.of_afterWord? (by decide))
  all_goals exact LedBy.of_afterWord? (by decide)

theorem not_isBlank_of_isKeyForm {afterLetter : Bool} (h : isKeyForm afterLetter cs = true) :
    cs.any isBlank = false := by
  induction cs generalizing afterLetter with
  | nil => rfl
  | cons c cs ih =>
    rw [isKeyForm] at h
    rw [List.any_cons, Bool.or_eq_false_iff]
    split at h
    · next hc => exact ⟨Text.not_isBlank_of_isAlphanum hc, ih h⟩
    · simp only [Bool.and_eq_true, Bool.or_eq_true, beq_iff_eq] at h
      obtain ⟨⟨-, rfl | rfl⟩, hrest⟩ := h
      · exact ⟨rfl, ih hrest⟩
      · exact ⟨rfl, ih hrest⟩

/-- What the reader of keys reads is no form of another reader. -/
theorem eq_none_of_readKey {lead : List String × (List Char → Reading)} (hlead : lead ∈ leads)
    (hhead : ∀ c ∈ cs.head?, isBlank c = false) (hkey : (readKey cs).isSome = true) :
    lead.2 cs = none := by
  simp only [readKey] at hkey
  split at hkey
  · cases hkey
  · next hreserved =>
    split at hkey
    · next hform =>
      rw [← Option.not_isSome_iff_eq_none]
      intro hreads
      rcases (leads_ledBy lead hlead hhead hreads).2 with hblank | hmem
      · rw [not_isBlank_of_isKeyForm hform] at hblank
        cases hblank
      · exact hreserved (by simpa using hmem)
    · cases hkey

/-- Of two readers at most one reads a trimmed text. -/
theorem readers_pairwise (hhead : ∀ c ∈ cs.head?, isBlank c = false) :
    readers.Pairwise fun r s => r cs = none ∨ s cs = none := by
  rw [readers_eq, List.pairwise_cons]
  constructor
  · intro reader hmem
    obtain ⟨lead, hlead, rfl⟩ := List.mem_map.mp hmem
    cases hkey : readKey cs with
    | none => exact .inl rfl
    | some reading => exact .inr (eq_none_of_readKey hlead hhead (by simp [hkey]))
  · rw [List.pairwise_map]
    refine (List.pairwise_map.mp leads_disjoint).imp_of_mem fun {a b} ha hb hdisjoint => ?_
    cases hfirst : a.2 cs with
    | none => exact .inl rfl
    | some reading =>
      refine .inr (Option.not_isSome_iff_eq_none.mp fun hsecond => ?_)
      have hword := (leads_ledBy a ha hhead (by simp [hfirst])).1
      exact hdisjoint _ hword (leads_ledBy b hb hhead hsecond).1

/-! ## Order -/

/-- Reads the content of a directive with the given readers, one after the other. -/
def readIn (order : List (List Char → Reading)) (content : String) :
    Except DirectiveError Directive :=
  match order.findSome? fun reader => reader (Text.trimChars content.toList) with
  | some result => result
  | none => .error .unknown

theorem read_eq_readIn (content : String) : read content = readIn readers content := rfl

/-- Where functions exclude each other, at most one of them has a result. -/
theorem length_filterMap_le_one {α β : Type} {f : α → Option β} {xs : List α}
    (h : xs.Pairwise fun x y => f x = none ∨ f y = none) : (xs.filterMap f).length ≤ 1 := by
  have hnone : (xs.filterMap f).Pairwise fun _ _ => False := by
    refine h.filterMap f fun x y hor a ha b hb => ?_
    rcases hor with hx | hy
    · simp [hx] at ha
    · simp [hy] at hb
  match hlist : xs.filterMap f with
  | [] => simp
  | [_] => simp
  | a :: b :: rest =>
    rw [hlist] at hnone
    exact absurd (List.rel_of_pairwise_cons hnone List.mem_cons_self) id

/-- The first result is the same in every order if there is at most one. -/
theorem findSome?_eq_of_perm {α β : Type} {f : α → Option β} {xs ys : List α} (hperm : ys.Perm xs)
    (h : (xs.filterMap f).length ≤ 1) : ys.findSome? f = xs.findSome? f := by
  have hresults : (ys.filterMap f).Perm (xs.filterMap f) := hperm.filterMap f
  rw [← List.head?_filterMap, ← List.head?_filterMap]
  match hlist : xs.filterMap f with
  | [] => rw [hlist] at hresults; rw [hresults.eq_nil]
  | [a] => rw [hlist] at hresults; rw [hresults.eq_singleton]
  | a :: b :: rest => rw [hlist] at h; simp at h

/-- What one reader reads of a trimmed text is what is read. -/
theorem read_eq_of_mem {content : String} {reader : List Char → Reading} (hmem : reader ∈ readers)
    {result : Except DirectiveError Directive}
    (hreads : reader (Text.trimChars content.toList) = some result) : read content = result := by
  have hone := length_filterMap_le_one (readers_pairwise (Text.head?_trimChars content.toList))
  obtain ⟨before, after, hsplit⟩ := List.mem_iff_append.mp hmem
  have hperm : (reader :: (before ++ after)).Perm readers := by
    rw [hsplit]
    exact List.perm_middle.symm
  have hfirst := findSome?_eq_of_perm hperm hone
  rw [List.findSome?_cons, hreads] at hfirst
  rw [read, ← hfirst]

/-! ## Keys -/

/-- Every reserved word is read by another reader than that of keys. -/
theorem reserved_read : ∀ word ∈ reserved,
    ∃ reader ∈ readers.tail, (reader word.toList).isSome = true := by
  decide +kernel

theorem readKey_of_read {content name : String}
    (h : read content = .ok (.action (.key name))) :
    readKey (Text.trimChars content.toList) = some (.ok (.action (.key name))) := by
  obtain ⟨reader, hmem, hreads⟩ := exists_reader_of_read h
  rcases List.mem_cons.mp hmem with rfl | hmem
  · exact hreads
  · cases (sound_of_mem hmem hreads).2

theorem readKey_eq_some_iff {name : String} :
    readKey cs = some (.ok (.action (.key name))) ↔
      name = String.ofList cs ∧ isKeyForm false cs = true ∧ name ∉ reserved := by
  simp only [readKey]
  split
  · next hreserved =>
    simp only [reduceCtorEq, false_iff, not_and]
    rintro rfl -
    simpa using hreserved
  · next hreserved =>
    have hreserved : String.ofList cs ∉ reserved := by simpa using hreserved
    split
    · next hform =>
      simp only [Option.some.injEq, Except.ok.injEq, action.injEq, Action.key.injEq, hform,
        true_and]
      constructor
      · rintro rfl
        exact ⟨rfl, hreserved⟩
      · exact fun h => h.1.symm
    · next hform => simp [hform]

/-- At most one reader reads the trimmed content of a directive. So the readers give the same
    in every order. A text is read as a key exactly if it has the form of a key and no other
    reader reads it, and no reserved word is. -/
theorem readers_exclusive (content : String) :
    let cs := Text.trimChars content.toList
    (readers.filterMap fun reader => reader cs).length ≤ 1 ∧
      (∀ order : List (List Char → Reading), order.Perm readers →
        readIn order content = read content) ∧
      (∀ name, read content = .ok (.action (.key name)) ↔
        name = Text.trim content ∧ isKeyForm false cs = true ∧
          ∀ reader ∈ readers.tail, reader cs = none) ∧
      (Text.trim content ∈ reserved → ∀ name, read content ≠ .ok (.action (.key name))) := by
  intro cs
  have hhead : ∀ c ∈ cs.head?, isBlank c = false := Text.head?_trimChars content.toList
  have hone := length_filterMap_le_one (readers_pairwise hhead)
  refine ⟨hone, ?order, ?key, ?reserved⟩
  case order =>
    intro order hperm
    rw [read_eq_readIn, readIn, readIn, findSome?_eq_of_perm hperm hone]
  case key =>
    intro name
    constructor
    · intro hread
      have hkey := readKey_of_read hread
      obtain ⟨hname, hform, -⟩ := readKey_eq_some_iff.mp hkey
      refine ⟨hname, hform, fun reader hmem => ?_⟩
      rw [readers_eq, List.tail_cons] at hmem
      obtain ⟨lead, hlead, rfl⟩ := List.mem_map.mp hmem
      exact eq_none_of_readKey hlead hhead (by simp [cs, hkey])
    · rintro ⟨rfl, hform, hothers⟩
      have hreserved : Text.trim content ∉ reserved := by
        intro hmem
        obtain ⟨reader, hreader, hreads⟩ := reserved_read _ hmem
        rw [Text.trim, String.toList_ofList, hothers reader hreader] at hreads
        cases hreads
      exact read_eq_of_mem List.mem_cons_self
        (readKey_eq_some_iff.mpr ⟨rfl, hform, hreserved⟩)
  case reserved =>
    intro hreserved name hread
    obtain ⟨rfl, -, hnot⟩ := readKey_eq_some_iff.mp (readKey_of_read hread)
    exact hnot hreserved

/-- A reserved word between blanks, and the readers in the opposite order. -/
theorem readers_exclusive_exit :
    readers.reverse.Perm readers ∧ readIn readers.reverse " exit " = read " exit " ∧
      read " exit " = .ok (.action (.exit 0)) ∧
      Text.trim " exit " ∈ reserved ∧ ∀ name, read " exit " ≠ .ok (.action (.key name)) := by
  have hperm : readers.reverse.Perm readers := List.reverse_perm readers
  obtain ⟨-, horder, -, hreserved⟩ := readers_exclusive " exit "
  have hmem : Text.trim " exit " ∈ reserved := by decide +kernel
  exact ⟨hperm, horder readers.reverse hperm, by decide +kernel, hmem, hreserved hmem⟩

end ConsoleScript.Directive
