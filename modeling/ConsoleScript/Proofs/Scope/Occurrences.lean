-- SUMMARY: Which references stand in a text, and that a pass leaves a text alone that has none of its own.
import ConsoleScript.Proofs.Scope.Recasting

/-!
# Occurrences

What a recogniser sees at the front of a text is written there (`guarded_eq_some`,
`plain_eq_some`, `braced_eq_some`). So a pass leaves a text alone in which no form of its own
stands, wherever dollars and braces may be. The pass for names in braces leaves alone a text
in which only unknown names stand, for it puts the same in their places.
-/

namespace ConsoleScript

namespace Text

variable {α : Type} {recognise : Recogniser α} {cs : List Char}

/-- Where nothing is recognised, every character is a segment of its own. -/
theorem segments_eq_map_char (h : ∀ rest, rest <:+ cs → recognise rest = none) :
    segments recognise cs = cs.map .char := by
  unfold segments
  induction cs with
  | nil => rfl
  | cons c cs ih =>
    have hrest : ∀ rest, rest <:+ cs → recognise rest = none := fun rest hrest =>
      h rest (hrest.trans (List.suffix_cons c cs))
    simp only [segmentsFrom, h (c :: cs) List.suffix_rfl, ih hrest, List.map_cons]

/-- Replacing every form by itself changes nothing. -/
theorem replaceForms_eq_self {value : α → List Char}
    (h : ∀ rest a size, rest <:+ cs → recognise rest = some (a, size) →
      value a ≠ [] ∧ value a <+: rest ∧ size = (value a).length) :
    replaceForms recognise value cs = cs := by
  -- after a form, what is left of it is skipped
  refine Eq.trans ?_ cs.drop_zero
  unfold replaceForms segments
  generalize 0 = skip
  induction cs generalizing skip with
  | nil => cases skip <;> rfl
  | cons c cs ih =>
    have ih := ih fun rest a size hrest => h rest a size (hrest.trans (List.suffix_cons c cs))
    cases skip with
    | succ skip => exact ih skip
    | zero =>
      rw [segmentsFrom]
      split
      · next a size hseen =>
        obtain ⟨hne, ⟨more, hmore⟩, rfl⟩ := h (c :: cs) a size List.suffix_rfl hseen
        cases hvalue : value a with
        | nil => exact absurd hvalue hne
        | cons d ds =>
          rw [hvalue, List.cons_append] at hmore
          obtain ⟨rfl, rfl⟩ := List.cons.inj hmore
          simp [ih, hvalue]
      · simp [ih]

end Text

namespace Scope

variable {now : Int} {scope : Scope} {cs : List Char}

/-! ## What is recognised is written there -/

/-- A word does not start with a digit. -/
def isWord : List Char → Bool
  | [] => false
  | c :: cs => isWordStart c && cs.all isWordChar

theorem splitName?_eq_some {name rest : List Char} (h : splitName? cs = some (name, rest)) :
    isName name = true ∧ cs = name ++ rest := by
  cases cs with
  | nil => cases h
  | cons c cs =>
    simp only [splitName?] at h
    split at h
    · next hc =>
      cases h
      simp [isName, hc]
    · split at h
      · next hc =>
        cases h
        simp [isName, hc]
      · cases h

theorem splitWord?_eq_some {word rest : List Char} (h : splitWord? cs = some (word, rest)) :
    isWord word = true ∧ cs = word ++ rest := by
  cases cs with
  | nil => cases h
  | cons c cs =>
    simp only [splitWord?] at h
    split at h
    · next hc =>
      cases h
      simp [isWord, hc]
    · cases h

/-- Up to the first closing brace and after it. -/
theorem eq_takeWhile_append {c : Char} {more : List Char}
    (h : cs.dropWhile (· != '\x7d') = c :: more) :
    cs = cs.takeWhile (· != '\x7d') ++ '\x7d' :: more := by
  have hhead := List.head?_dropWhile_not (· != '\x7d') cs
  rw [h] at hhead
  obtain rfl : c = '\x7d' := by simpa using hhead
  rw [← h, List.takeWhile_append_dropWhile]

theorem guarded_eq_some {g : Guard} {form : Guarded} {size : Nat}
    (h : guarded g.mark cs = some (form, size)) :
    isName form.name.toList = true ∧ '\x7d' ∉ form.text ∧
      (Piece.guarded g form.name form.text).chars <+: cs := by
  unfold guarded at h
  split at h
  · next cs =>
    split at h
    · next name mark rest hsplit =>
      obtain ⟨hname, rfl⟩ := splitName?_eq_some hsplit
      split at h
      · next hmark =>
        dsimp only at h
        split at h
        · cases h
        · next c more hrest =>
          cases h
          refine ⟨by rwa [String.toList_ofList], fun hmem => ?_, more, ?_⟩
          · simpa using List.mem_takeWhile_imp hmem
          · simpa [Piece.chars, hmark] using (eq_takeWhile_append hrest).symm
      · cases h
    · cases h
  · cases h

theorem plain_eq_some {name : String} {size : Nat} (h : plain cs = some (name, size)) :
    isName name.toList = true ∧
      ((Piece.braced name).chars <+: cs ∨ (Piece.bare name).chars <+: cs) := by
  unfold plain at h
  split at h
  · next cs =>
    split at h
    · next word rest hsplit =>
      obtain ⟨hname, rfl⟩ := splitName?_eq_some hsplit
      cases h
      refine ⟨by rwa [String.toList_ofList], .inl ⟨rest, ?_⟩⟩
      simp [Piece.chars]
    · cases h
  · next cs _ =>
    split at h
    · next word rest hsplit =>
      obtain ⟨hname, rfl⟩ := splitName?_eq_some hsplit
      cases h
      refine ⟨by rwa [String.toList_ofList], .inr ⟨rest, ?_⟩⟩
      simp [Piece.chars]
    · cases h
  · cases h

/-- The name in braces: `{NAME}`. -/
def inBraces (name : String) : List Char := '\x7b' :: (name.toList ++ ['\x7d'])

theorem braced_eq_some {name : String} {size : Nat} (h : braced cs = some (name, size)) :
    isWord name.toList = true ∧ inBraces name <+: cs ∧ size = (inBraces name).length := by
  unfold braced at h
  split at h
  · next cs =>
    split at h
    · next word rest hsplit =>
      obtain ⟨hword, rfl⟩ := splitWord?_eq_some hsplit
      cases h
      refine ⟨by rwa [String.toList_ofList], ⟨rest, ?_⟩, ?_⟩ <;> simp [inBraces]
    · cases h
  · cases h

/-! ## References that stand in a text -/

/-- A reference with a guard stands in the text. -/
def HasGuarded (g : Guard) (cs : List Char) : Prop :=
  ∃ (name : String) (text : List Char), isName name.toList = true ∧ '\x7d' ∉ text ∧
    (Piece.guarded g name text).chars <:+: cs

/-- A plain reference stands in the text. -/
def HasPlain (cs : List Char) : Prop :=
  ∃ name : String, isName name.toList = true ∧
    ((Piece.braced name).chars <:+: cs ∨ (Piece.bare name).chars <:+: cs)

/-- The clock knows the same names at all times. -/
theorem clockValue?_isSome_iff {name : String} :
    (clockValue? now name).isSome = true ↔
      name ∈ ["timestamp", "date", "time", "datetime", "unix"] := by
  simp only [clockValue?, List.mem_cons, List.not_mem_nil, or_false]
  repeat' split
  all_goals simp_all

/-- A name that the clock or the scope knows stands in braces in the text. -/
def HasKnown (now : Int) (scope : Scope) (cs : List Char) : Prop :=
  ∃ name : String, isWord name.toList = true ∧ inBraces name <:+: cs ∧
    ((clockValue? now name).isSome = true ∨ scope.isSet name = true)

theorem not_hasGuarded {g : Guard} {c : Char} (hc : c ∈ ['$', '\x7d', g.mark]) (h : c ∉ cs) :
    ¬HasGuarded g cs := by
  rintro ⟨name, text, -, -, hfound⟩
  refine h (hfound.subset ?_)
  simp only [List.mem_cons, List.not_mem_nil, or_false] at hc
  rcases hc with rfl | rfl | rfl <;> simp [Piece.chars]

theorem not_hasPlain (h : '$' ∉ cs) : ¬HasPlain cs := by
  rintro ⟨name, -, hfound | hfound⟩
  · exact h (hfound.subset List.mem_cons_self)
  · exact h (hfound.subset List.mem_cons_self)

theorem not_hasKnown {c : Char} (hc : c ∈ ['\x7b', '\x7d']) (h : c ∉ cs) :
    ¬HasKnown now scope cs := by
  rintro ⟨name, -, hfound, -⟩
  refine h (hfound.subset ?_)
  simp only [List.mem_cons, List.not_mem_nil, or_false] at hc
  rcases hc with rfl | rfl <;> simp [inBraces]

theorem hasKnown_of_time {now' : Int} (h : HasKnown now' scope cs) : HasKnown now scope cs := by
  obtain ⟨name, hword, hfound, hknown⟩ := h
  refine ⟨name, hword, hfound, ?_⟩
  rwa [clockValue?_isSome_iff] at hknown ⊢

theorem isBracedChar_of_mem_inBraces {name : String} (hword : isWord name.toList = true) :
    ∀ c ∈ inBraces name, isBracedChar c = true := by
  cases hname : name.toList with
  | nil => simp [hname, isWord] at hword
  | cons d ds =>
    obtain ⟨hd, hds⟩ : isWordStart d = true ∧ ∀ c ∈ ds, isWordChar c = true := by
      simpa [hname, isWord] using hword
    simp only [inBraces, hname, List.cons_append, List.forall_mem_cons, List.forall_mem_append]
    exact ⟨by decide, isBracedChar_of_isWordChar (isWordChar_of_isWordStart hd),
      fun c hc => isBracedChar_of_isWordChar (hds c hc), by decide, nofun⟩

/-- The names in braces are the same after a map of characters that leaves those alone. -/
theorem hasKnown_of_map {f : Char → Char} (hf : Keeps isBracedChar f)
    (h : HasKnown now scope (cs.map f)) : HasKnown now scope cs := by
  obtain ⟨name, hword, ⟨before, after, heq⟩, hknown⟩ := h
  refine ⟨name, hword, ?_, hknown⟩
  obtain ⟨start, tail, hcs, hstart, -⟩ := List.map_eq_append_iff.mp heq.symm
  obtain ⟨front, middle, rfl, -, hmiddle⟩ := List.map_eq_append_iff.mp hstart
  have hsame : middle.map f = middle := by
    refine (List.map_congr_left fun c hc => ?_).trans middle.map_id
    refine hf.inside c ?_
    rw [← hf.apply_eq c]
    refine isBracedChar_of_mem_inBraces hword (f c) ?_
    rw [← hmiddle]
    exact List.mem_map_of_mem hc
  exact ⟨front, tail, by rw [hcs, ← hmiddle, hsame]⟩

theorem guarded_eq_none_of_suffix {g : Guard} (h : ¬HasGuarded g cs) {rest : List Char}
    (hrest : rest <:+ cs) : guarded g.mark rest = none := by
  cases hseen : guarded g.mark rest with
  | none => rfl
  | some form =>
    obtain ⟨form, size⟩ := form
    obtain ⟨hname, hclose, hchars⟩ := guarded_eq_some hseen
    exact absurd ⟨_, _, hname, hclose, hchars.isInfix.trans hrest.isInfix⟩ h

theorem plain_eq_none_of_suffix (h : ¬HasPlain cs) {rest : List Char} (hrest : rest <:+ cs) :
    plain rest = none := by
  cases hseen : plain rest with
  | none => rfl
  | some form =>
    obtain ⟨name, size⟩ := form
    obtain ⟨hname, hchars⟩ := plain_eq_some hseen
    refine absurd ⟨_, hname, ?_⟩ h
    exact hchars.imp (·.isInfix.trans hrest.isInfix) (·.isInfix.trans hrest.isInfix)

/-! ## Passes that find nothing -/

theorem segments_of_not_hasGuarded {g : Guard} (h : ¬HasGuarded g cs) :
    Text.segments (guarded g.mark) cs = cs.map .char :=
  Text.segments_eq_map_char fun _ hrest => guarded_eq_none_of_suffix h hrest

theorem replaceForms_of_not_hasGuarded {g : Guard} (h : ¬HasGuarded g cs)
    (value : Guarded → List Char) : Text.replaceForms (guarded g.mark) value cs = cs := by
  rw [Text.replaceForms, segments_of_not_hasGuarded h]
  exact flatMap_chars value cs

theorem alternatePass_eq_self (h : ¬HasGuarded .alternate cs) : alternatePass scope cs = cs :=
  replaceForms_of_not_hasGuarded h _

theorem assignPass_eq_self (h : ¬HasGuarded .assign cs) : assignPass now scope cs = (cs, scope) := by
  have hsegments : Text.segments (guarded '=') cs = cs.map .char := segments_of_not_hasGuarded h
  rw [assignPass, hsegments, assignSegments_chars]

theorem defaultPass_eq_self (h : ¬HasGuarded .default cs) : defaultPass scope cs = cs :=
  replaceForms_of_not_hasGuarded h _

theorem plainPass_eq_self (h : ¬HasPlain cs) : plainPass scope cs = cs := by
  rw [plainPass, Text.replaceForms,
    Text.segments_eq_map_char fun _ hrest => plain_eq_none_of_suffix h hrest]
  exact flatMap_chars _ cs

theorem bracedValue_of_unknown {name : String}
    (h : ¬((clockValue? now name).isSome = true ∨ scope.isSet name = true)) :
    bracedValue now scope name = inBraces name := by
  obtain ⟨hclock, hset⟩ : clockValue? now name = none ∧ scope.get? name = none := by
    simpa [isSet] using h
  rw [bracedValue, hclock, hset]
  rfl

theorem bracedPass_eq_self (h : ¬HasKnown now scope cs) : bracedPass now scope cs = cs := by
  refine Text.replaceForms_eq_self fun rest name size hrest hseen => ?_
  obtain ⟨hword, hprefix, hsize⟩ := braced_eq_some hseen
  have hvalue : bracedValue now scope name = inBraces name :=
    bracedValue_of_unknown fun hknown =>
      h ⟨name, hword, hprefix.isInfix.trans hrest.isInfix, hknown⟩
  rw [hvalue]
  exact ⟨List.cons_ne_nil _ _, hprefix, hsize⟩

end Scope

end ConsoleScript
