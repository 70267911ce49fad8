-- SUMMARY: Texts made of literals and references, and what a pass of an expansion makes of them.
import ConsoleScript.Proofs.Scope.Passes
import ConsoleScript.Proofs.Text.Words

/-!
# Pieces

A text of literals, escaped dollars and references is given as a list of pieces.
A pass of an expansion sees the pieces of such a text one by one, whatever comes
before and after them, and takes it to a text of pieces in which those of its
own form have become literals: `replaceForms_render`.
-/

namespace ConsoleScript.Scope

open Text (Recogniser Segment span_append)

/-! ## Pieces -/

/-- A name is a word that does not start with a digit, or a run of digits. -/
def isName : List Char → Bool
  | [] => false
  | c :: cs => isWordStart c && cs.all isWordChar || c.isDigit && cs.all Char.isDigit

/-- The kinds of references with a guard. -/
inductive Guard where
  /-- The text counts if the name has a value. -/
  | alternate
  /-- The text counts if the name has no value, and becomes its value. -/
  | assign
  /-- The text counts if the name has no value. -/
  | default
  deriving DecidableEq, Repr

def Guard.mark : Guard → Char
  | .alternate => '+'
  | .assign => '='
  | .default => '-'

/-- The text holds no character of a form or an escape. -/
def Unmarked (cs : List Char) : Prop := '$' ∉ cs ∧ '\x7b' ∉ cs ∧ '\x7d' ∉ cs ∧ '\\' ∉ cs

/-- A piece of a text. -/
inductive Piece where
  | literal (cs : List Char)
  | escape
  | braced (name : String)
  | bare (name : String)
  | guarded (guard : Guard) (name : String) (text : List Char)
  deriving DecidableEq, Repr

namespace Piece

/-- The piece as it is written. -/
def chars : Piece → List Char
  | literal cs => cs
  | escape => ['\\', '$']
  | braced name => '$' :: '\x7b' :: (name.toList ++ ['\x7d'])
  | bare name => '$' :: name.toList
  | guarded g name text =>
    '$' :: '\x7b' :: (name.toList ++ ':' :: g.mark :: (text ++ ['\x7d']))

/-- Literals hold no character of a form, and references are to names. -/
def WellFormed : Piece → Prop
  | literal cs => IsLiteral cs ∧ '\\' ∉ cs
  | escape => True
  | braced name | bare name => isName name.toList = true
  | guarded _ name text => isName name.toList = true ∧ IsLiteral text ∧ '\\' ∉ text

/-- Literals and the texts of guarded references are unmarked, and references are to names. -/
def Regular : Piece → Prop
  | literal cs => Unmarked cs
  | escape => True
  | braced name | bare name => isName name.toList = true
  | guarded _ name text => isName name.toList = true ∧ Unmarked text

/-- The name of a reference without braces ends before these pieces: there are
    none, or a literal that does not go on with the name. -/
def EndsName : List Piece → Prop
  | [] => True
  | literal (c :: _) :: _ => isWordChar c = false
  | _ => False

/-- Every reference without braces is separated from what follows it. -/
def Separated : List Piece → Prop
  | [] => True
  | bare _ :: rest => EndsName rest ∧ Separated rest
  | _ :: rest => Separated rest

theorem separated_cons {p : Piece} {ps : List Piece} :
    Separated (p :: ps) ↔ (∀ name, p = bare name → EndsName ps) ∧ Separated ps := by
  cases p <;> simp [Separated]

end Piece

/-- The text of a list of pieces. -/
def render (ps : List Piece) : List Char := ps.flatMap Piece.chars

/-! ## Names -/

theorem isWordChar_of_isWordStart {c : Char} (h : isWordStart c = true) : isWordChar c = true := by
  simp only [isWordStart, isWordChar, Char.isAlphanum, Bool.or_eq_true] at h ⊢
  rcases h with h | h
  · exact .inl (.inl h)
  · exact .inr h

theorem isWordChar_of_isDigit {c : Char} (h : c.isDigit = true) : isWordChar c = true := by
  simp [isWordChar, Char.isAlphanum, h]

theorem isWordChar_of_mem_isName {name : List Char} {c : Char} (h : isName name = true)
    (hc : c ∈ name) : isWordChar c = true := by
  cases name with
  | nil => cases hc
  | cons d ds =>
    simp only [isName, Bool.or_eq_true, Bool.and_eq_true, List.all_eq_true] at h
    rcases h with ⟨hd, hds⟩ | ⟨hd, hds⟩
    · rcases List.mem_cons.mp hc with rfl | hc
      · exact isWordChar_of_isWordStart hd
      · exact hds c hc
    · rcases List.mem_cons.mp hc with rfl | hc
      · exact isWordChar_of_isDigit hd
      · exact isWordChar_of_isDigit (hds c hc)

theorem not_mem_of_isName {name : List Char} {c : Char} (h : isName name = true)
    (hc : isWordChar c = false) : c ∉ name := fun hmem => by
  rw [isWordChar_of_mem_isName h hmem] at hc
  cases hc

/-- A name does not start with an opening brace. -/
theorem append_ne_of_isName {name rest cs : List Char} (h : isName name = true) :
    name ++ rest ≠ '\x7b' :: cs := fun heq => by
  cases name with
  | nil => cases h
  | cons c name =>
    obtain ⟨rfl, -⟩ := List.cons.inj heq
    exact absurd List.mem_cons_self (not_mem_of_isName h (by decide))

/-- The characters that go on with a name: those of a word, or digits after a run of
    digits. -/
def goesOn : (name : List Char) → Char → Bool
  | [], _ => false
  | d :: _, c => if isWordStart d then isWordChar c else c.isDigit

theorem goesOn_eq_false {name : List Char} {c : Char} (h : isWordChar c = false) :
    goesOn name c = false := by
  cases name with
  | nil => rfl
  | cons d ds =>
    rw [goesOn]
    split
    · exact h
    · cases hdigit : c.isDigit with
      | false => rfl
      | true => rw [← h, isWordChar_of_isDigit hdigit]

/-- A name is read as far as what follows it goes on with it. -/
theorem splitName?_name_append {name : List Char} (h : isName name = true) (rest : List Char) :
    splitName? (name ++ rest) =
      some (name ++ rest.takeWhile (goesOn name), rest.dropWhile (goesOn name)) := by
  cases name with
  | nil => cases h
  | cons c cs =>
    simp only [isName, Bool.or_eq_true, Bool.and_eq_true, List.all_eq_true] at h
    rcases h with ⟨hc, hcs⟩ | ⟨hc, hcs⟩
    · have hgoes : goesOn (c :: cs) = isWordChar := funext fun d => if_pos hc
      simp [splitName?, hc, hgoes, List.takeWhile_append_of_pos hcs,
        List.dropWhile_append_of_pos hcs]
    · have hstart := isWordStart_of_isDigit hc
      have hgoes : goesOn (c :: cs) = Char.isDigit := funext fun d => by simp [goesOn, hstart]
      simp [splitName?, hstart, hc, hgoes, List.takeWhile_append_of_pos hcs,
        List.dropWhile_append_of_pos hcs]

/-- A name that ends before `rest` is read as a whole. -/
theorem splitName?_append {name rest : List Char} (h : isName name = true)
    (hrest : ∀ c ∈ rest.head?, isWordChar c = false) :
    splitName? (name ++ rest) = some (name, rest) := by
  have hgoes : ∀ c ∈ rest.head?, goesOn name c = false := fun c hc => goesOn_eq_false (hrest c hc)
  obtain ⟨htake, hdrop⟩ : rest.takeWhile (goesOn name) = [] ∧ rest.dropWhile (goesOn name) = rest :=
    span_append (List.forall_mem_nil _) hgoes
  rw [splitName?_name_append h, htake, hdrop, List.append_nil]

/-! ## What a pass sees of a piece -/

namespace Piece

/-- The form that the pass with a mark sees. -/
def guardedForm? (mark : Char) : Piece → Option Guarded
  | guarded g name text => if g.mark = mark then some ⟨name, text⟩ else none
  | _ => none

/-- The form that the pass for plain references sees. -/
def plainForm? : Piece → Option String
  | braced name | bare name => some name
  | _ => none

/-- The segments of a piece whose form is seen as `form?` says. -/
def segments {α : Type} (form? : Piece → Option α) (p : Piece) : List (Segment α) :=
  match form? p with
  | some a => [.form a]
  | none => p.chars.map .char

/-- A piece between the passes: what a pass puts in has no mark of a form. -/
def Clear : Piece → Prop
  | literal cs => '$' ∉ cs ∧ '\x7b' ∉ cs
  | escape => False
  | braced name | bare name => isName name.toList = true
  | guarded _ name text => isName name.toList = true ∧ IsLiteral text

/-- The only dollar of the piece is the one that it starts with as a reference. -/
def Lone : Piece → Prop
  | literal cs => '$' ∉ cs
  | escape => False
  | braced name | bare name => isName name.toList = true
  | guarded _ name text => isName name.toList = true ∧ '$' ∉ text ∧ '\x7d' ∉ text

/-- The piece is a reference to a name, and the first closing brace in it is its end. -/
def Readable : Piece → Prop
  | literal _ | escape => False
  | braced name | bare name => isName name.toList = true
  | guarded _ name text => isName name.toList = true ∧ '\x7d' ∉ text

variable {p : Piece} {rest : List Char}

theorem Clear.lone (hp : p.Clear) : p.Lone := by
  cases p with
  | literal cs => exact hp.1
  | escape => exact hp
  | braced name => exact hp
  | bare name => exact hp
  | guarded g name text => exact ⟨hp.1, hp.2.1, hp.2.2.2.1⟩

theorem Lone.readable (hp : p.Lone) (hlit : ∀ cs, p ≠ literal cs) : p.Readable := by
  cases p with
  | literal cs => exact absurd rfl (hlit cs)
  | escape => exact hp
  | braced name => exact hp
  | bare name => exact hp
  | guarded g name text => exact ⟨hp.1, hp.2.2⟩

/-- A piece that is no literal has one dollar, at its front. -/
theorem Lone.exists_chars (hp : p.Lone) (hlit : ∀ cs, p ≠ literal cs) :
    ∃ cs, p.chars = '$' :: cs ∧ '$' ∉ cs := by
  refine ⟨p.chars.tail, ?_⟩
  have hname : ∀ {name : List Char}, isName name = true → '$' ∉ name := fun h =>
    not_mem_of_isName h (by decide)
  cases p with
  | literal cs => exact absurd rfl (hlit cs)
  | escape => cases hp
  | braced name => simpa [chars] using hname hp
  | bare name => simpa [chars] using hname hp
  | guarded g name text => cases g <;> simp [chars, Guard.mark, hname hp.1, hp.2.1]

/-- The name of a braced form is followed by the mark that ends it. -/
theorem splitName?_braced {name : String} {c : Char} (hname : isName name.toList = true)
    (hc : isWordChar c = false) (cs : List Char) :
    splitName? (name.toList ++ c :: cs) = some (name.toList, c :: cs) :=
  splitName?_append hname (by simpa using hc)

theorem guarded_chars (mark : Char) (hp : p.Readable) :
    Scope.guarded mark (p.chars ++ rest) = (p.guardedForm? mark).map (·, p.chars.length) := by
  cases p with
  | literal cs => cases hp
  | escape => cases hp
  | braced name =>
    have hsplit := splitName?_braced (c := '\x7d') hp (by decide) rest
    simp only [chars, List.cons_append, List.append_assoc, List.nil_append, Scope.guarded, hsplit]
    rfl
  | bare name =>
    unfold Scope.guarded
    split
    · next heq => exact absurd (List.cons.inj heq).2 (append_ne_of_isName hp)
    · rfl
  | guarded g name text =>
    obtain ⟨hname, hclose⟩ := hp
    have hsplit := splitName?_braced (c := ':') hname (by decide)
      (g.mark :: (text ++ '\x7d' :: rest))
    have hends : ∀ c ∈ text, (c != '\x7d') = true := fun c hc => by
      simpa using ne_of_mem_of_not_mem hc hclose
    have hspan : (text ++ '\x7d' :: rest).takeWhile (· != '\x7d') = text ∧
        (text ++ '\x7d' :: rest).dropWhile (· != '\x7d') = '\x7d' :: rest :=
      span_append hends (by simp)
    simp only [chars, List.cons_append, List.append_assoc, List.nil_append, Scope.guarded, hsplit,
      hspan, guardedForm?]
    split
    · simp
      omega
    · rfl

theorem plain_chars (hp : p.Readable)
    (hbare : ∀ name, p = bare name → ∀ c ∈ rest.head?, isWordChar c = false) :
    Scope.plain (p.chars ++ rest) = p.plainForm?.map (·, p.chars.length) := by
  cases p with
  | literal cs => cases hp
  | escape => cases hp
  | braced name =>
    have hsplit := splitName?_braced (c := '\x7d') hp (by decide) rest
    simp only [chars, List.cons_append, List.append_assoc, List.nil_append, Scope.plain, hsplit]
    simp [plainForm?]
  | bare name =>
    have hsplit := splitName?_append hp (hbare name rfl)
    unfold Scope.plain
    split
    · next heq => exact absurd (List.cons.inj heq).2 (append_ne_of_isName hp)
    · next cs hcs heq =>
      obtain rfl : name.toList ++ rest = cs := (List.cons.inj heq).2
      simp [hsplit, plainForm?, chars]
    · next hne => exact absurd rfl (hne _)
  | guarded g name text =>
    have hsplit := splitName?_braced (c := ':') hp.1 (by decide)
      (g.mark :: (text ++ '\x7d' :: rest))
    simp only [chars, List.cons_append, List.append_assoc, List.nil_append, Scope.plain, hsplit]
    rfl

end Piece

/-! ## Passes over pieces -/

/-- The characters before the first mark of a form are segments of their own. -/
theorem segmentsFrom_append_of_not_mem {α : Type} {mark : Char} {recognise : Recogniser α}
    {cs : List Char} (rest : List Char) (hr : StartsWith mark recognise) (hcs : mark ∉ cs) :
    Text.segmentsFrom recognise 0 (cs ++ rest) =
      cs.map .char ++ Text.segmentsFrom recognise 0 rest := by
  induction cs with
  | nil => rfl
  | cons c cs ih =>
    have hne := List.ne_of_not_mem_cons hcs
    simp only [List.cons_append, Text.segmentsFrom, hr c _ hne.symm, List.map_cons,
      ih (List.not_mem_of_not_mem_cons hcs)]

/-- A pass sees the pieces of a text one by one if it sees each reference so. -/
theorem segmentsFrom_chars_append {α : Type} {recognise : Recogniser α} {form? : Piece → Option α}
    {p : Piece} (rest : List Char) (hr : StartsWith '$' recognise) (hp : p.Lone)
    (hliteral : ∀ cs, form? (.literal cs) = none)
    (hseen : p.Readable → recognise (p.chars ++ rest) = (form? p).map (·, p.chars.length)) :
    Text.segmentsFrom recognise 0 (p.chars ++ rest) =
      p.segments form? ++ Text.segmentsFrom recognise 0 rest := by
  by_cases hlit : ∃ cs, p = .literal cs
  · obtain ⟨cs, rfl⟩ := hlit
    simp only [Piece.segments, hliteral]
    exact segmentsFrom_append_of_not_mem rest hr hp
  · have hlit := not_exists.mp hlit
    obtain ⟨cs, hchars, hcs⟩ := hp.exists_chars hlit
    have hseen := hseen (hp.readable hlit)
    rw [hchars, List.cons_append] at hseen
    rw [Piece.segments, hchars, List.cons_append, Text.segmentsFrom, hseen]
    cases form? p with
    | some a =>
      have hlength := Text.segmentsFrom_append recognise cs rest
      simpa using hlength
    | none => simpa using segmentsFrom_append_of_not_mem rest hr hcs

theorem segments_guarded_render (mark : Char) {ps : List Piece} (hps : ∀ p ∈ ps, p.Lone) :
    Text.segments (guarded mark) (render ps) =
      ps.flatMap (Piece.segments (Piece.guardedForm? mark)) := by
  induction ps with
  | nil => rfl
  | cons p ps ih =>
    obtain ⟨hp, hps⟩ := List.forall_mem_cons.mp hps
    have hstep := segmentsFrom_chars_append (render ps) (guarded_startsWith mark) hp
      (fun cs => rfl) (Piece.guarded_chars mark)
    rw [List.flatMap_cons, ← ih hps]
    exact hstep

/-- A name ends where a text begins that is separated from it. -/
theorem head?_render {ps : List Piece} (h : Piece.EndsName ps) :
    ∀ c ∈ (render ps).head?, isWordChar c = false := by
  unfold Piece.EndsName at h
  split at h
  · simp [render]
  · simpa [render, Piece.chars] using h
  · cases h

theorem segments_plain_render {ps : List Piece} (hps : ∀ p ∈ ps, p.Lone)
    (hsep : Piece.Separated ps) :
    Text.segments plain (render ps) = ps.flatMap (Piece.segments Piece.plainForm?) := by
  induction ps with
  | nil => rfl
  | cons p ps ih =>
    obtain ⟨hp, hps⟩ := List.forall_mem_cons.mp hps
    obtain ⟨hend, hsep⟩ := Piece.separated_cons.mp hsep
    have hstep := segmentsFrom_chars_append (render ps) plain_startsWith hp
      (fun cs => rfl)
      fun hread => Piece.plain_chars hread fun name hname => head?_render (hend name hname)
    rw [List.flatMap_cons, ← ih hps hsep]
    exact hstep

/-- The piece with what a pass puts in its place. -/
def Piece.settle {α : Type} (form? : Piece → Option α) (value : α → List Char) (p : Piece) : Piece :=
  match form? p with
  | some a => .literal (value a)
  | none => p

theorem replaceForms_render {α : Type} {recognise : Recogniser α} {form? : Piece → Option α}
    {ps : List Piece}
    (h : Text.segments recognise (render ps) = ps.flatMap (Piece.segments form?))
    (value : α → List Char) :
    Text.replaceForms recognise value (render ps) = render (ps.map (Piece.settle form? value)) := by
  rw [Text.replaceForms, h, render, List.flatMap_assoc, List.flatMap_map]
  congr 1
  funext p
  cases hp : form? p with
  | some a => simp [Piece.segments, Piece.settle, hp, Piece.chars]
  | none =>
    simp only [Piece.segments, Piece.settle, hp]
    exact flatMap_chars value p.chars

/-! ## Escapes -/

/-- The piece with an escaped dollar set aside. -/
def Piece.protect : Piece → Piece
  | .escape => .literal [asideDollar]
  | p => p

theorem replaceEscapes_append {value cs rest : List Char} (hcs : '\\' ∉ cs) :
    replaceEscapes value (cs ++ rest) = cs ++ replaceEscapes value rest := by
  induction cs with
  | nil => rfl
  | cons c cs ih =>
    have hc := List.ne_of_not_mem_cons hcs
    rw [List.cons_append, replaceEscapes, ih (List.not_mem_of_not_mem_cons hcs)]
    · rfl
    · rintro rest' rfl
      exact absurd rfl hc

/-- The piece with `value` in the place of an escaped dollar. -/
def Piece.fill (value : List Char) : Piece → Piece
  | .escape => .literal value
  | p => p

theorem Piece.protect_eq_fill : Piece.protect = Piece.fill [asideDollar] :=
  funext fun p => by cases p <;> rfl

theorem Piece.fill_of_ne {value : List Char} {p : Piece} (h : p ≠ .escape) : p.fill value = p := by
  cases p with
  | escape => exact absurd rfl h
  | _ => rfl

/-- Replacing escapes does nothing else if no other piece holds a backslash. -/
theorem replaceEscapes_render_fill (value : List Char) {ps : List Piece}
    (hps : ∀ p ∈ ps, p ≠ .escape → '\\' ∉ p.chars) :
    replaceEscapes value (render ps) = render (ps.map (Piece.fill value)) := by
  induction ps with
  | nil => rfl
  | cons p ps ih =>
    obtain ⟨hp, hrest⟩ := List.forall_mem_cons.mp hps
    by_cases hescape : p = .escape
    · subst hescape
      exact congrArg (value ++ ·) (ih hrest)
    · simp only [render, List.flatMap_cons, List.map_cons, Piece.fill_of_ne hescape]
      rw [replaceEscapes_append (hp hescape)]
      exact congrArg (p.chars ++ ·) (ih hrest)

theorem IsLiteral.unmarked {cs : List Char} (h : IsLiteral cs) (hcs : '\\' ∉ cs) : Unmarked cs :=
  ⟨h.1, h.2.1, h.2.2.1, hcs⟩

theorem Piece.WellFormed.regular {p : Piece} (hp : p.WellFormed) : p.Regular := by
  cases p with
  | literal cs => exact hp.1.unmarked hp.2
  | escape => trivial
  | braced name => exact hp
  | bare name => exact hp
  | guarded g name text => exact ⟨hp.1, hp.2.1.unmarked hp.2.2⟩

theorem Piece.Regular.backslash_not_mem {p : Piece} (hp : p.Regular) (hescape : p ≠ .escape) :
    '\\' ∉ p.chars := by
  have hname : ∀ {name : List Char}, isName name = true → '\\' ∉ name := fun h =>
    not_mem_of_isName h (by decide)
  cases p with
  | literal cs => exact hp.2.2.2
  | escape => exact absurd rfl hescape
  | braced name => simpa [Piece.chars] using hname hp
  | bare name => simpa [Piece.chars] using hname hp
  | guarded g name text => cases g <;> simp [Piece.chars, Guard.mark, hname hp.1, hp.2.2.2.2]

theorem replaceEscapes_render {ps : List Piece} (hps : ∀ p ∈ ps, p.WellFormed) :
    replaceEscapes [asideDollar] (render ps) = render (ps.map Piece.protect) := by
  rw [Piece.protect_eq_fill]
  exact replaceEscapes_render_fill _ fun p hp => (hps p hp).regular.backslash_not_mem

/-! ## What the passes keep -/

namespace Piece

variable {p : Piece} {ps : List Piece}

theorem WellFormed.protect_clear (hp : p.WellFormed) : p.protect.Clear := by
  cases p with
  | literal cs => exact ⟨hp.1.1, hp.1.2.1⟩
  | escape => exact ⟨by decide, by decide⟩
  | braced name => exact hp
  | bare name => exact hp
  | guarded g name text => exact ⟨hp.1, hp.2.1⟩

theorem Clear.settle {α : Type} {form? : Piece → Option α} {value : α → List Char} (hp : p.Clear)
    (hvalue : ∀ a, form? p = some a → '$' ∉ value a ∧ '\x7b' ∉ value a) :
    (p.settle form? value).Clear := by
  unfold Piece.settle
  split
  · next a ha => exact hvalue a ha
  · exact hp

theorem exists_eq_guarded {mark : Char} {g : Guarded} (hg : p.guardedForm? mark = some g) :
    ∃ guard, p = guarded guard g.name g.text := by
  cases p with
  | guarded guard name text =>
    simp only [guardedForm?] at hg
    split at hg
    · cases hg
      exact ⟨guard, rfl⟩
    · cases hg
  | _ => cases hg

theorem Clear.isLiteral_text {mark : Char} {g : Guarded} (hp : p.Clear)
    (hg : p.guardedForm? mark = some g) : IsLiteral g.text := by
  obtain ⟨guard, rfl⟩ := exists_eq_guarded hg
  exact hp.2

/-- Turning references into literals separates what was separated. -/
theorem Separated.map {f : Piece → Piece} (hliteral : ∀ cs, f (literal cs) = literal cs)
    (hbare : ∀ p name, f p = bare name → p = bare name) (h : Separated ps) :
    Separated (ps.map f) := by
  induction ps with
  | nil => trivial
  | cons p ps ih =>
    obtain ⟨hend, hsep⟩ := separated_cons.mp h
    refine separated_cons.mpr ⟨fun name hname => ?_, ih hsep⟩
    have hend := hend name (hbare p name hname)
    unfold EndsName at hend
    split at hend
    · trivial
    · simpa [hliteral, EndsName] using hend
    · cases hend

theorem Separated.settle {α : Type} {form? : Piece → Option α} {value : α → List Char}
    (hliteral : ∀ cs, form? (literal cs) = none) (h : Separated ps) :
    Separated (ps.map (Piece.settle form? value)) := by
  refine h.map (fun cs => by simp [Piece.settle, hliteral]) fun p name hp => ?_
  unfold Piece.settle at hp
  split at hp
  · cases hp
  · exact hp

theorem Separated.protect (h : Separated ps) : Separated (ps.map Piece.protect) := by
  refine h.map (fun cs => rfl) fun p name hp => ?_
  cases p with
  | escape => cases hp
  | _ => exact hp

end Piece

end ConsoleScript.Scope
