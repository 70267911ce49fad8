-- SUMMARY: Characters in the place of others: recognising references commutes with it.
import Mathlib.Data.List.TakeWhile
import ConsoleScript.Proofs.Scope.Pieces

/-!
# Recasting characters

Recognising a reference looks at the characters of references only. So it
commutes with every map of characters that leaves those alone (`Keeps`), and so
does replacing references, if what is put in their places is mapped too
(`Text.map_replaceForms`).
-/

namespace ConsoleScript

/-! ## One character in the place of another -/

/-- The character, or `b` in the place of `a`. -/
def recast (a b c : Char) : Char := if c = a then b else c

/-- The text with `b` in the place of `a`. -/
def recastText (a b : Char) (s : String) : String := String.ofList (s.toList.map (recast a b))

@[simp] theorem recast_self (a b : Char) : recast a b a = b := if_pos rfl

theorem recast_of_ne {a b c : Char} (h : c ≠ a) : recast a b c = c := if_neg h

theorem map_recast_of_not_mem {a b : Char} {cs : List Char} (h : a ∉ cs) :
    cs.map (recast a b) = cs := by
  refine (List.map_congr_left fun c hc => ?_).trans cs.map_id
  exact recast_of_ne (ne_of_mem_of_not_mem hc h)

theorem not_mem_of_map_recast {a b : Char} (hne : a ≠ b) {cs : List Char}
    (h : cs.map (recast a b) = cs) : a ∉ cs := by
  rw [← h]
  simp only [List.mem_map, not_exists, not_and]
  intro c _
  unfold recast
  split
  · exact hne.symm
  · assumption

@[simp] theorem toList_recastText (a b : Char) (s : String) :
    (recastText a b s).toList = s.toList.map (recast a b) := String.toList_ofList

@[simp] theorem isEmpty_recastText (a b : Char) (s : String) :
    (recastText a b s).isEmpty = s.isEmpty := by
  rw [Bool.eq_iff_iff, String.isEmpty_iff, String.isEmpty_iff, ← String.toList_eq_nil_iff,
    ← String.toList_eq_nil_iff, toList_recastText, List.map_eq_nil_iff]

/-! ## Recognising under a map of characters -/

/-- The map leaves the characters of a class as they are, and takes no other one
    into the class. -/
structure Keeps (p : Char → Bool) (f : Char → Char) : Prop where
  inside : ∀ c, p c = true → f c = c
  outside : ∀ c, p c = false → p (f c) = false

namespace Keeps

variable {p q : Char → Bool} {f g : Char → Char}

theorem recast {a b : Char} (ha : p a = false) (hb : p b = false) : Keeps p (recast a b) where
  inside c hc := recast_of_ne fun h => by rw [h, ha] at hc; cases hc
  outside c hc := by
    unfold ConsoleScript.recast
    split
    · exact hb
    · exact hc

theorem id : Keeps p id where
  inside _ _ := rfl
  outside _ hc := hc

theorem comp (hg : Keeps p g) (hf : Keeps p f) : Keeps p (g ∘ f) where
  inside c hc := by rw [Function.comp_apply, hf.inside c hc, hg.inside c hc]
  outside c hc := hg.outside _ (hf.outside c hc)

theorem apply_eq (h : Keeps p f) (c : Char) : p (f c) = p c := by
  cases hc : p c with
  | true => rw [h.inside c hc]; exact hc
  | false => exact h.outside c hc

/-- A map that keeps a class keeps every smaller one. -/
theorem mono (h : Keeps p f) (hq : ∀ c, q c = true → p c = true) : Keeps q f where
  inside c hc := h.inside c (hq c hc)
  outside c hc := by
    cases hp : p c with
    | true => rw [h.inside c hp]; exact hc
    | false =>
      have hout := h.outside c hp
      exact Bool.eq_false_iff.mpr fun hqf => Bool.eq_false_iff.mp hout (hq _ hqf)

theorem eq_iff {d : Char} (h : Keeps p f) (hd : p d = true) (c : Char) : f c = d ↔ c = d := by
  have hkeeps : Keeps (· == d) f := h.mono fun c hc => by rw [beq_iff_eq.mp hc]; exact hd
  have heq : (f c == d) = (c == d) := hkeeps.apply_eq c
  rw [← beq_iff_eq, heq, beq_iff_eq]

theorem takeWhile_map (h : Keeps p f) (cs : List Char) :
    (cs.map f).takeWhile p = cs.takeWhile p := by
  have hcomp : p ∘ f = p := funext h.apply_eq
  rw [List.takeWhile_map, hcomp]
  refine (List.map_congr_left fun c hc => ?_).trans (List.map_id _)
  exact h.inside c (List.mem_takeWhile_imp hc)

theorem dropWhile_map (h : Keeps p f) (cs : List Char) :
    (cs.map f).dropWhile p = (cs.dropWhile p).map f := by
  have hcomp : p ∘ f = p := funext h.apply_eq
  rw [List.dropWhile_map, hcomp]

end Keeps

namespace Text

/-- Recognising commutes with the map, which does `h` to the forms. -/
def Recogniser.Commutes {α : Type} (recognise : Recogniser α) (f : Char → Char) (h : α → α) : Prop :=
  ∀ cs, recognise (cs.map f) = (recognise cs).map fun (a, size) => (h a, size)

/-- Replacing the forms of two texts, one the other under `f`, gives two texts that
    are the same up to maps `k` and `g` if the characters and what is put in are. -/
theorem map_replaceForms {α : Type} {recognise : Recogniser α} {f k g : Char → Char} {h : α → α}
    {value value' : α → List Char} {cs : List Char} (hr : recognise.Commutes f h)
    (hchar : ∀ c ∈ cs, k (f c) = g c)
    (hform : ∀ cs a size, recognise cs = some (a, size) →
      (value' (h a)).map k = (value a).map g) :
    (replaceForms recognise value' (cs.map f)).map k = (replaceForms recognise value cs).map g := by
  unfold replaceForms segments
  generalize 0 = skip
  induction cs generalizing skip with
  | nil => rfl
  | cons c cs ih =>
    obtain ⟨hc, hcs⟩ := List.forall_mem_cons.mp hchar
    cases skip with
    | succ skip => exact ih hcs skip
    | zero =>
      have hfront := hr (c :: cs)
      rw [List.map_cons] at hfront
      rw [List.map_cons, segmentsFrom, segmentsFrom, hfront]
      cases hseen : recognise (c :: cs) with
      | none => simp [ih hcs, hc]
      | some form =>
        obtain ⟨a, size⟩ := form
        simp [ih hcs, hform _ a size hseen]

/-- Replacing forms commutes with a map that recognising them commutes with. -/
theorem replaceForms_map {α : Type} {recognise : Recogniser α} {f : Char → Char} {h : α → α}
    {value value' : α → List Char} (hr : recognise.Commutes f h)
    (hform : ∀ cs a size, recognise cs = some (a, size) → value' (h a) = (value a).map f)
    (cs : List Char) :
    replaceForms recognise value' (cs.map f) = (replaceForms recognise value cs).map f := by
  have hmap : (replaceForms recognise value' (cs.map f)).map id =
      (replaceForms recognise value cs).map f := by
    refine map_replaceForms hr (fun _ _ => rfl) fun cs a size hseen => ?_
    rw [List.map_id, hform cs a size hseen]
  rwa [List.map_id] at hmap

theorem suffix_of_form_mem {α : Type} {recognise : Recogniser α} {a : α} {cs : List Char}
    (h : Segment.form a ∈ segments recognise cs) :
    ∃ rest size, rest <:+ cs ∧ recognise rest = some (a, size) := by
  unfold segments at h
  generalize 0 = skip at h
  induction cs generalizing skip with
  | nil => cases h
  | cons c cs ih =>
    have hlater : ∀ skip, Segment.form a ∈ segmentsFrom recognise skip cs →
        ∃ rest size, rest <:+ c :: cs ∧ recognise rest = some (a, size) := by
      intro skip h
      obtain ⟨rest, size, hrest, hseen⟩ := ih skip h
      exact ⟨rest, size, hrest.trans (List.suffix_cons c cs), hseen⟩
    cases skip with
    | succ skip => exact hlater skip h
    | zero =>
      rw [segmentsFrom] at h
      split at h
      · next b size hseen =>
        rcases List.mem_cons.mp h with heq | h
        · cases heq
          exact ⟨c :: cs, size, List.suffix_rfl, hseen⟩
        · exact hlater _ h
      · exact hlater 0 (by simpa using h)

theorem mem_of_char_mem {α : Type} {recognise : Recogniser α} {c : Char} {cs : List Char}
    (h : Segment.char c ∈ segments recognise cs) : c ∈ cs := by
  unfold segments at h
  generalize 0 = skip at h
  induction cs generalizing skip with
  | nil => cases h
  | cons d cs ih =>
    cases skip with
    | succ skip => exact List.mem_cons_of_mem d (ih skip h)
    | zero =>
      rw [segmentsFrom] at h
      split at h
      · exact List.mem_cons_of_mem d (ih _ (by simpa using h))
      · rcases List.mem_cons.mp h with heq | h
        · cases heq
          exact List.mem_cons_self
        · exact List.mem_cons_of_mem d (ih 0 h)

end Text

namespace Scope

open Text (Recogniser Segment)

/-- The characters of braced names. -/
def isBracedChar (c : Char) : Bool := isWordChar c || ['\x7b', '\x7d'].contains c

/-- The characters that mean something in a reference. -/
def isReferenceChar (c : Char) : Bool := isBracedChar c || ['$', ':', '+', '=', '-'].contains c

theorem isBracedChar_of_isWordChar {c : Char} (h : isWordChar c = true) :
    isBracedChar c = true := by
  simp [isBracedChar, h]

theorem isReferenceChar_of_isBracedChar {c : Char} (h : isBracedChar c = true) :
    isReferenceChar c = true := by
  simp [isReferenceChar, h]

variable {f : Char → Char}

theorem splitWord?_map (h : Keeps isWordChar f) (cs : List Char) :
    splitWord? (cs.map f) = (splitWord? cs).map fun (name, rest) => (name, rest.map f) := by
  cases cs with
  | nil => rfl
  | cons c cs =>
    have hstart : Keeps isWordStart f := h.mono fun _ => isWordChar_of_isWordStart
    simp only [List.map_cons, splitWord?, hstart.apply_eq, h.takeWhile_map, h.dropWhile_map]
    cases hc : isWordStart c with
    | true => simp [hstart.inside c hc]
    | false => rfl

theorem splitName?_map (h : Keeps isWordChar f) (cs : List Char) :
    splitName? (cs.map f) = (splitName? cs).map fun (name, rest) => (name, rest.map f) := by
  cases cs with
  | nil => rfl
  | cons c cs =>
    have hstart : Keeps isWordStart f := h.mono fun _ => isWordChar_of_isWordStart
    have hdigit : Keeps Char.isDigit f := h.mono fun _ => isWordChar_of_isDigit
    simp only [List.map_cons, splitName?, hstart.apply_eq, hdigit.apply_eq, h.takeWhile_map,
      h.dropWhile_map, hdigit.takeWhile_map, hdigit.dropWhile_map]
    cases hc : isWordStart c with
    | true => simp [hstart.inside c hc]
    | false =>
      cases hd : c.isDigit with
      | true => simp [hdigit.inside c hd]
      | false => rfl

theorem guarded_eq_none {mark c d : Char} {cs : List Char} (h : ¬(c = '$' ∧ d = '\x7b')) :
    guarded mark (c :: d :: cs) = none := by
  unfold guarded
  split
  · next heq =>
    obtain ⟨rfl, rfl, -⟩ : c = '$' ∧ d = '\x7b' ∧ cs = _ := by simpa using heq
    exact absurd ⟨rfl, rfl⟩ h
  · rfl

theorem guarded_commutes {mark : Char} (hmark : isReferenceChar mark = true)
    (h : Keeps isReferenceChar f) :
    (guarded mark).Commutes f fun g => ⟨g.name, g.text.map f⟩ := by
  intro cs
  have hword : Keeps isWordChar f := h.mono fun _ hc =>
    isReferenceChar_of_isBracedChar (isBracedChar_of_isWordChar hc)
  have hclose : ((· != '\x7d') ∘ f : Char → Bool) = (· != '\x7d') := by
    funext c
    have heq := h.eq_iff (d := '\x7d') (by decide) c
    rw [Function.comp_apply, Bool.eq_iff_iff, bne_iff_ne, bne_iff_ne, ne_eq, ne_eq, heq]
  match cs with
  | [] => rfl
  | [c] => simp [guarded]
  | c :: d :: cs =>
    by_cases hfront : c = '$' ∧ d = '\x7b'
    · obtain ⟨rfl, rfl⟩ := hfront
      have hdollar := h.inside '$' (by decide)
      have hopen := h.inside '\x7b' (by decide)
      simp only [List.map_cons, hdollar, hopen, guarded, splitName?_map hword]
      rcases splitName? cs with _ | ⟨name, _ | ⟨c, _ | ⟨m, rest⟩⟩⟩
      · rfl
      · rfl
      · simp
      · by_cases hc : c = ':'
        · subst hc
          have hcolon := h.inside ':' (by decide)
          simp only [Option.map_some, List.map_cons, hcolon, h.eq_iff hmark, List.takeWhile_map,
            List.dropWhile_map, hclose]
          split
          · cases rest.dropWhile (· != '\x7d') <;> simp
          · rfl
        · have hc' : f c ≠ ':' := (h.eq_iff (by decide) c).not.mpr hc
          simp [hc, hc']
    · have hfront' : ¬(f c = '$' ∧ f d = '\x7b') := by
        rwa [h.eq_iff (by decide), h.eq_iff (by decide)]
      rw [List.map_cons, List.map_cons, guarded_eq_none hfront, guarded_eq_none hfront']
      rfl

theorem plain_bare {cs : List Char} (h : ∀ rest, cs ≠ '\x7b' :: rest) :
    plain ('$' :: cs) =
      (splitName? cs).map fun (name, _) => (String.ofList name, name.length + 1) := by
  unfold plain
  split
  · next rest heq => exact absurd (List.cons.inj heq).2 (h rest)
  · next cs' _ heq =>
    obtain rfl := (List.cons.inj heq).2
    cases splitName? cs <;> rfl
  · next hne => exact absurd rfl (hne cs)

theorem plain_commutes (h : Keeps isReferenceChar f) : plain.Commutes f id := by
  intro cs
  have hword : Keeps isWordChar f := h.mono fun _ hc =>
    isReferenceChar_of_isBracedChar (isBracedChar_of_isWordChar hc)
  match cs with
  | [] => rfl
  | c :: cs =>
    by_cases hc : c = '$'
    · subst hc
      rw [List.map_cons, h.inside '$' (by decide)]
      by_cases hopen : ∃ rest, cs = '\x7b' :: rest
      · obtain ⟨rest, rfl⟩ := hopen
        simp only [List.map_cons, h.inside '\x7b' (by decide), plain, splitName?_map hword]
        rcases splitName? rest with _ | ⟨name, _ | ⟨c, rest⟩⟩
        · rfl
        · rfl
        · by_cases hc : c = '\x7d'
          · subst hc
            simp [h.inside '\x7d' (by decide)]
          · have hc' : f c ≠ '\x7d' := (h.eq_iff (by decide) c).not.mpr hc
            simp [hc, hc']
      · have hopen := not_exists.mp hopen
        have hopen' : ∀ rest, cs.map f ≠ '\x7b' :: rest := by
          intro rest heq
          obtain ⟨d, ds, rfl, hd, -⟩ := List.map_eq_cons_iff.mp heq
          rw [h.eq_iff (by decide)] at hd
          exact hopen ds (by rw [hd])
        rw [plain_bare hopen, plain_bare hopen', splitName?_map hword, Option.map_map,
          Option.map_map]
        rfl
    · have hc' : f c ≠ '$' := (h.eq_iff (by decide) c).not.mpr hc
      rw [List.map_cons, plain_startsWith _ _ hc, plain_startsWith _ _ hc']
      rfl

theorem braced_commutes (h : Keeps isBracedChar f) : braced.Commutes f id := by
  intro cs
  have hword : Keeps isWordChar f := h.mono fun _ => isBracedChar_of_isWordChar
  match cs with
  | [] => rfl
  | c :: cs =>
    by_cases hc : c = '\x7b'
    · subst hc
      have hopen := h.inside '\x7b' (by decide)
      simp only [List.map_cons, hopen, braced, splitWord?_map hword]
      rcases splitWord? cs with _ | ⟨name, _ | ⟨c, rest⟩⟩
      · rfl
      · rfl
      · by_cases hc : c = '\x7d'
        · subst hc
          simp [h.inside '\x7d' (by decide)]
        · have hc' : f c ≠ '\x7d' := (h.eq_iff (by decide) c).not.mpr hc
          simp [hc, hc']
    · have hc' : f c ≠ '\x7b' := (h.eq_iff (by decide) c).not.mpr hc
      rw [List.map_cons, braced_startsWith _ _ hc, braced_startsWith _ _ hc']
      rfl

/-- A braced name is made of word characters. -/
theorem isWordChar_of_braced {cs : List Char} {name : String} {size : Nat}
    (h : braced cs = some (name, size)) : ∀ c ∈ name.toList, isWordChar c = true := by
  unfold braced at h
  split at h
  · next cs =>
    split at h
    · next word rest hsplit =>
      obtain ⟨rfl, -⟩ : String.ofList word = name ∧ _ := by simpa using h
      cases cs with
      | nil => cases hsplit
      | cons c cs =>
        simp only [splitWord?] at hsplit
        split at hsplit
        · next hstart =>
          obtain ⟨rfl, -⟩ : c :: cs.takeWhile isWordChar = word ∧ _ := by simpa using hsplit
          rw [String.toList_ofList]
          refine List.forall_mem_cons.mpr ⟨isWordChar_of_isWordStart hstart, ?_⟩
          intro d hd
          exact List.mem_takeWhile_imp hd
        · cases hsplit
    · cases h
  · cases h

end Scope

/-! ## Scopes with other values -/

/-- The variables with every value changed. -/
def Variables.map (f : String → String) (vars : Variables) : Variables :=
  ⟨vars.entries.map fun entry => (entry.1, f entry.2)⟩

namespace Variables

variable (f : String → String) (vars : Variables)

@[simp] theorem get?_map (name : String) : (vars.map f).get? name = (vars.get? name).map f := by
  obtain ⟨entries⟩ := vars
  simp only [get?, Variables.map]
  induction entries with
  | nil => rfl
  | cons entry entries ih =>
    obtain ⟨n, v⟩ := entry
    simp only [List.map_cons, List.lookup_cons, ih]
    cases name == n <;> rfl

theorem map_set (name value : String) :
    (vars.set name value).map f = (vars.map f).set name (f value) := by
  obtain ⟨entries⟩ := vars
  simp only [set, Variables.map, mk.injEq]
  induction entries with
  | nil => rfl
  | cons entry entries ih =>
    simp only [List.map_cons, setEntry]
    cases name == entry.1 <;> simp [ih]

theorem map_eq_self (h : ∀ entry ∈ vars.entries, f entry.2 = entry.2) : vars.map f = vars := by
  obtain ⟨entries⟩ := vars
  simp only [Variables.map, mk.injEq]
  refine (List.map_congr_left fun entry hentry => ?_).trans entries.map_id
  rw [h entry hentry, id]

theorem map_map (g : String → String) : (vars.map f).map g = vars.map (g ∘ f) := by
  simp [Variables.map]

end Variables

namespace Scope

/-- The scope with every value changed. -/
def map (f : String → String) (scope : Scope) : Scope :=
  ⟨scope.env.map f, scope.vars.map f, scope.overrides.map f⟩

theorem get?_map (f : String → String) (scope : Scope) (name : String) :
    (scope.map f).get? name = (scope.get? name).map f := by
  simp only [get?, map, Variables.get?_map]
  cases scope.overrides.get? name <;> cases scope.vars.get? name <;> rfl

theorem map_set (f : String → String) (scope : Scope) (name value : String) :
    (scope.set name value).map f = (scope.map f).set name (f value) := by
  simp only [set, map, Variables.map_set]

end Scope

end ConsoleScript
