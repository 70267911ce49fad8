-- SUMMARY: The passes of an expansion over texts without their forms, and over one reference with a default.
import ConsoleScript.Scope.Expand

/-!
# Passes

Every form starts with a mark of its own, a dollar or an opening brace. A pass
leaves a text alone that has no such mark. So for a text that is one reference
with a default, each pass but the one for defaults leaves it alone, and
`expand_default` says what becomes of it.
-/

namespace ConsoleScript.Scope

open Text (Recogniser Segment)

/-! ## Texts without a form -/

/-- The forms of the recogniser start with `mark`. -/
def StartsWith {α : Type} (mark : Char) (recognise : Recogniser α) : Prop :=
  ∀ c cs, c ≠ mark → recognise (c :: cs) = none

theorem segmentsFrom_of_not_mem {α : Type} {mark : Char} {recognise : Recogniser α}
    {cs : List Char} (hr : StartsWith mark recognise) (hcs : mark ∉ cs) :
    Text.segmentsFrom recognise 0 cs = cs.map .char := by
  induction cs with
  | nil => rfl
  | cons c cs ih =>
    have hne := List.ne_of_not_mem_cons hcs
    simp only [Text.segmentsFrom, hr c cs hne.symm, ih (List.not_mem_of_not_mem_cons hcs),
      List.map_cons]

theorem flatMap_chars {α : Type} (value : α → List Char) (cs : List Char) :
    ((cs.map Segment.char).flatMap fun
      | .char c => [c]
      | .form a => value a) = cs := by
  induction cs with
  | nil => rfl
  | cons c cs ih => simpa using ih

theorem replaceForms_of_not_mem {α : Type} {mark : Char} {recognise : Recogniser α}
    {cs : List Char} (value : α → List Char) (hr : StartsWith mark recognise) (hcs : mark ∉ cs) :
    Text.replaceForms recognise value cs = cs := by
  rw [Text.replaceForms, Text.segments, segmentsFrom_of_not_mem hr hcs]
  exact flatMap_chars value cs

theorem guarded_startsWith (mark : Char) : StartsWith '$' (guarded mark) := by
  intro c cs hne
  unfold guarded
  split
  · next heq => exact absurd (List.cons.inj heq).1 hne
  · rfl

theorem plain_startsWith : StartsWith '$' plain := by
  intro c cs hne
  unfold plain
  split
  · next heq => exact absurd (List.cons.inj heq).1 hne
  · next heq => exact absurd (List.cons.inj heq).1 hne
  · rfl

theorem braced_startsWith : StartsWith '\x7b' braced := by
  intro c cs hne
  unfold braced
  split
  · next heq => exact absurd (List.cons.inj heq).1 hne
  · rfl

theorem replaceEscapes_of_not_mem {value cs : List Char} (hcs : '$' ∉ cs) :
    replaceEscapes value cs = cs := by
  fun_induction replaceEscapes value cs with
  | case1 rest ih => simp at hcs
  | case2 c rest hne ih => rw [ih (List.not_mem_of_not_mem_cons hcs)]
  | case3 => rfl

theorem not_mem_replaceEscapes {c : Char} {value cs : List Char} (hvalue : c ∉ value)
    (hcs : c ∉ cs) : c ∉ replaceEscapes value cs := by
  fun_induction replaceEscapes value cs with
  | case1 rest ih =>
    have hrest := List.not_mem_of_not_mem_cons (List.not_mem_of_not_mem_cons hcs)
    simpa [hvalue] using ih hrest
  | case2 d rest hd ih =>
    have hrest := ih (List.not_mem_of_not_mem_cons hcs)
    exact List.not_mem_cons_of_ne_of_not_mem (List.ne_of_not_mem_cons hcs) hrest
  | case3 => exact hcs

theorem bringBack_of_not_mem {cs : List Char} (hcs : asideDollar ∉ cs) : bringBack cs = cs := by
  refine (List.map_congr_left fun c hc => ?_).trans cs.map_id
  exact if_neg (ne_of_mem_of_not_mem hc hcs)

/-! ## References with a default -/

/-- A text that every pass leaves alone, also as a default. -/
def IsLiteral (cs : List Char) : Prop :=
  '$' ∉ cs ∧ '\x7b' ∉ cs ∧ '\x7d' ∉ cs ∧ asideDollar ∉ cs

/-- The reference to a position with a default: `${K:-default}`. -/
def positionOr (k : Nat) (default : List Char) : List Char :=
  '$' :: '\x7b' :: (Nat.toDigits 10 k ++ ':' :: '-' :: (default ++ ['\x7d']))

theorem isWordStart_of_isDigit {c : Char} (h : c.isDigit = true) : isWordStart c = false := by
  simp only [Char.isDigit, Bool.and_eq_true, decide_eq_true_eq] at h
  have hle : c.toNat ≤ 57 := h.2
  have hupper : c.isUpper = false := by
    refine decide_eq_false ?_
    rintro ⟨hge : 65 ≤ c.toNat, -⟩
    omega
  have hlower : c.isLower = false := by
    refine Bool.and_eq_false_imp.mpr fun hge => ?_
    have hge : 97 ≤ c.toNat := of_decide_eq_true hge
    omega
  have hscore : (c == '_') = false := by
    refine beq_false_of_ne ?_
    rintro rfl
    simp at hle
  change (c.isUpper || c.isLower || c == '_') = false
  rw [hupper, hlower, hscore]
  rfl

theorem splitName?_digits (k : Nat) (rest : List Char) :
    splitName? (Nat.toDigits 10 k ++ ':' :: rest) = some (Nat.toDigits 10 k, ':' :: rest) := by
  have hdigits : ∀ c ∈ Nat.toDigits 10 k, c.isDigit = true := fun _ =>
    Nat.isDigit_of_mem_toDigits (by decide) (by decide)
  cases hk : Nat.toDigits 10 k with
  | nil => exact absurd hk Nat.toDigits_ne_nil
  | cons c cs =>
    rw [hk] at hdigits
    obtain ⟨hc, hcs⟩ := List.forall_mem_cons.mp hdigits
    simp [splitName?, isWordStart_of_isDigit hc, hc, List.takeWhile_append_of_pos hcs,
      List.dropWhile_append_of_pos hcs]

theorem guarded_positionOr (k : Nat) (mark : Char) {default : List Char}
    (hbrace : '\x7d' ∉ default) :
    guarded mark (positionOr k default) =
      if '-' = mark then some (⟨toString k, default⟩, (positionOr k default).length) else none := by
  have hends : ∀ c ∈ default, (c != '\x7d') = true := fun c hc => by
    simpa using ne_of_mem_of_not_mem hc hbrace
  simp only [positionOr, guarded, splitName?_digits, List.takeWhile_append_of_pos hends,
    List.dropWhile_append_of_pos hends]
  split
  · simp [Nat.repr_eq_ofList_toDigits]
    omega
  · rfl

theorem dollar_not_mem_digits (k : Nat) : '$' ∉ Nat.toDigits 10 k := fun h => by
  simpa using Nat.isDigit_of_mem_toDigits (by decide) (by decide) h

/-- The only dollar of the reference is its first character. -/
theorem exists_positionOr (k : Nat) {default : List Char} (hd : '$' ∉ default) :
    ∃ cs, positionOr k default = '$' :: cs ∧ '$' ∉ cs :=
  ⟨_, rfl, by simp [dollar_not_mem_digits, hd]⟩

/-- A pass for other references with a guard leaves this one alone. -/
theorem segments_positionOr {k : Nat} {mark : Char} {default : List Char} (hmark : '-' ≠ mark)
    (hd : IsLiteral default) :
    Text.segments (guarded mark) (positionOr k default) = (positionOr k default).map .char := by
  have hnone := guarded_positionOr k mark hd.2.2.1
  obtain ⟨cs, heq, hcs⟩ := exists_positionOr k hd.1
  rw [heq, if_neg hmark] at hnone
  rw [heq, Text.segments, Text.segmentsFrom, hnone]
  exact congrArg (.char '$' :: ·) (segmentsFrom_of_not_mem (guarded_startsWith mark) hcs)

theorem segments_default_positionOr {k : Nat} {default : List Char} (hd : IsLiteral default) :
    Text.segments (guarded '-') (positionOr k default) = [.form ⟨toString k, default⟩] := by
  have hform := guarded_positionOr k '-' hd.2.2.1
  obtain ⟨cs, heq, hcs⟩ := exists_positionOr k hd.1
  rw [heq, if_pos rfl] at hform
  rw [heq, Text.segments, Text.segmentsFrom, hform]
  have hrest := Text.segmentsFrom_append (guarded '-') cs []
  rw [List.append_nil, Text.segmentsFrom] at hrest
  simpa using hrest

theorem replaceEscapes_positionOr {k : Nat} {default : List Char} (value : List Char)
    (hd : '$' ∉ default) : replaceEscapes value (positionOr k default) = positionOr k default := by
  obtain ⟨cs, heq, hcs⟩ := exists_positionOr k hd
  rw [heq, replaceEscapes, replaceEscapes_of_not_mem hcs]
  simp

theorem assignSegments_chars (now : Int) (scope : Scope) (cs : List Char) :
    assignSegments now scope (cs.map .char) = (cs, scope) := by
  induction cs with
  | nil => rfl
  | cons c cs ih => simp only [List.map_cons, assignSegments, ih]

/-- A position without a value gives the default of its reference. -/
theorem expand_positionOr {scope : Scope} {k : Nat} {default : List Char} (now : Int)
    (hd : IsLiteral default) (hk : scope.nonempty? (toString k) = none) :
    scope.expand now (String.ofList (positionOr k default)) = (String.ofList default, scope) := by
  obtain ⟨hdollar, hopen, hclose, haside⟩ := id hd
  have hassign : assignPass now scope (positionOr k default) = (positionOr k default, scope) := by
    rw [assignPass, segments_positionOr (by decide) hd, assignSegments_chars]
  have halternate : alternatePass scope (positionOr k default) = positionOr k default := by
    rw [alternatePass, Text.replaceForms, segments_positionOr (by decide) hd]
    exact flatMap_chars _ _
  have hdefault : defaultPass scope (positionOr k default) = default := by
    rw [defaultPass, Text.replaceForms, segments_default_positionOr hd]
    simp only [List.flatMap_cons, hk, List.flatMap_nil, List.append_nil]
  have hplain : plainPass scope default = default :=
    replaceForms_of_not_mem _ plain_startsWith hdollar
  have hbraced : bracedPass now scope default = default :=
    replaceForms_of_not_mem _ braced_startsWith hopen
  have hchars : expandChars now scope (positionOr k default) = (default, scope) := by
    simp only [expandChars, replaceEscapes_positionOr _ hdollar, substitute, halternate, hassign,
      hdefault, hplain, hbraced, bringBack_of_not_mem haside]
  have hform : (positionOr k default).contains '$' = true := by
    simp [positionOr]
  simp only [expand, String.toList_ofList, hform, Bool.true_or, ↓reduceIte, hchars]

end ConsoleScript.Scope
