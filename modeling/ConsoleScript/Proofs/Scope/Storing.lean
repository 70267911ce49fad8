-- SUMMARY: Which names an expansion stores, and what becomes known of a scope by it.
import ConsoleScript.Proofs.Scope.Passes

/-!
# What an expansion stores

Expanding a text stores at the most the names of its forms `${NAME:=text}`, as they stand
after the pass before. A name that has such a form is set after the expansion: either the
form has stored it, or it had a value already. So the names that are set afterwards are
those that were set before and those of the forms (`isSet_expand`).
-/

namespace ConsoleScript.Scope

open Text (Segment)

variable {now : Int} {scope : Scope} {name : String}

theorem isSet_set (scope : Scope) (name value other : String) :
    (scope.set name value).isSet other = (other == name || scope.isSet other) := by
  simp only [isSet, get?, set, Variables.get?_set]
  cases hother : other == name <;> cases scope.overrides.get? other <;> simp

theorem isSet_of_nonempty? {value : String} (h : scope.nonempty? name = some value) :
    scope.isSet name = true := by
  obtain ⟨hget, -⟩ := Option.filter_eq_some_iff.mp h
  simp only [isSet, hget, Option.isSome_some]

/-- The names of the forms of a text that store a default. -/
def defaultNames (scope : Scope) (text : String) : List String :=
  (Text.forms (guarded '=')
    (alternatePass scope (replaceEscapes [asideDollar] text.toList))).map (·.name)

theorem isSet_assignSegments (segments : List (Segment Guarded)) :
    (assignSegments now scope segments).2.isSet name = true ↔
      (∃ g, .form g ∈ segments ∧ g.name = name) ∨ scope.isSet name = true := by
  induction segments generalizing scope with
  | nil => simp [assignSegments]
  | cons segment rest ih =>
    cases segment with
    | char c =>
      rw [assignSegments, ih]
      simp
    | form g =>
      simp only [assignSegments, List.mem_cons, Segment.form.injEq]
      cases hvalue : scope.nonempty? g.name with
      | some value =>
        have hset := isSet_of_nonempty? hvalue
        simp only [ih]
        grind
      | none =>
        simp only [ih, isSet_set, Bool.or_eq_true, beq_iff_eq]
        grind

/-- A text without a dollar has no form that stores a default. -/
theorem defaultNames_of_not_mem {text : String} (h : '$' ∉ text.toList) :
    scope.defaultNames text = [] := by
  have hpass : alternatePass scope text.toList = text.toList :=
    replaceForms_of_not_mem _ (guarded_startsWith '+') h
  rw [defaultNames, replaceEscapes_of_not_mem h, hpass, Text.forms, Text.segments,
    segmentsFrom_of_not_mem (guarded_startsWith '=') h]
  simp

/-- The names that are set after an expansion. -/
theorem isSet_expand (text : String) :
    (scope.expand now text).2.isSet name = true ↔
      name ∈ scope.defaultNames text ∨ scope.isSet name = true := by
  unfold expand
  dsimp only
  split
  · simp only [expandChars, substitute, assignPass, isSet_assignSegments, defaultNames,
      List.mem_map, Text.mem_forms]
  · next hcs =>
    have hdollar : '$' ∉ text.toList := by
      intro hmem
      simp [hmem] at hcs
    simp [defaultNames_of_not_mem hdollar]

end ConsoleScript.Scope
