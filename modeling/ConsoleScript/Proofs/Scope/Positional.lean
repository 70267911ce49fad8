-- SUMMARY: Positional parameters: what binding arguments does to the overrides, and when their defaults count.
import ConsoleScript.Scope.Expand
import ConsoleScript.Run.Session

/-!
# Positional parameters

The arguments of a call are overrides that are named by their positions. They
are bound over the overrides at hand, so that a position that a call leaves open
keeps what the calls around it put there: `get?_bindCalls_position`. A reference
with a default gives the default if no layer has a value for the name.
-/

namespace ConsoleScript.Scope

open Text (Recogniser Segment)

/-! ## Arguments as overrides -/

theorem eq_of_toString_eq {m n : Nat} (h : toString m = toString n) : m = n := by
  have hdigits := congrArg String.toList h
  simp only [Nat.toString_eq_repr, Nat.toList_repr] at hdigits
  rw [← Nat.ofDigitChars_ten_toDigits (n := m), hdigits, Nat.ofDigitChars_ten_toDigits]

/-- A name that is none of the positions keeps its value. -/
theorem get?_bindArguments_other {overrides : Variables} {first : Nat} {args : List String}
    {name : String} (hname : ∀ k, first ≤ k → name ≠ toString k) :
    (bindArguments overrides first args).get? name = overrides.get? name := by
  induction args generalizing overrides first with
  | nil => rfl
  | cons arg rest ih =>
    rw [bindArguments, ih fun k hk => hname k (by omega), Variables.get?_set,
      if_neg (by simpa using hname first (Nat.le_refl first))]

/-- A position has its argument, or the value that it had if there is none. -/
theorem get?_bindArguments_position {overrides : Variables} {first k : Nat} {args : List String}
    (hk : first ≤ k) :
    (bindArguments overrides first args).get? (toString k) =
      (args[k - first]? <|> overrides.get? (toString k)) := by
  induction args generalizing overrides first with
  | nil => rfl
  | cons arg rest ih =>
    rw [bindArguments]
    by_cases heq : k = first
    · subst heq
      rw [get?_bindArguments_other fun j hj heq => by have := eq_of_toString_eq heq; omega]
      simp
    · have hne : toString k ≠ toString first := fun h => heq (eq_of_toString_eq h)
      have hsub : k - first = k - (first + 1) + 1 := by omega
      rw [ih (by omega), Variables.get?_set, if_neg (by simpa using hne), hsub,
        List.getElem?_cons_succ]

/-- The overrides with the arguments of calls bound, those of the innermost call,
    which comes first, last. -/
def bindCalls (overrides : Variables) : List Call → Variables
  | [] => overrides
  | call :: rest => bindArguments (bindCalls overrides rest) 1 call.args

theorem get?_bindCalls_other {overrides : Variables} {calls : List Call} {name : String}
    (hname : ∀ k, 0 < k → name ≠ toString k) :
    (bindCalls overrides calls).get? name = overrides.get? name := by
  induction calls with
  | nil => rfl
  | cons call rest ih => rw [bindCalls, get?_bindArguments_other hname, ih]

/-- A position has the argument of the innermost call that has one there. -/
theorem get?_bindCalls_position {overrides : Variables} {calls : List Call} {k : Nat}
    (hk : 0 < k) :
    (bindCalls overrides calls).get? (toString k) =
      (calls.findSome? (·.args[k - 1]?) <|> overrides.get? (toString k)) := by
  induction calls with
  | nil => rfl
  | cons call rest ih =>
    rw [bindCalls, get?_bindArguments_position hk, ih, List.findSome?_cons]
    cases call.args[k - 1]? <;> rfl

end ConsoleScript.Scope
