-- SUMMARY: A text whose dollars are all escaped expands to itself.
import ConsoleScript.Proofs.Scope.Meaning
import ConsoleScript.Proofs.Scope.Occurrences

/-!
# Escaped dollars

Escaping every dollar of a text is undone by expanding it, whatever else stands in the text:
the first pass sets all dollars aside, so that no pass for references finds one, and the last
one brings them back. Only names in braces need no dollar, and have to be unknown
(`expand_escapeDollars`).
-/

namespace ConsoleScript.Scope

/-- The text with a backslash before each dollar. -/
def escapeDollars (cs : List Char) : List Char :=
  cs.flatMap fun c => if c = '$' then ['\\', '$'] else [c]

theorem escapeDollars_cons_of_ne {c : Char} (h : c ≠ '$') (cs : List Char) :
    escapeDollars (c :: cs) = c :: escapeDollars cs := by
  simp [escapeDollars, h]

/-- Every dollar has its backslash before it, so none stands at the front. -/
theorem escapeDollars_ne_dollar (cs rest : List Char) : escapeDollars cs ≠ '$' :: rest := by
  cases cs with
  | nil => exact nofun
  | cons c cs =>
    by_cases hc : c = '$'
    · simp [escapeDollars, hc]
    · rw [escapeDollars_cons_of_ne hc]
      exact fun heq => hc (List.cons.inj heq).1

/-- The dollars that are escaped are all dollars of the text. A backslash of the text itself
    is never taken for one that escapes. -/
theorem replaceEscapes_escapeDollars (cs : List Char) :
    replaceEscapes [asideDollar] (escapeDollars cs) = setAside cs := by
  induction cs with
  | nil => rfl
  | cons c cs ih =>
    by_cases hc : c = '$'
    · subst hc
      exact congrArg (asideDollar :: ·) ih
    · rw [escapeDollars_cons_of_ne hc, replaceEscapes, ih]
      · simp [setAside, hc]
      · intro rest _ heq
        exact absurd heq (escapeDollars_ne_dollar cs rest)

theorem asideDollar_not_mem_escapeDollars {cs : List Char} (h : asideDollar ∉ cs) :
    asideDollar ∉ escapeDollars cs := by
  simp only [escapeDollars, List.mem_flatMap, not_exists, not_and]
  intro c hc
  split
  · decide
  · simpa using ne_of_mem_of_not_mem hc h |>.symm

/-- Of a text without dollars only names in braces are expanded. -/
theorem substitute_of_not_mem {now : Int} {scope : Scope} {cs : List Char} (h : '$' ∉ cs) :
    scope.substitute now cs = (bracedPass now scope cs, scope) := by
  have hguarded : ∀ g, ¬HasGuarded g cs := fun g => not_hasGuarded List.mem_cons_self h
  simp only [substitute, alternatePass_eq_self (hguarded .alternate),
    assignPass_eq_self (hguarded .assign), defaultPass_eq_self (hguarded .default),
    plainPass_eq_self (not_hasPlain h)]

/-- Expanding a text with all dollars escaped gives the text and stores nothing. -/
theorem expand_escapeDollars {now : Int} {scope : Scope} {text : String}
    (haside : asideDollar ∉ text.toList) (hknown : ¬HasKnown now scope text.toList) :
    scope.expand now (String.ofList (escapeDollars text.toList)) = (text, scope) := by
  have hkeeps : Keeps isBracedChar (recast '$' asideDollar) := .recast (by decide) (by decide)
  have hbraced : bracedPass now scope (setAside text.toList) = setAside text.toList :=
    bracedPass_eq_self fun h => hknown (hasKnown_of_map hkeeps h)
  rw [expand_eq_expandChars now scope (asideDollar_not_mem_escapeDollars haside)]
  simp only [expandChars, replaceEscapes_escapeDollars,
    substitute_of_not_mem (dollar_not_mem_setAside _), hbraced, bringBack_setAside haside,
    String.ofList_toList]

/-- All kinds of references, of which none counts, and backslashes of the text itself. -/
theorem expand_escapeDollars_syntax :
    let scope : Scope := ⟨.empty, ⟨[("A", "1")]⟩, .empty⟩
    let text := "\\$A \\\\$$ $\x7bN:=x\x7d$\x7bA:+y\x7d $\x7bN\x7d\x7bnone\x7d $\\"
    asideDollar ∉ text.toList ∧ ¬HasKnown 0 scope text.toList ∧
      String.ofList (escapeDollars text.toList) =
        "\\\\$A \\\\\\$\\$ \\$\x7bN:=x\x7d\\$\x7bA:+y\x7d \\$\x7bN\x7d\x7bnone\x7d \\$\\" ∧
      scope.expand 0 (String.ofList (escapeDollars text.toList)) = (text, scope) := by
  intro scope text
  have haside : asideDollar ∉ text.toList := by decide +kernel
  have hknown : ¬HasKnown 0 scope text.toList := by
    rintro ⟨name, -, hfound, hclock | hset⟩
    · have hname := clockValue?_isSome_iff.mp hclock
      have hnone : ∀ name ∈ ["timestamp", "date", "time", "datetime", "unix"],
          ¬inBraces name <:+: text.toList := by
        decide +kernel
      exact hnone name hname hfound
    · have hname : name = "A" := by
        simp only [isSet, get?, scope, Variables.get?, Variables.empty, List.lookup_cons,
          List.lookup_nil] at hset
        split at hset <;> simp_all
      subst hname
      exact absurd hfound (by decide +kernel)
  exact ⟨haside, hknown, by decide +kernel, expand_escapeDollars haside hknown⟩

end ConsoleScript.Scope
