-- SUMMARY: A text without a dollar passes through the expansion, unless it holds the character of the dollars set aside.
import ConsoleScript.Proofs.Scope.Escaping
import ConsoleScript.Proofs.Scope.StoredText

/-!
# Texts without a dollar

A text with neither a dollar nor an opening brace is not expanded at all. All passes together
would do the same, for without a dollar there is no reference but a name in braces, and one
that is unknown stays. Only the last pass tells the two apart: it takes the character that
stands for a dollar set aside for one, also where the text held it from the start. So the
passes give a text without a dollar unchanged exactly if it does not hold that character
(`dollarless_unchanged_iff`).
-/

namespace ConsoleScript.Scope

variable {now : Int} {scope : Scope} {cs : List Char}

theorem bringBack_eq_self_iff : bringBack cs = cs ↔ asideDollar ∉ cs := by
  constructor
  · intro hsame hmem
    rw [← hsame] at hmem
    exact asideDollar_not_mem_bringBack cs hmem
  · exact bringBack_of_not_mem

/-- Of a text without a dollar in which no name is known, only the dollars set aside come back. -/
theorem expandChars_of_not_mem (hdollar : '$' ∉ cs) (hknown : ¬HasKnown now scope cs) :
    scope.expandChars now cs = (bringBack cs, scope) := by
  simp only [expandChars, replaceEscapes_of_not_mem hdollar, substitute_of_not_mem hdollar,
    bracedPass_eq_self hknown]

/-- A text without a dollar in which no name is known passes unchanged through all passes
    exactly if it does not hold the character of a dollar set aside. Expanded as a whole it
    does so, too, where it has no opening brace. -/
theorem dollarless_unchanged_iff {text : String} (hdollar : '$' ∉ text.toList)
    (hknown : ¬HasKnown now scope text.toList) :
    scope.expandChars now text.toList = (bringBack text.toList, scope) ∧
      (scope.expandChars now text.toList = (text.toList, scope) ↔ asideDollar ∉ text.toList) ∧
      (scope.expand now text = (text, scope) ↔
        '\x7b' ∉ text.toList ∨ asideDollar ∉ text.toList) := by
  have hpasses := expandChars_of_not_mem hdollar hknown
  refine ⟨hpasses, ?_, ?_⟩
  · rw [hpasses, Prod.mk.injEq, bringBack_eq_self_iff, and_iff_left rfl]
  · by_cases hopen : '\x7b' ∈ text.toList
    · have hexpand : scope.expand now text = (String.ofList (bringBack text.toList), scope) := by
        simp [expand, hopen, hpasses]
      rw [hexpand, Prod.mk.injEq, ← String.toList_inj, String.toList_ofList,
        bringBack_eq_self_iff]
      simp [hopen]
    · have hexpand : scope.expand now text = (text, scope) := by simp [expand, hdollar, hopen]
      simp [hexpand, hopen]

/-- Braces, backslashes and an unknown name, beside a name that is set. -/
theorem dollarless_unchanged_iff_braces :
    let scope : Scope := ⟨.empty, ⟨[("A", "1")]⟩, .empty⟩
    let text := "\\\x7bB\x7d \x7bA \x7b\x7bA:-x\x7d A\x7d"
    '$' ∉ text.toList ∧ ¬HasKnown 0 scope text.toList ∧
      scope.expandChars 0 text.toList = (text.toList, scope) ∧
      scope.expand 0 text = (text, scope) := by
  intro scope text
  have hdollar : '$' ∉ text.toList := by decide +kernel
  have haside : asideDollar ∉ text.toList := by decide +kernel
  have hnone : ∀ name ∈ ["timestamp", "date", "time", "datetime", "unix", "A"],
      ¬inBraces name <:+: text.toList := by
    decide +kernel
  have hknown : ¬HasKnown 0 scope text.toList := by
    rintro ⟨name, -, hfound, hclock | hset⟩
    · have hname := clockValue?_isSome_iff.mp hclock
      exact hnone name (List.mem_append_left ["A"] hname) hfound
    · have hname : name = "A" := by
        simp only [isSet, get?, scope, Variables.get?, Variables.empty, List.lookup_cons,
          List.lookup_nil] at hset
        split at hset <;> simp_all
      exact hnone name (by simp [hname]) hfound
  obtain ⟨-, hpasses, hexpand⟩ := dollarless_unchanged_iff hdollar hknown
  exact ⟨hdollar, hknown, hpasses.mpr haside, hexpand.mpr (.inr haside)⟩

/-- The character of a dollar set aside becomes a dollar when the passes run over it. The
    opening brace makes them run, and without it the text is left alone. -/
theorem aside_read_as_dollar :
    let scope : Scope := .empty
    ('$' ∉ "\uE000\x7b".toList ∧ ¬HasKnown 0 scope "\uE000\x7b".toList ∧
      (scope.expand 0 "\uE000\x7b").1 = "$\x7b") ∧
    (scope.expandChars 0 "\uE000".toList).1 = "$".toList ∧ (scope.expand 0 "\uE000").1 = "\uE000" := by
  intro scope
  have hknown : ¬HasKnown 0 scope "\uE000\x7b".toList :=
    not_hasKnown (c := '\x7d') (by decide) (by decide +kernel)
  exact ⟨⟨by decide +kernel, hknown, by decide +kernel⟩, by decide +kernel, by decide +kernel⟩

end ConsoleScript.Scope
