-- SUMMARY: The texts that spell a duration are exactly those that are read as one.
import Mathlib.Data.String.Basic
import ConsoleScript.Proofs.Text.Numerals

/-!
# Texts that spell a duration

A text spells a duration if, apart from blanks around it, it is a number in ASCII digits and a
unit, or no unit. `Counts` is the table of the units and `Spells` puts the text together.
Neither speaks of trimming, of where digits stop or of reading them one by one. A text is read
as a duration if and only if it spells it (`read?_eq_some_iff`).
-/

namespace ConsoleScript.Duration

open Text

/-- The duration that a number stands for before each unit, or without one. -/
inductive Counts (n : Nat) : List Char → Duration → Prop where
  | bare : Counts n [] (1000 * n)
  | seconds : Counts n ['s'] (1000 * n)
  | milliseconds : Counts n ['m', 's'] n
  | minutes (h : 60 * n < 2 ^ 64) : Counts n ['m'] (1000 * (60 * n))

/-- The texts that spell a duration: the digits of a number of 64 bits and a unit, between
    any blanks. Zeros may lead the digits. -/
inductive Spells : List Char → Duration → Prop where
  | between {before digits unit after : List Char} {d : Duration}
      (hbefore : ∀ c ∈ before, isBlank c = true)
      (hne : digits ≠ []) (hdigits : ∀ c ∈ digits, c.isDigit = true)
      (hvalue : Nat.ofDigitChars 10 digits 0 < 2 ^ 64)
      (hunit : Counts (Nat.ofDigitChars 10 digits 0) unit d)
      (hafter : ∀ c ∈ after, isBlank c = true) :
      Spells (before ++ (digits ++ unit) ++ after) d

variable {n : Nat} {digits unit : List Char} {d : Duration}

/-! ## Units -/

theorem Counts.isAlphanum (h : Counts n unit d) : ∀ c ∈ unit, c.isAlphanum = true := by
  refine List.all_eq_true.mp ?_
  cases h <;> rfl

theorem Counts.head?_not_digit (h : Counts n unit d) : ∀ c ∈ unit.head?, c.isDigit = false := by
  intro c hc
  cases h with
  | bare => cases hc
  | seconds | milliseconds | minutes => cases hc; rfl

theorem Counts.of_ofUnit? (h : ofUnit? n (String.ofList unit) = some d) : Counts n unit d := by
  unfold ofUnit? ofSeconds maxWord at h
  split at h
  · next hunit =>
    obtain rfl := String.ofList_eq.mp hunit
    obtain rfl := Option.some.inj h
    exact .milliseconds
  · split at h
    · next hunit =>
      obtain rfl := Option.some.inj h
      rw [Nat.mul_comm]
      rcases hunit with hunit | hunit
      · obtain rfl := String.ofList_eq.mp hunit
        exact .bare
      · obtain rfl := String.ofList_eq.mp hunit
        exact .seconds
    · split at h
      · next hunit =>
        split at h
        · next hfits =>
          obtain rfl := String.ofList_eq.mp hunit
          obtain rfl := Option.some.inj h
          rw [Nat.mul_comm, Nat.mul_comm n]
          exact .minutes (by omega)
        · cases h
      · cases h

theorem Counts.ofUnit? (h : Counts n unit d) : ofUnit? n (String.ofList unit) = some d := by
  unfold Duration.ofUnit? ofSeconds maxWord
  cases h with
  | bare => simp [Nat.mul_comm]
  | seconds => simp [Nat.mul_comm]
  | milliseconds => simp
  | minutes hfits =>
    have hfits : n * 60 ≤ 18446744073709551615 := by omega
    simp [hfits, Nat.mul_comm]

/-! ## Reading -/

theorem Spells.of_read? {s : String} (h : read? s = some d) : Spells s.toList d := by
  obtain ⟨before, after, hs, hbefore, hafter⟩ := exists_eq_append_trimChars s.toList
  simp only [read?] at h
  split at h
  · cases h
  · next n hread =>
    obtain ⟨hne, hdigits, rfl, hvalue⟩ := readDigits1_eq_ok_iff.mp hread
    rw [hs, ← List.takeWhile_append_dropWhile (p := Char.isDigit) (l := trimChars s.toList)]
    exact .between hbefore hne hdigits (Nat.lt_succ_of_le hvalue) (.of_ofUnit? h) hafter

theorem Spells.isWord (hne : digits ≠ []) (hdigits : ∀ c ∈ digits, c.isDigit = true)
    (hunit : Counts n unit d) : IsWord (digits ++ unit) := by
  refine ⟨List.append_ne_nil_of_left_ne_nil hne unit, fun c hc => ?_⟩
  rcases List.mem_append.mp hc with hdigit | hletter
  · exact not_isBlank_of_isDigit (hdigits c hdigit)
  · exact not_isBlank_of_isAlphanum (hunit.isAlphanum c hletter)

theorem Spells.read? {s : String} (h : Spells s.toList d) : read? s = some d := by
  generalize hs : s.toList = cs at h
  cases h with
  | @between before digits unit after _ hbefore hne hdigits hvalue hunit hafter =>
    have htrim : trimChars s.toList = digits ++ unit := by
      rw [hs]
      exact (isWord hne hdigits hunit).trimChars_between hbefore hafter
    obtain ⟨htake, hdrop⟩ := span_append hdigits hunit.head?_not_digit
    have hread : readDigits1 maxWord .tooLarge digits = .ok (Nat.ofDigitChars 10 digits 0) :=
      readDigits1_eq_ok_iff.mpr ⟨hne, hdigits, rfl, Nat.le_of_lt_succ hvalue⟩
    simp only [Duration.read?, htrim, htake, hdrop, hread]
    exact hunit.ofUnit?

/-- A text is read as a duration if and only if it spells that duration. -/
theorem read?_eq_some_iff (s : String) (d : Duration) : read? s = some d ↔ Spells s.toList d :=
  ⟨.of_read?, Spells.read?⟩

/-- The longest duration in minutes, and the number after it. -/
example : read? " 0307445734561825860m" = some 18446744073709551600000 ∧
    read? "307445734561825861m" = none := by
  decide

end ConsoleScript.Duration
