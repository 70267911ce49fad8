-- SUMMARY: Numerals and durations that are written are read back, and what is read stays within its limit.
import ConsoleScript.Duration
import ConsoleScript.Proofs.Text.Words

/-!
# Numerals and durations

Reading digits computes the number that they spell, if it stays within the limit
(`readDigits_eq_ok_iff`). So a number within the limit is read from its decimal digits, and a
number that was read is within the limit. For durations the limit holds for the number that is
written, which counts seconds wherever it can (`Duration.IsWritable`).
-/

namespace ConsoleScript

namespace Text

/-! ## Digits -/

theorem not_isBlank_of_isAlphanum {c : Char} (h : c.isAlphanum = true) : isBlank c = false := by
  have hlow : 48 ≤ c.toNat ∧ c.toNat ≤ 122 := by
    have hclass : (c.isUpper = true ∨ c.isLower = true) ∨ c.isDigit = true := by
      change ((c.isUpper || c.isLower) || c.isDigit) = true at h
      simpa only [Bool.or_eq_true] using h
    rcases hclass with (hupper | hlower) | hdigit
    · have hrange : 65 ≤ c.toNat ∧ c.toNat ≤ 90 := of_decide_eq_true hupper
      omega
    · obtain ⟨hge, hle⟩ := Bool.and_eq_true_iff.mp hlower
      have hge : 97 ≤ c.toNat := of_decide_eq_true hge
      have hle : c.toNat ≤ 122 := of_decide_eq_true hle
      omega
    · obtain ⟨hge, hle⟩ := Bool.and_eq_true_iff.mp hdigit
      have hge : 48 ≤ c.toNat := of_decide_eq_true hge
      have hle : c.toNat ≤ 57 := of_decide_eq_true hle
      omega
  simp only [isBlank, Bool.or_eq_false_iff, Bool.and_eq_false_iff, beq_eq_false_iff_ne,
    decide_eq_false_iff_not]
  omega

theorem not_isBlank_of_isDigit {c : Char} (h : c.isDigit = true) : isBlank c = false :=
  not_isBlank_of_isAlphanum (by simp [Char.isAlphanum, h])

theorem isDigit_of_mem_toDigits {n : Nat} {c : Char} (h : c ∈ Nat.toDigits 10 n) :
    c.isDigit = true :=
  Nat.isDigit_of_mem_toDigits (by decide) (by decide) h

theorem digitValue?_of_isDigit {c : Char} (h : c.isDigit = true) :
    digitValue? c = some (c.toNat - '0'.toNat) := by
  rw [digitValue?, if_pos h]
  rfl

/-! ## Reading digits -/

theorem isWord_toDigits (n : Nat) : IsWord (Nat.toDigits 10 n) :=
  ⟨Nat.toDigits_ne_nil, fun _ hc => not_isBlank_of_isDigit (isDigit_of_mem_toDigits hc)⟩

variable {limit value n : Nat} {excess : NumeralError} {cs : List Char}

theorem le_ofDigitChars (cs : List Char) (value : Nat) : value ≤ Nat.ofDigitChars 10 cs value := by
  rw [Nat.ofDigitChars_eq_ofDigitChars_zero]
  have hpow : 1 ≤ 10 ^ cs.length := Nat.one_le_pow _ _ (by decide)
  calc value = 1 * value := (Nat.one_mul value).symm
    _ ≤ 10 ^ cs.length * value := Nat.mul_le_mul_right value hpow
    _ ≤ _ := Nat.le_add_right _ _

/-- Reading digits gives the number that they spell after `value`, if it is within the limit. -/
theorem readDigits_eq_ok_iff (hvalue : value ≤ limit) :
    readDigits limit excess value cs = .ok n ↔
      (∀ c ∈ cs, c.isDigit = true) ∧ n = Nat.ofDigitChars 10 cs value ∧ n ≤ limit := by
  induction cs generalizing value with
  | nil =>
    simp only [readDigits, Except.ok.injEq, Nat.ofDigitChars_nil]
    constructor
    · rintro rfl
      exact ⟨List.forall_mem_nil _, rfl, hvalue⟩
    · exact fun h => h.2.1.symm
  | cons c cs ih =>
    rw [readDigits, List.forall_mem_cons]
    by_cases hc : c.isDigit = true
    · have hnext : Nat.ofDigitChars 10 (c :: cs) value =
          Nat.ofDigitChars 10 cs (value * 10 + (c.toNat - '0'.toNat)) := by
        rw [Nat.ofDigitChars_cons, Nat.mul_comm]
      simp only [digitValue?_of_isDigit hc, hc, true_and, hnext]
      split
      · next hexcess =>
        have hle := le_ofDigitChars cs (value * 10 + (c.toNat - '0'.toNat))
        simp only [reduceCtorEq, false_iff, not_and]
        rintro - rfl
        omega
      · next hfits => exact ih (by omega)
    · simp [digitValue?, hc]

theorem readDigits1_eq_ok_iff :
    readDigits1 limit excess cs = .ok n ↔
      cs ≠ [] ∧ (∀ c ∈ cs, c.isDigit = true) ∧ n = Nat.ofDigitChars 10 cs 0 ∧ n ≤ limit := by
  cases cs with
  | nil => simp [readDigits1]
  | cons c cs => simp only [readDigits1, readDigits_eq_ok_iff (Nat.zero_le limit), ne_eq,
      reduceCtorEq, not_false_eq_true, true_and]

/-- A number within the limit is read from its decimal digits. -/
theorem readDigits1_toDigits (h : n ≤ limit) :
    readDigits1 limit excess (Nat.toDigits 10 n) = .ok n :=
  readDigits1_eq_ok_iff.mpr
    ⟨Nat.toDigits_ne_nil, fun _ => isDigit_of_mem_toDigits, Nat.ofDigitChars_ten_toDigits.symm, h⟩

/-! ## Numerals -/

theorem toList_toString_nat (n : Nat) : (toString n).toList = Nat.toDigits 10 n := by
  rw [Nat.toString_eq_repr, Nat.repr_eq_ofList_toDigits, String.toList_ofList]

/-- A numeral without a sign starts with a digit. -/
theorem exists_toDigits_eq_cons (n : Nat) :
    ∃ c cs, Nat.toDigits 10 n = c :: cs ∧ c.isDigit = true := by
  obtain ⟨c, cs, heq⟩ := List.exists_cons_of_ne_nil (Nat.toDigits_ne_nil (n := n) (b := 10))
  exact ⟨c, cs, heq, isDigit_of_mem_toDigits (n := n) (by simp [heq])⟩

theorem readNat?_toString (h : n ≤ limit) : readNat? limit (toString n) = some n := by
  obtain ⟨c, cs, heq, hc⟩ := exists_toDigits_eq_cons n
  have hread : readNat limit (toString n) = readDigits1 limit .tooLarge (Nat.toDigits 10 n) := by
    rw [readNat, toList_toString_nat, heq]
    split
    · next hnil => cases hnil
    · next hplus =>
      obtain ⟨rfl, -⟩ := List.cons.inj hplus
      cases hc
    · rfl
  rw [readNat?, hread, readDigits1_toDigits h]
  rfl

theorem le_of_readNat? {s : String} (h : readNat? limit s = some n) : n ≤ limit := by
  have hok : readNat limit s = .ok n := by
    rw [readNat?] at h
    cases hread : readNat limit s with
    | error e => rw [hread] at h; cases h
    | ok m => rw [hread] at h; exact congrArg Except.ok (Option.some.inj h)
  unfold readNat at hok
  split at hok
  · cases hok
  · exact (readDigits1_eq_ok_iff.mp hok).2.2.2
  · exact (readDigits1_eq_ok_iff.mp hok).2.2.2

theorem toList_toString_int (i : Int) :
    (toString i).toList =
      if 0 ≤ i then Nat.toDigits 10 i.toNat else '-' :: Nat.toDigits 10 (-i).toNat := by
  rw [Int.toString_eq_repr, Int.repr_eq_if]
  split
  · rw [Nat.repr_eq_ofList_toDigits, String.toList_ofList]
  · rw [String.toList_append, Nat.repr_eq_ofList_toDigits, String.toList_ofList]
    simp

/-- The numbers with a sign that `readInt` can give. -/
def IsSigned (limit : Nat) (i : Int) : Prop := -(limit + 1 : Int) ≤ i ∧ i ≤ limit

theorem readInt_toString {i : Int} (h : IsSigned limit i) : readInt limit (toString i) = .ok i := by
  obtain ⟨hlow, hhigh⟩ := h
  rw [readInt, toList_toString_int]
  by_cases hi : 0 ≤ i
  · obtain ⟨c, cs, heq, hc⟩ := exists_toDigits_eq_cons i.toNat
    have hread : readDigits1 limit .tooLarge (c :: cs) = .ok i.toNat := by
      rw [← heq]
      exact readDigits1_toDigits (by omega)
    rw [if_pos hi, heq]
    split
    · next hnil => cases hnil
    · next hplus =>
      obtain ⟨rfl, -⟩ := List.cons.inj hplus
      cases hc
    · next hminus =>
      obtain ⟨rfl, -⟩ := List.cons.inj hminus
      cases hc
    · rw [hread]
      exact congrArg Except.ok (Int.toNat_of_nonneg hi)
  · have hread : readDigits1 (limit + 1) .tooSmall (Nat.toDigits 10 (-i).toNat) = .ok (-i).toNat :=
      readDigits1_toDigits (by omega)
    rw [if_neg hi]
    simp only [hread]
    refine congrArg Except.ok ?_
    change -((-i).toNat : Int) = i
    omega

theorem isSigned_of_readInt {s : String} {i : Int} (h : readInt limit s = .ok i) :
    IsSigned limit i := by
  have hbound : ∀ {limit' : Nat} {excess : NumeralError} {cs : List Char} {f : Nat → Int},
      f <$> readDigits1 limit' excess cs = .ok i → ∃ n, n ≤ limit' ∧ f n = i := by
    intro limit' excess cs f hmap
    cases hread : readDigits1 limit' excess cs with
    | error e => rw [hread] at hmap; cases hmap
    | ok n =>
      rw [hread] at hmap
      exact ⟨n, (readDigits1_eq_ok_iff.mp hread).2.2.2, Except.ok.inj hmap⟩
  unfold readInt at h
  split at h
  · cases h
  · obtain ⟨n, hn, rfl⟩ := hbound h
    exact ⟨by simp; omega, Int.ofNat_le.mpr hn⟩
  · obtain ⟨n, hn, rfl⟩ := hbound h
    exact ⟨by simp; omega, by simp⟩
  · obtain ⟨n, hn, rfl⟩ := hbound h
    exact ⟨by simp; omega, Int.ofNat_le.mpr hn⟩

end Text

/-! ## Durations -/

namespace Duration

open Text

/-- The written form of a duration: in seconds if these are whole, else in milliseconds. -/
def written (d : Duration) : String :=
  if d % 1000 = 0 then toString (d / 1000) ++ "s" else toString d ++ "ms"

/-- The number that stands in the written form. -/
def count (d : Duration) : Nat := if d % 1000 = 0 then d / 1000 else d

/-- The unit that stands in the written form. -/
def unit (d : Duration) : String := if d % 1000 = 0 then "s" else "ms"

/-- The number in the written form has at most 64 bits. -/
def IsWritable (d : Duration) : Prop := d.count ≤ maxWord

theorem toList_written (d : Duration) :
    d.written.toList = Nat.toDigits 10 d.count ++ d.unit.toList := by
  unfold written count unit
  split
  · rw [String.toList_append, toList_toString_nat]
  · rw [String.toList_append, toList_toString_nat]

theorem ofUnit?_count_unit (d : Duration) : ofUnit? d.count d.unit = some d := by
  unfold ofUnit? count unit
  split
  · next hwhole =>
    have hsame : ofSeconds (d / 1000) = d :=
      Nat.div_mul_cancel (Nat.dvd_of_mod_eq_zero hwhole)
    simp [hsame]
  · simp

theorem mem_units (d : Duration) : d.unit ∈ ["s", "ms"] := by
  unfold unit
  split <;> simp

/-- Seconds and milliseconds of a number that was read, and of minutes the seconds. -/
theorem isWritable_of_ofUnit? {n : Nat} {unit : String} {d : Duration} (hn : n ≤ maxWord)
    (h : ofUnit? n unit = some d) : IsWritable d := by
  have hseconds : ∀ m, m ≤ maxWord → IsWritable (ofSeconds m) := fun m hm => by
    simpa [IsWritable, count, ofSeconds] using hm
  unfold ofUnit? at h
  split at h
  · obtain rfl := Option.some.inj h
    unfold IsWritable count
    split
    · exact Nat.le_trans (Nat.div_le_self n 1000) hn
    · exact hn
  · split at h
    · obtain rfl := Option.some.inj h
      exact hseconds n hn
    · split at h
      · split at h
        · next hfits =>
          obtain rfl := Option.some.inj h
          exact hseconds _ hfits
        · cases h
      · cases h

theorem not_digit_of_mem_unit {d : Duration} {c : Char} (h : c ∈ d.unit.toList) :
    isDecimalDigit c = false ∧ isBlank c = false := by
  have hunits : ["s", "ms"].all (·.toList.all fun c => !isDecimalDigit c && !isBlank c) := by
    decide +kernel
  have hunit := List.all_eq_true.mp hunits _ (mem_units d)
  simpa using List.all_eq_true.mp hunit c h

/-- The number and the unit of the written form are told apart by the class of digits. -/
theorem span_written {p : Char → Bool} (d : Duration) (hdigit : ∀ c, c.isDigit = true → p c = true)
    (hdecimal : ∀ c, p c = true → isDecimalDigit c = true) :
    d.written.toList.takeWhile p = Nat.toDigits 10 d.count ∧
      d.written.toList.dropWhile p = d.unit.toList := by
  have hdigits : ∀ c ∈ Nat.toDigits 10 d.count, p c = true := fun c hc =>
    hdigit c (isDigit_of_mem_toDigits hc)
  have hunit : ∀ c ∈ d.unit.toList.head?, p c = false := fun c hc => by
    have hnot := (not_digit_of_mem_unit (List.mem_of_mem_head? hc)).1
    cases hp : p c with
    | false => rfl
    | true => rw [hdecimal c hp] at hnot; cases hnot
  rw [toList_written]
  exact span_append hdigits hunit

theorem isWord_written (d : Duration) : IsWord d.written.toList := by
  rw [toList_written]
  refine ⟨by simp [Nat.toDigits_ne_nil], fun c hc => ?_⟩
  rcases List.mem_append.mp hc with hdigit | hunit
  · exact not_isBlank_of_isDigit (isDigit_of_mem_toDigits hdigit)
  · exact (not_digit_of_mem_unit hunit).2

/-- A duration is read from its written form. -/
theorem read?_written {d : Duration} (h : d.IsWritable) : read? d.written = some d := by
  obtain ⟨hcount, hunit⟩ := span_written d (fun _ h => h) fun _ h => isDecimalDigit_of_isDigit h
  simp only [read?, (isWord_written d).trimChars_eq_self, hcount, hunit, readDigits1_toDigits h,
    String.ofList_toList, ofUnit?_count_unit]

theorem isWritable_of_read? {s : String} {d : Duration} (h : read? s = some d) : IsWritable d := by
  simp only [read?] at h
  split at h
  · cases h
  · next n hread => exact isWritable_of_ofUnit? (readDigits1_eq_ok_iff.mp hread).2.2.2 h

end Duration

end ConsoleScript
