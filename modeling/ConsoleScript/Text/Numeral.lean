-- SUMMARY: Decimal numerals: digit classes, and reading a number that has to fit below a limit.

/-!
# Numerals

Two classes of digits occur. The *decimal digits* are those of every script
with the Unicode category `Nd`: a numeral in a script line is recognised by
them. Its value is read with the ASCII digits only, so a numeral of other
digits is recognised and then refused with `NumeralError.notDigit`.
-/

namespace ConsoleScript.Text

-- ---------------------------------------------------------------------------
-- Digits
-- ---------------------------------------------------------------------------

/-- The digit zero of every set of ten decimal digits. -/
def digitZeros : List Nat := [
    0x30, 0x660, 0x6F0, 0x7C0, 0x966, 0x9E6, 0xA66, 0xAE6, 0xB66, 0xBE6, 0xC66, 0xCE6, 0xD66,
    0xDE6, 0xE50, 0xED0, 0xF20, 0x1040, 0x1090, 0x17E0, 0x1810, 0x1946, 0x19D0, 0x1A80, 0x1A90,
    0x1B50, 0x1BB0, 0x1C40, 0x1C50, 0xA620, 0xA8D0, 0xA900, 0xA9D0, 0xA9F0, 0xAA50, 0xABF0,
    0xFF10, 0x104A0, 0x10D30, 0x10D40, 0x11066, 0x110F0, 0x11136, 0x111D0, 0x112F0, 0x11450,
    0x114D0, 0x11650, 0x116C0, 0x116D0, 0x116DA, 0x11730, 0x118E0, 0x11950, 0x11BF0, 0x11C50,
    0x11D50, 0x11DA0, 0x11F50, 0x16130, 0x16A60, 0x16AC0, 0x16B50, 0x16D70, 0x1CCF0, 0x1D7CE,
    0x1D7D8, 0x1D7E2, 0x1D7EC, 0x1D7F6, 0x1E140, 0x1E2F0, 0x1E4F0, 0x1E5F1, 0x1E950, 0x1FBF0]

/-- The characters of category `Nd`. -/
def isDecimalDigit (c : Char) : Bool :=
  digitZeros.any fun first => first ≤ c.toNat && c.toNat < first + 10

/-- Every ASCII digit is a decimal digit. -/
theorem isDecimalDigit_of_isDigit {c : Char} (h : c.isDigit = true) : isDecimalDigit c = true := by
  simp only [Char.isDigit, Bool.and_eq_true, decide_eq_true_eq] at h
  have h₁ : 0x30 ≤ c.toNat := h.1
  have h₂ : c.toNat ≤ 57 := h.2
  refine List.any_eq_true.2 ⟨0x30, by simp [digitZeros], ?_⟩
  simp only [Bool.and_eq_true, decide_eq_true_eq]
  omega

/-- The value of an ASCII digit. -/
def digitValue? (c : Char) : Option Nat :=
  if c.isDigit then some (c.toNat - 0x30) else none

-- ---------------------------------------------------------------------------
-- Reading
-- ---------------------------------------------------------------------------

/-- Why a numeral has no value. -/
inductive NumeralError where
  | empty
  | notDigit
  | tooLarge
  | tooSmall
  deriving DecidableEq, Repr

/-- The wording of a numeral error. -/
def NumeralError.message : NumeralError → String
  | .empty => "cannot parse integer from empty string"
  | .notDigit => "invalid digit found in string"
  | .tooLarge => "number too large to fit in target type"
  | .tooSmall => "number too small to fit in target type"

/-- Reads digits onto `value`, from the left, and stops with `excess` as soon as
    the value passes `limit`: of two faults the one further left counts. -/
def readDigits (limit : Nat) (excess : NumeralError) (value : Nat) :
    List Char → Except NumeralError Nat
  | [] => .ok value
  | c :: rest =>
    match digitValue? c with
    | none => .error .notDigit
    | some d =>
      let next := value * 10 + d
      if limit < next then .error excess else readDigits limit excess next rest

/-- Reads at least one digit. -/
def readDigits1 (limit : Nat) (excess : NumeralError) : List Char → Except NumeralError Nat
  | [] => .error .notDigit
  | cs => readDigits limit excess 0 cs

/-- Reads a natural number of at most `limit`, with an optional plus sign. -/
def readNat (limit : Nat) (s : String) : Except NumeralError Nat :=
  match s.toList with
  | [] => .error .empty
  | '+' :: rest => readDigits1 limit .tooLarge rest
  | cs => readDigits1 limit .tooLarge cs

/-- Reads an integer from `-(limit + 1)` to `limit`, with an optional sign. -/
def readInt (limit : Nat) (s : String) : Except NumeralError Int :=
  match s.toList with
  | [] => .error .empty
  | '+' :: rest => Int.ofNat <$> readDigits1 limit .tooLarge rest
  | '-' :: rest => (fun n => -Int.ofNat n) <$> readDigits1 (limit + 1) .tooSmall rest
  | cs => Int.ofNat <$> readDigits1 limit .tooLarge cs

/-- The number that a text spells, if it is one of at most `limit`. -/
def readNat? (limit : Nat) (s : String) : Option Nat :=
  (readNat limit s).toOption

/-- The largest number of 64 bits. -/
def maxWord : Nat := 18446744073709551615

/-- The largest number of 32 bits. -/
def maxHalfWord : Nat := 4294967295

/-- The largest number of 32 bits of which one is a sign. -/
def maxSignedHalfWord : Nat := 2147483647

end ConsoleScript.Text
