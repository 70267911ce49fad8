-- SUMMARY: Reading bytes as UTF-8, exactly or with a mark for each broken part.

/-!
# UTF-8

Bytes are read one at a time by a small machine that remembers how much of a
character it has seen. Where the bytes stop being the beginning of a character,
what was seen so far is one *broken part* and the byte at hand starts afresh.
`decode?` refuses bytes with a broken part and `decodeLossy` puts the
replacement character in its place.
-/

namespace ConsoleScript.Text.Utf8

/-- What has been seen of the character being read. -/
inductive Pending where
  /-- Nothing. -/
  | none
  /-- Bits `value`; the next byte lies in `low .. high`, and `more` bytes of
      `0x80 .. 0xBF` follow it. -/
  | some (value : Nat) (low high : Nat) (more : Nat)
  deriving DecidableEq, Repr

/-- One character read, or `none` for a broken part. -/
abbrev Piece := Option Char

/-- A byte where a character starts. -/
def start (b : Nat) : Pending × List Piece :=
  if b < 0x80 then (.none, [some (Char.ofNat b)])
  else if 0xC2 ≤ b && b ≤ 0xDF then (.some (b - 0xC0) 0x80 0xBF 0, [])
  else if b == 0xE0 then (.some 0 0xA0 0xBF 1, [])
  else if b == 0xED then (.some 0xD 0x80 0x9F 1, [])
  else if 0xE1 ≤ b && b ≤ 0xEF then (.some (b - 0xE0) 0x80 0xBF 1, [])
  else if b == 0xF0 then (.some 0 0x90 0xBF 2, [])
  else if b == 0xF4 then (.some 4 0x80 0x8F 2, [])
  else if 0xF1 ≤ b && b ≤ 0xF3 then (.some (b - 0xF0) 0x80 0xBF 2, [])
  else (.none, [none])

/-- One byte after what is pending. -/
def step (pending : Pending) (b : Nat) : Pending × List Piece :=
  match pending with
  | .none => start b
  | .some value low high more =>
    if low ≤ b && b ≤ high then
      let value := value * 64 + (b - 0x80)
      match more with
      | 0 => (.none, [some (Char.ofNat value)])
      | more + 1 => (.some value 0x80 0xBF more, [])
    else
      let (next, pieces) := start b
      (next, none :: pieces)

/-- The pieces of the bytes after what is pending. -/
def piecesFrom : Pending → List UInt8 → List Piece
  | .none, [] => []
  | .some .., [] => [none]
  | pending, b :: rest =>
    let (next, pieces) := step pending b.toNat
    pieces ++ piecesFrom next rest

/-- The characters and broken parts of the bytes, in order. -/
def pieces (bytes : List UInt8) : List Piece :=
  piecesFrom .none bytes

/-- The text that the bytes encode, if no part of them is broken. -/
def decode? (bytes : List UInt8) : Option String :=
  ((pieces bytes).mapM id).map String.ofList

/-- The mark for a broken part. -/
def replacement : Char := '\uFFFD'

/-- The text of the bytes with a mark for each broken part. -/
def decodeLossy (bytes : List UInt8) : String :=
  String.ofList ((pieces bytes).map fun p => p.getD replacement)

/-- The bytes of a text. -/
def encode (s : String) : List UInt8 :=
  s.toList.flatMap String.utf8EncodeChar

end ConsoleScript.Text.Utf8
