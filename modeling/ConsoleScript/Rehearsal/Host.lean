-- SUMMARY: The hosts of network addresses, by number or by name, and how each fails without a network.
import ConsoleScript.SystemError
import ConsoleScript.Text.Numeral
import ConsoleScript.Text.Search

/-!
# Hosts

A host is given by a number of version 4, by a number of version 6, or by a name
that has to be looked up. A rehearsal has no network, so that no host is ever
reached: what a host stands for decides which error it gives.
-/

namespace ConsoleScript.Rehearsal

/-- What the text of a host stands for. -/
inductive Host where
  | version4
  /-- Eight groups of 16 bits, and the number of an interface or 0. -/
  | version6 (groups : List Nat) (zone : Nat)
  /-- A name that somebody has to be asked about. -/
  | name
  /-- Neither a number nor in the form of a name. -/
  | malformed
  deriving DecidableEq, Repr

-- ---------------------------------------------------------------------------
-- Numbers
-- ---------------------------------------------------------------------------

/-- The value of a digit in a base of at most 16. -/
def baseDigit? (base : Nat) (c : Char) : Option Nat :=
  let value :=
    if c.isDigit then c.toNat - 48
    else if 'a' ≤ c.toLower ∧ c.toLower ≤ 'f' then c.toLower.toNat - 87
    else base
  if value < base then some value else none

/-- Reads digits of a base onto `value`, as long as it stays within `limit`. -/
def readBaseFrom? (base limit value : Nat) : List Char → Option Nat
  | [] => some value
  | c :: rest =>
    match baseDigit? base c with
    | none => none
    | some d =>
      let next := value * base + d
      if limit < next then none else readBaseFrom? base limit next rest

/-- Reads at least one digit of a base. -/
def readBase? (base limit : Nat) : List Char → Option Nat
  | [] => none
  | cs => readBaseFrom? base limit 0 cs

/-- A part of a number of version 4: hexadecimal after `0x`, octal after `0`. -/
def readPart? (limit : Nat) : List Char → Option Nat
  | '0' :: 'x' :: rest => readBase? 16 limit rest
  | '0' :: 'X' :: rest => readBase? 16 limit rest
  | '0' :: rest => readBase? 8 limit ('0' :: rest)
  | cs => readBase? 10 limit cs

/-- Whether a text is a number of version 4: up to four parts between dots, of
    which the last takes all the bits that the others leave. -/
def isVersion4 (cs : List Char) : Bool :=
  match (Text.pieces '.' cs).reverse with
  | [] => false
  | last :: before =>
    before.length < 4 && before.all (fun part => (readPart? 255 part).isSome) &&
      (readPart? (Text.maxHalfWord >>> (8 * before.length)) last).isSome

/-- An octet in decimal, which never begins with a needless zero. -/
def readOctet? (cs : List Char) : Option Nat :=
  if cs.length ≤ 1 || cs.head? != some '0' then readBase? 10 255 cs else none

/-- Four octets between dots, as two groups. -/
def readOctets? (cs : List Char) : Option (List Nat) :=
  match (Text.pieces '.' cs).mapM readOctet? with
  | some [a, b, c, d] => some [a * 256 + b, c * 256 + d]
  | _ => none

/-- A group of up to four hexadecimal digits. -/
def readGroup? (cs : List Char) : Option Nat :=
  if cs.length ≤ 4 then readBase? 16 0xFFFF cs else none

/-- The groups of a number of version 6, of which the last two may be written as
    octets if they are its end. -/
def readGroups? (atEnd : Bool) : List (List Char) → Option (List Nat)
  | [] => some []
  | [part] =>
    match readGroup? part with
    | some group => some [group]
    | none => if atEnd then readOctets? part else none
  | part :: rest =>
    match readGroup? part, readGroups? atEnd rest with
    | some group, some groups => some (group :: groups)
    | _, _ => none

/-- What stands before and after the first double colon, if there is one. -/
def splitGap? : List Char → Option (List Char × List Char)
  | [] => none
  | ':' :: ':' :: rest => some ([], rest)
  | c :: rest => (splitGap? rest).map fun (before, after) => (c :: before, after)

/-- The groups on one side of a double colon. -/
def readSide? (atEnd : Bool) (cs : List Char) : Option (List Nat) :=
  if cs.isEmpty then some [] else readGroups? atEnd (Text.pieces ':' cs)

/-- The eight groups of a number of version 6. A double colon stands for one or
    more groups of zeros. -/
def readVersion6? (cs : List Char) : Option (List Nat) :=
  match splitGap? cs with
  | none =>
    match readGroups? true (Text.pieces ':' cs) with
    | some groups => if groups.length = 8 then some groups else none
    | none => none
  | some (before, after) =>
    match readSide? false before, readSide? true after with
    | some head, some tail =>
      if head.length + tail.length < 8 then
        some (head ++ List.replicate (8 - head.length - tail.length) 0 ++ tail)
      else none
    | _, _ => none

-- ---------------------------------------------------------------------------
-- Hosts
-- ---------------------------------------------------------------------------

namespace Host

/-- A number of version 6, and after a percent sign that of an interface. -/
def readVersion6Zone? (cs : List Char) : Option Host :=
  match Text.splitFirst? '%' cs with
  | none => (readVersion6? cs).map (.version6 · 0)
  | some (number, zone) =>
    match readVersion6? number, readBase? 10 Text.maxHalfWord zone with
    | some groups, some zone => some (.version6 groups zone)
    | _, _ => none

/-- The longest part of a name. -/
def maxLabel : Nat := 63

/-- The longest name, without a dot at its end. -/
def maxHostName : Nat := 253

/-- Whether a text has the form of a name: labels of letters, digits, hyphens and
    underlines between dots, without a hyphen in front. -/
def isName (cs : List Char) : Bool :=
  let body := if cs.getLast? = some '.' then cs.dropLast else cs
  cs = ['.'] || (body.length ≤ maxHostName && body.head? != some '-' &&
    (Text.pieces '.' body).all fun label => !label.isEmpty && label.length ≤ maxLabel &&
      label.all fun c => c.isAlphanum || c = '-' || c = '_')

/-- What a host in square brackets stands for. -/
def inBrackets? : List Char → Option Host
  | '[' :: rest => if rest.getLast? = some ']' then readVersion6Zone? rest.dropLast else none
  | _ => none

/-- What a host stands for. The name `localhost` is that of a number of version
    4. -/
def ofString (host : String) : Host :=
  let cs := host.toList
  if isVersion4 cs || cs.map Char.toLower = "localhost".toList then .version4
  else
    match readVersion6Zone? cs with
    | some number => number
    | none => if isName cs then .name else .malformed

/-- How a connection to a host fails where there is no network: a number of
    version 6 lacks an own number to connect from, unless it is one of version 4
    in disguise or of many hosts, and a number of the nearest network needs an
    interface. -/
def failure : Host → SystemError
  | .version4 => .networkUnreachable
  | .version6 groups zone =>
    let first := groups.headD 0
    if groups.take 6 = [0, 0, 0, 0, 0, 0xFFFF] || 0xFF00 ≤ first then .networkUnreachable
    else if 0xFE80 ≤ first && first ≤ 0xFEBF && zone = 0 then .invalidArgument
    else .addressNotAvailable
  | .name => .unresolvedHost
  | .malformed => .unknownHost

end Host

end ConsoleScript.Rehearsal
