-- SUMMARY: Dates and times of day of a moment counted in seconds from 1970, and their formats.

/-!
# Calendar

A moment is the number of seconds since the start of 1970, in universal time.
`DateTime.ofSeconds` gives its date in the Gregorian calendar, which is carried
on in both directions. There are no time zones: the local time of a clock is
taken to be universal time.
-/

namespace ConsoleScript

/-- A date and a time of day. -/
structure DateTime where
  year : Int
  month : Nat
  day : Nat
  hour : Nat
  minute : Nat
  second : Nat
  deriving DecidableEq, Repr

namespace DateTime

/-- The moment `seconds` after the start of 1970. Years are counted from March
    here, so that the leap day is the last day of a year, and in cycles of 400
    years, which all have the same number of days. -/
def ofSeconds (seconds : Int) : DateTime :=
  let day := seconds.fdiv 86400
  let secondOfDay := (seconds - day * 86400).toNat
  let fromMarch := day + 719468
  let cycle := fromMarch.fdiv 146097
  let dayOfCycle := (fromMarch - cycle * 146097).toNat
  let yearOfCycle :=
    (dayOfCycle - dayOfCycle / 1460 + dayOfCycle / 36524 - dayOfCycle / 146096) / 365
  let dayOfYear := dayOfCycle - (365 * yearOfCycle + yearOfCycle / 4 - yearOfCycle / 100)
  let monthFromMarch := (5 * dayOfYear + 2) / 153
  let month := if monthFromMarch < 10 then monthFromMarch + 3 else monthFromMarch - 9
  { year := Int.ofNat yearOfCycle + cycle * 400 + (if month ≤ 2 then 1 else 0)
    month
    day := dayOfYear - (153 * monthFromMarch + 2) / 5 + 1
    hour := secondOfDay / 3600
    minute := secondOfDay / 60 % 60
    second := secondOfDay % 60 }

/-- A number with zeros in front up to `width` digits. -/
def padded (width n : Nat) : String :=
  let digits := toString n
  String.ofList (List.replicate (width - digits.length) '0') ++ digits

/-- A year in four digits, with a sign if it needs more or lies before year 0. -/
def yearText (year : Int) : String :=
  if 0 ≤ year ∧ year ≤ 9999 then padded 4 year.toNat
  else (if year < 0 then "-" else "+") ++ padded 4 year.natAbs

/-- A date such as `2023-11-14`, with `sep` between its parts. -/
def dateText (t : DateTime) (sep : String) : String :=
  yearText t.year ++ sep ++ padded 2 t.month ++ sep ++ padded 2 t.day

/-- A time of day such as `22:13:20`, with `sep` between its parts. -/
def timeText (t : DateTime) (sep : String) : String :=
  padded 2 t.hour ++ sep ++ padded 2 t.minute ++ sep ++ padded 2 t.second

end DateTime

end ConsoleScript
