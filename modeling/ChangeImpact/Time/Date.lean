import ChangeImpact.Text.Blank

/-!
# Calendar days

Days of the Gregorian calendar, extended to all years.

* `Date.ofParts?` — checks month, day and the range of years;
* `Date.ofDayNumber`, `Date.dayNumber` — days counted from 1970-01-01;
* `Date.parse` — reads `YYYY-MM-DD`; `Date.text` — writes it;
* the order of days.
-/

namespace ChangeImpact

/-- A calendar day. -/
structure Date where
  year : Int
  month : Nat
  day : Nat
deriving DecidableEq, Repr

namespace Date

/-- Divisible by 4, but by 100 only if by 400. -/
def isLeap (year : Int) : Bool :=
  year % 4 == 0 && (year % 100 != 0 || year % 400 == 0)

/-- The number of days of a month. -/
def daysInMonth (year : Int) (month : Nat) : Nat :=
  if month = 2 then if isLeap year then 29 else 28
  else if month = 4 ∨ month = 6 ∨ month = 9 ∨ month = 11 then 30
  else 31

/-- The first year that is represented. -/
def minYear : Int := -262143

/-- The last year that is represented. -/
def maxYear : Int := 262142

/-- The day of the given parts, if there is one. -/
def ofParts? (year : Int) (month day : Nat) : Option Date :=
  if minYear ≤ year ∧ year ≤ maxYear ∧ 1 ≤ month ∧ month ≤ 12 ∧ 1 ≤ day ∧
      day ≤ daysInMonth year month then
    some ⟨year, month, day⟩
  else none

/-! ## Day numbers -/

/-- The number of a day, 1970-01-01 having 0. Years are counted from March, in eras of 400. -/
def dayNumber (d : Date) : Int :=
  let y := if d.month ≤ 2 then d.year - 1 else d.year
  let era := y / 400
  let yearOfEra := y % 400
  let monthFromMarch : Int := (d.month + 9) % 12
  let dayOfYear := (153 * monthFromMarch + 2) / 5 + d.day - 1
  era * 146097 + yearOfEra * 365 + yearOfEra / 4 - yearOfEra / 100 + dayOfYear - 719468

/-- The day of a number. -/
def ofDayNumber (n : Int) : Date :=
  let z := n + 719468
  let era := z / 146097
  let dayOfEra := z % 146097
  let yearOfEra := (dayOfEra - dayOfEra / 1460 + dayOfEra / 36524 - dayOfEra / 146096) / 365
  let dayOfYear := dayOfEra - (365 * yearOfEra + yearOfEra / 4 - yearOfEra / 100)
  let monthFromMarch := (5 * dayOfYear + 2) / 153
  let day := dayOfYear - (153 * monthFromMarch + 2) / 5 + 1
  let month := if monthFromMarch < 10 then monthFromMarch + 3 else monthFromMarch - 9
  let year := yearOfEra + era * 400 + (if month ≤ 2 then 1 else 0)
  ⟨year, month.toNat, day.toNat⟩

/-! ## Order -/

/-- By year, month and day. -/
instance : Ord Date where
  compare a b :=
    (compare a.year b.year).then ((compare a.month b.month).then (compare a.day b.day))

/-- Whether a day comes before another. -/
def isBefore (a b : Date) : Bool :=
  compare a b == .lt

/-! ## Text -/

/-- A number in at least `width` digits. -/
def padded (width n : Nat) : String :=
  let digits := (toString n).toList
  String.ofList (List.replicate (width - digits.length) '0' ++ digits)

/-- A year: four digits, with a sign outside of 0 to 9999. -/
def yearText (year : Int) : String :=
  if 0 ≤ year ∧ year ≤ 9999 then padded 4 year.toNat
  else (if year < 0 then "-" else "+") ++ padded 4 year.natAbs

/-- `YYYY-MM-DD`. -/
def text (d : Date) : String :=
  yearText d.year ++ "-" ++ padded 2 d.month ++ "-" ++ padded 2 d.day

/-- Why a text is no day. -/
inductive ParseError where
  | invalid
  | tooShort
  | tooLong
  | outOfRange
deriving DecidableEq, Repr

/-- The wording of a failure. -/
def ParseError.message : ParseError → String
  | invalid => "input contains invalid characters"
  | tooShort => "premature end of input"
  | tooLong => "trailing input"
  | outOfRange => "input is out of range"

/-- The greatest number that digits may spell. -/
def maxNumber : Nat := 9223372036854775807

/-- Reads digits, at most `width` of them; `n` is what has been read. -/
def scanDigits (width : Option Nat) (n : Nat) : List Char → Except ParseError (Nat × List Char)
  | [] => .ok (n, [])
  | c :: cs =>
    if width = some 0 ∨ !c.isDigit then .ok (n, c :: cs)
    else
      let n := n * 10 + (c.toNat - '0'.toNat)
      if maxNumber < n then .error .outOfRange else scanDigits (width.map (· - 1)) n cs

/-- Reads a number of at least one digit. -/
def scanNumber (width : Option Nat) : List Char → Except ParseError (Nat × List Char)
  | [] => .error .tooShort
  | c :: cs => if c.isDigit then scanDigits width 0 (c :: cs) else .error .invalid

/-- Reads a year: with a sign any number of digits, else at most four. -/
def scanYear (cs : List Char) : Except ParseError (Int × List Char) := do
  let (year, rest) ← match cs.dropWhile Text.isBlank with
    | '-' :: cs => do
      let (n, rest) ← scanNumber none cs
      pure (-(n : Int), rest)
    | '+' :: cs => do
      let (n, rest) ← scanNumber none cs
      pure ((n : Int), rest)
    | cs => do
      let (n, rest) ← scanNumber (some 4) cs
      pure ((n : Int), rest)
  if -2147483648 ≤ year ∧ year ≤ 2147483647 then .ok (year, rest) else .error .outOfRange

/-- Reads a number of at most two digits between 1 and `limit`, blanks before it allowed. -/
def scanPart (limit : Nat) (cs : List Char) : Except ParseError (Nat × List Char) := do
  let (n, rest) ← scanNumber (some 2) (cs.dropWhile Text.isBlank)
  if 1 ≤ n ∧ n ≤ limit then .ok (n, rest) else .error .outOfRange

/-- Reads the given character. -/
def scanChar (expected : Char) : List Char → Except ParseError (List Char)
  | [] => .error .tooShort
  | c :: cs => if c = expected then .ok cs else .error .invalid

/-- Reads year, month and day. -/
def scan (cs : List Char) : Except ParseError ((Int × Nat × Nat) × List Char) := do
  let (year, rest) ← scanYear cs
  let rest ← scanChar '-' rest
  let (month, rest) ← scanPart 12 rest
  let rest ← scanChar '-' rest
  let (day, rest) ← scanPart 31 rest
  .ok ((year, month, day), rest)

/-- Reads `YYYY-MM-DD`. Blanks may stand before each number. -/
def parse (s : String) : Except ParseError Date := do
  let ((year, month, day), rest) ← scan s.toList
  if rest ≠ [] then .error .tooLong
  else
    match ofParts? year month day with
    | some d => .ok d
    | none => .error .outOfRange

end Date

end ChangeImpact
