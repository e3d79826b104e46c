import ChangeImpact.Time.Instant

/-!
# Reading points in time

`Instant.parse?` reads a day, a time and an offset from UTC, such as `2024-05-01T10:00:00+02:00`.
Numbers may be short and have blanks before them, the offset may be `Z` or `UTC`, and the second 60
is a leap second.
-/

namespace ChangeImpact.Instant

/-- Drops blanks. -/
def skipBlanks (cs : List Char) : List Char :=
  cs.dropWhile Text.isBlank

/-- Reads a number of at most two digits up to `limit`, blanks before it allowed. -/
def scanUnit (limit : Nat) (cs : List Char) : Option (Nat × List Char) :=
  match Date.scanNumber (some 2) (skipBlanks cs) with
  | .ok (n, rest) => if n ≤ limit then some (n, rest) else none
  | .error _ => none

/-- Reads the given character, blanks before it allowed. -/
def scanMark (mark : Char) (cs : List Char) : Option (List Char) :=
  match skipBlanks cs with
  | c :: cs => if c = mark then some cs else none
  | [] => none

/-- Reads year, month and day; blanks may stand around the dashes. -/
def scanDay (cs : List Char) : Option (Date × List Char) := do
  let (year, rest) ← (Date.scanYear cs).toOption
  let rest ← scanMark '-' rest
  let (month, rest) ← scanUnit 12 rest
  let rest ← scanMark '-' rest
  let (day, rest) ← scanUnit 31 rest
  some (← Date.ofParts? year month day, rest)

/-- Reads a fraction of a second as nanoseconds; digits beyond the ninth are dropped. -/
def scanFraction : List Char → Option (Nat × List Char)
  | '.' :: cs =>
    let digits := cs.takeWhile Char.isDigit
    if digits.isEmpty then none
    else
      let nine := (digits ++ List.replicate 9 '0').take 9
      some (nine.foldl (fun n c => n * 10 + (c.toNat - '0'.toNat)) 0, cs.dropWhile Char.isDigit)
  | cs => some (0, cs)

/-- A time of the day: its second, and nanoseconds, which go beyond a second in a leap second. -/
def scanTime (cs : List Char) : Option ((Nat × Nat) × List Char) := do
  let (hour, rest) ← scanUnit 23 cs
  let rest ← scanMark ':' rest
  let (minute, rest) ← scanUnit 59 rest
  let rest ← scanMark ':' rest
  let (second, rest) ← scanUnit 60 rest
  let (nanos, rest) ← scanFraction rest
  let leap := if second = 60 then 1 else 0
  some ((hour * 3600 + minute * 60 + second - leap, nanos + leap * 1000000000), rest)

/-- The number of two digits. -/
def twoDigits? (a b : Char) : Option Nat :=
  if a.isDigit && b.isDigit then
    some ((a.toNat - '0'.toNat) * 10 + (b.toNat - '0'.toNat))
  else none

/-- Hours and minutes of an offset, in seconds; colons and blanks may divide them. -/
def scanHours : List Char → Option (Nat × List Char)
  | h₁ :: h₂ :: cs => do
    let hours ← twoDigits? h₁ h₂
    match cs.dropWhile fun c => c == ':' || Text.isBlank c with
    | m₁ :: m₂ :: cs => do
      let minutes ← twoDigits? m₁ m₂
      if minutes ≤ 59 then some (hours * 3600 + minutes * 60, cs) else none
    | _ => none
  | _ => none

/-- Reads an offset from UTC in seconds. It is less than a day. -/
def scanOffset (cs : List Char) : Option (Int × List Char) := do
  match cs with
  | 'Z' :: cs => some (0, cs)
  | 'z' :: cs => some (0, cs)
  | sign :: rest =>
    if (cs.take 3).map Char.toUpper = ['U', 'T', 'C'] then some (0, cs.drop 3)
    else
      let (offset, rest) ← scanHours rest
      if 86400 ≤ offset then none
      else if sign = '+' then some (offset, rest)
      else if sign = '-' ∨ sign = '−' then some (-(offset : Int), rest)
      else none
  | [] => none

/-- The point in time that a text names. -/
def parse? (text : String) : Option Instant := do
  let (day, rest) ← scanDay text.toList
  match rest with
  | mark :: rest =>
    if mark = 'T' ∨ mark = 't' ∨ mark = ' ' then
      let ((second, nanos), rest) ← scanTime rest
      let (offset, rest) ← scanOffset (skipBlanks rest)
      let seconds : Int := day.dayNumber * 86400 + second - offset
      if skipBlanks rest ≠ [] then none
      else (ofSeconds? seconds).map fun t => { t with nanos }
    else none
  | [] => none

end ChangeImpact.Instant
