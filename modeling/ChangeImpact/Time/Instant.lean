import ChangeImpact.Time.Date

/-!
# Points in time

Seconds since 1970-01-01 in UTC, with nanoseconds. A leap second is the second before it with more
than 10^9 nanoseconds.
-/

namespace ChangeImpact

/-- A point in time. -/
structure Instant where
  seconds : Int
  nanos : Nat
deriving DecidableEq, Repr

namespace Instant

instance : Inhabited Instant := ⟨⟨0, 0⟩⟩

/-- A whole second. -/
def ofSeconds (s : Int) : Instant := ⟨s, 0⟩

/-- The first second of the first year that is represented. -/
def minSeconds : Int := -8334601228800

/-- The last second of the last year that is represented. -/
def maxSeconds : Int := 8210266876799

/-- A whole second of a year that is represented. -/
def ofSeconds? (s : Int) : Option Instant :=
  if minSeconds ≤ s ∧ s ≤ maxSeconds then some ⟨s, 0⟩ else none

/-- The day in UTC. -/
def date (t : Instant) : Date :=
  .ofDayNumber (t.seconds / 86400)

/-- The earlier first. -/
instance : Ord Instant where
  compare a b := (compare a.seconds b.seconds).then (compare a.nanos b.nanos)

/-- The fraction of a second: nothing, or three, six or nine digits. -/
def fractionText (nanos : Nat) : String :=
  if nanos = 0 then ""
  else if nanos % 1000000 = 0 then "." ++ Date.padded 3 (nanos / 1000000)
  else if nanos % 1000 = 0 then "." ++ Date.padded 6 (nanos / 1000)
  else "." ++ Date.padded 9 nanos

/-- The text `YYYY-MM-DDThh:mm:ssZ`. -/
def text (t : Instant) : String :=
  let second := (t.seconds % 86400).toNat
  let leap := t.nanos / 1000000000
  t.date.text ++ "T" ++ Date.padded 2 (second / 3600) ++ ":" ++
    Date.padded 2 (second / 60 % 60) ++ ":" ++ Date.padded 2 (second % 60 + leap) ++
    fractionText (t.nanos % 1000000000) ++ "Z"

end Instant

end ChangeImpact
