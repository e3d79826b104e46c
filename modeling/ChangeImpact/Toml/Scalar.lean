import ChangeImpact.Time.Date
import ChangeImpact.Toml.Value

/-!
# Numbers, truth values and moments in TOML

A scalar is one word, except that a day and a time may be divided by a blank.

* `decimal?`, `based?` — whole numbers of 64 bits, in base ten or with a base in front;
* `isFloat` — numbers with a fraction or an exponent, up to the greatest double;
* `isMoment` — days, times and both together;
* `Toml.ofWord?` — the value of a word.
-/

namespace ChangeImpact.Toml

/-! ## Digits -/

/-- The value of a digit in a base of at most 16. -/
def digitValue? (base : Nat) (c : Char) : Option Nat :=
  let value? :=
    if '0' ≤ c ∧ c ≤ '9' then some (c.toNat - '0'.toNat)
    else if 'a' ≤ c ∧ c ≤ 'f' then some (c.toNat - 'a'.toNat + 10)
    else if 'A' ≤ c ∧ c ≤ 'F' then some (c.toNat - 'A'.toNat + 10)
    else none
  value?.filter (· < base)

/-- Digits, with a single underscore allowed between two of them. -/
def digits? (base : Nat) : List Char → Option (List Nat)
  | [] => none
  | [c] => (digitValue? base c).map ([·])
  | c :: '_' :: cs => do
    let d ← digitValue? base c
    let ds ← digits? base cs
    some (d :: ds)
  | c :: cs => do
    let d ← digitValue? base c
    let ds ← digits? base cs
    some (d :: ds)

/-- The number that digits spell. -/
def ofDigits (base : Nat) (ds : List Nat) : Nat :=
  ds.foldl (fun n d => n * base + d) 0

/-- A sign, and what follows it. -/
def cutSign : List Char → Bool × List Char
  | '-' :: cs => (true, cs)
  | '+' :: cs => (false, cs)
  | cs => (false, cs)

/-! ## Whole numbers -/

/-- The greatest whole number. -/
def maxInt : Int := 9223372036854775807

/-- The least whole number. -/
def minInt : Int := -9223372036854775808

/-- A whole number, if it is in range. -/
def inRange? (n : Int) : Option Int :=
  if minInt ≤ n ∧ n ≤ maxInt then some n else none

/-- Digits of base ten without a needless zero in front. -/
def wholeDigits? (cs : List Char) : Option (List Nat) := do
  let ds ← digits? 10 cs
  match cs with
  | '0' :: _ :: _ => none
  | _ => some ds

/-- A whole number in base ten. -/
def decimal? (cs : List Char) : Option Int := do
  let (negative, cs) := cutSign cs
  let n : Int := ofDigits 10 (← wholeDigits? cs)
  inRange? (if negative then -n else n)

/-- A whole number with its base in front. -/
def based? : List Char → Option Int
  | '0' :: 'x' :: cs => do inRange? (ofDigits 16 (← digits? 16 cs))
  | '0' :: 'o' :: cs => do inRange? (ofDigits 8 (← digits? 8 cs))
  | '0' :: 'b' :: cs => do inRange? (ofDigits 2 (← digits? 2 cs))
  | _ => none

/-! ## Floats -/

/-- From here on a number is nearer to infinity than to the greatest double. -/
def floatBound : Nat := Nat.pow 2 1024 - Nat.pow 2 970

/-- Whether `m · 10^e` reaches the bound of the doubles. Far from the bound the number of digits
decides. -/
def overflows (m : Nat) (e : Int) : Bool :=
  let size : Int := (toString m).length + e
  m != 0 &&
    if size < 300 then false
    else if 320 < size then true
    else if 0 ≤ e then floatBound ≤ m * Nat.pow 10 e.toNat
    else floatBound * Nat.pow 10 (-e).toNat ≤ m

/-- The exponent behind its mark. -/
def exponent? (cs : List Char) : Option Int := do
  let (negative, cs) := cutSign cs
  let n : Int := ofDigits 10 (← digits? 10 cs)
  some (if negative then -n else n)

/-- The parts of a number before and behind its exponent mark. -/
def cutExponent (cs : List Char) : List Char × Option (List Char) :=
  let isMark (c : Char) := c == 'e' || c == 'E'
  (cs.takeWhile (!isMark ·), (cs.dropWhile (!isMark ·)).tail?)

/-- The parts of a number before and behind its point. -/
def cutPoint (cs : List Char) : List Char × Option (List Char) :=
  (cs.takeWhile (· != '.'), (cs.dropWhile (· != '.')).tail?)

/-- Whether a word is a number with a fraction, an exponent or both. -/
def isFloat (cs : List Char) : Bool :=
  let (negative, body) := cutSign cs
  let (front, exponent) := cutExponent body
  let (whole, fraction) := cutPoint front
  let parsed : Option Bool := do
    let ws ← wholeDigits? whole
    let fs ← match fraction with
      | none => some []
      | some fs => digits? 10 fs
    let e ← match exponent with
      | none => some 0
      | some e => exponent? e
    some (negative || !overflows (ofDigits 10 (ws ++ fs)) (e - fs.length))
  (fraction.isSome || exponent.isSome) && parsed.getD false

/-- Whether a word is one of the floats that are no numbers. -/
def isSpecialFloat (cs : List Char) : Bool :=
  let body := (cutSign cs).2
  body == ['i', 'n', 'f'] || body == ['n', 'a', 'n']

/-! ## Moments -/

/-- A number of exactly two digits. -/
def pair? (a b : Char) : Option Nat := do
  some ((← digitValue? 10 a) * 10 + (← digitValue? 10 b))

/-- Whether the numbers of an hour and a minute are in range. -/
def isHourMinute (h₁ h₂ m₁ m₂ : Char) : Bool :=
  ((pair? h₁ h₂).any (· ≤ 23)) && ((pair? m₁ m₂).any (· ≤ 59))

/-- Drops a fraction of a second. -/
def dropFraction : List Char → Option (List Char)
  | '.' :: cs =>
    if (cs.takeWhile Char.isDigit).isEmpty then none else some (cs.dropWhile Char.isDigit)
  | cs => some cs

/-- A time of the day; the rest is what follows it. -/
def time? : List Char → Option (List Char)
  | h₁ :: h₂ :: ':' :: m₁ :: m₂ :: ':' :: s₁ :: s₂ :: cs =>
    if isHourMinute h₁ h₂ m₁ m₂ && (pair? s₁ s₂).any (· ≤ 60) then dropFraction cs else none
  | _ => none

/-- Whether the characters are an offset from universal time, or none. -/
def isOffset : List Char → Bool
  | [] => true
  | ['Z'] => true
  | ['z'] => true
  | [sign, h₁, h₂, ':', m₁, m₂] => (sign == '+' || sign == '-') && isHourMinute h₁ h₂ m₁ m₂
  | _ => false

/-- A day; the rest is what follows it. -/
def day? : List Char → Option (List Char)
  | y₁ :: y₂ :: y₃ :: y₄ :: '-' :: m₁ :: m₂ :: '-' :: d₁ :: d₂ :: cs => do
    let year := (← pair? y₁ y₂) * 100 + (← pair? y₃ y₄)
    let _ ← Date.ofParts? year (← pair? m₁ m₂) (← pair? d₁ d₂)
    some cs
  | _ => none

/-- Whether a word is a day alone. -/
def isDay (cs : List Char) : Bool :=
  day? cs == some []

/-- Whether a word is a time, which may have an offset. -/
def isOffsetTime (cs : List Char) : Bool :=
  (time? cs).any isOffset

/-- Whether a word is a day, a time, or both with an optional offset. -/
def isMoment (cs : List Char) : Bool :=
  match day? cs with
  | some [] => true
  | some (mark :: cs) => (mark == 'T' || mark == 't') && isOffsetTime cs
  | none => time? cs == some []

/-! ## Words -/

/-- The value of a word. -/
def ofWord? (cs : List Char) : Option Toml :=
  if cs = ['t', 'r', 'u', 'e'] then some (.bool true)
  else if cs = ['f', 'a', 'l', 's', 'e'] then some (.bool false)
  else
    match (decimal? cs).or (based? cs) with
    | some n => some (.int n)
    | none =>
      if isFloat cs || isSpecialFloat cs then some (.float (String.ofList cs))
      else if isMoment cs then some (.moment (String.ofList cs))
      else none

end ChangeImpact.Toml
