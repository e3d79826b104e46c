import ChangeImpact.Decimal.Shortest
import ChangeImpact.Json.Value
import ChangeImpact.Word

/-!
# Numbers in JSON texts

* `Numeral` — a number as it is written;
* `Numeral.value?` — its value: a whole number of 64 bits, or a float. A float is computed from a
  significand of at most 64 bits, further digits being dropped, and one multiplication or division
  by a power of ten; a result beyond the floats is refused;
* `Number.text` — the text of a number; a float has the fewest digits that read back.
-/

namespace ChangeImpact.Json

/-- A number as it is written: sign, digits before and after the point, signed exponent. -/
structure Numeral where
  negative : Bool
  whole : List Nat
  fraction : Option (List Nat)
  exponent : Option (Bool × List Nat)
deriving DecidableEq, Repr

/-- Appends digits to a significand as long as it fits; the second part counts the digits left. -/
def appendDigits (significand : Nat) : List Nat → Nat × List Nat
  | [] => (significand, [])
  | d :: ds =>
    if maxWord64 < significand * 10 + d then (significand, d :: ds)
    else appendDigits (significand * 10 + d) ds

/-- The number that digits spell. -/
def ofDigits (ds : List Nat) : Nat :=
  ds.foldl (fun n d => n * 10 + d) 0

/-- The float nearest to `10^n`. -/
def powerOfTen (n : Nat) : Float :=
  Float.ofScientific 1 false n

/-- `x · 10^e`, in steps of at most 308 places; none when it leaves the floats. -/
def scaleFloat : Nat → Float → Int → Option Float
  | 0, x, _ => some x
  | fuel + 1, x, e =>
    if e.natAbs ≤ 308 then
      if 0 ≤ e then
        let y := x * powerOfTen e.natAbs
        if y.isInf then none else some y
      else some (x / powerOfTen e.natAbs)
    else if x == 0 then some x
    else if 0 ≤ e then none
    else scaleFloat fuel (x / powerOfTen 308) (e + 308)

/-- The float of a significand and a power of ten. -/
def floatOfParts (negative : Bool) (significand : Nat) (e : Int) : Option Float :=
  -- A significand of 64 bits is zero after at most four steps.
  (scaleFloat 8 significand.toUInt64.toFloat e).map fun x => if negative then -x else x

/-- Exponents as written are below this bound. -/
def maxExponent : Nat := 2147483647

/-- The value of a numeral that has a fraction, an exponent or too many digits. -/
def Numeral.float? (n : Numeral) : Option Float :=
  let (significand, left) := appendDigits 0 n.whole
  let digits := n.fraction.getD []
  let (significand, dropped) := appendDigits significand digits
  let shift : Int := left.length - (digits.length - dropped.length : Int)
  match n.exponent with
  | none => floatOfParts n.negative significand shift
  | some (negative, e) =>
    if maxExponent < ofDigits e then
      if significand ≠ 0 && !negative then none
      else some (if n.negative then -0.0 else 0.0)
    else
      let e : Int := ofDigits e
      floatOfParts n.negative significand (if negative then shift - e else shift + e)

/-- The value of a numeral. Minus zero is a float. -/
def Numeral.value? (n : Numeral) : Option Number :=
  let whole := ofDigits n.whole
  match n.fraction, n.exponent with
  | none, none =>
    if whole ≤ maxWord64 then
      if !n.negative then some (.int whole)
      else if whole ≠ 0 ∧ whole ≤ 9223372036854775808 then some (.int (-whole))
      else some (.float (-whole.toUInt64.toFloat))
    else n.float?.map .float
  | _, _ => n.float?.map .float

/-! ## Writing -/

/-- Positional up to 16 places before the point and 5 after it, else with an exponent. -/
def layout (digits : List Char) (exponent : Int) : List Char :=
  let n := digits.length
  -- The position of the point, counted from the first digit.
  let point : Int := n + exponent
  if 0 ≤ exponent ∧ point ≤ 16 then
    digits ++ List.replicate exponent.toNat '0' ++ ['.', '0']
  else if 0 < point ∧ point ≤ 16 then
    digits.take point.toNat ++ ['.'] ++ digits.drop point.toNat
  else if -5 < point ∧ point ≤ 0 then
    ['0', '.'] ++ List.replicate (-point).toNat '0' ++ digits
  else
    let e := (toString (point - 1)).toList
    match digits with
    | [d] => d :: 'e' :: e
    | d :: ds => d :: '.' :: ds ++ 'e' :: e
    | [] => []

/-- The text of a finite float. -/
def floatText (x : Float) : String :=
  let bits := x.toBits
  let sign := if bits >>> 63 == 1 then "-" else ""
  if bits &&& 0x7fffffffffffffff == 0 then sign ++ "0.0"
  else
    let s := Decimal.shortest (.ofBits bits)
    sign ++ String.ofList (layout (toString s.digits).toList s.exponent)

/-- The text of a number; floats that are no numbers are written `null`. -/
def Number.text : Number → String
  | .int n => toString n
  | .float x => if x.isFinite then floatText x else "null"

end ChangeImpact.Json
