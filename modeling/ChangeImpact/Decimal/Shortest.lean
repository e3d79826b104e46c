/-!
# The shortest decimal of a float

Every finite float is `m · 2^q`. The reals that round to it form an interval, whose ends belong to
it when `m` is even. Of the decimals in that interval those with the fewest digits are the shortest,
and of these the nearest to the value is chosen.

The search is exact: for 1, 2, … 17 digits it looks at the two neighbours of the value on the grid
of decimals with that many digits.
-/

namespace ChangeImpact.Decimal

/-- A positive finite float: `m · 2^(e - 1075)` with the exponent field `e` moved to be at least 1.
-/
structure Binary where
  mantissa : Nat
  exponent : Int
  /-- The gap below is half of the gap above. -/
  narrowBelow : Bool
deriving DecidableEq, Repr

/-- The magnitude of a finite float that is not zero. -/
def Binary.ofBits (bits : UInt64) : Binary :=
  let e := ((bits >>> 52) &&& 0x7ff).toNat
  let f := (bits &&& 0xfffffffffffff).toNat
  if e = 0 then ⟨f, -1074, false⟩ else ⟨f + 4503599627370496, e - 1075, f == 0 && e != 1⟩

/-- A decimal `digits · 10^exponent`. -/
structure Scientific where
  digits : Nat
  exponent : Int
deriving DecidableEq, Repr

/-- Numerator and denominator of `n · 2^q · 10^(-k)`. -/
def scaled (n : Nat) (q k : Int) : Nat × Nat :=
  (n * Nat.pow 2 q.toNat * Nat.pow 10 (-k).toNat, Nat.pow 2 (-q).toNat * Nat.pow 10 k.toNat)

/-- Whether `d · 10^k` rounds to the float. All bounds are taken times four, to stay whole. -/
def Binary.contains (b : Binary) (d : Nat) (k : Int) : Bool :=
  let (high, den) := scaled (4 * b.mantissa + 2) b.exponent k
  let (low, _) := scaled (4 * b.mantissa - (if b.narrowBelow then 1 else 2)) b.exponent k
  let x := 4 * d * den
  if b.mantissa % 2 = 0 then low ≤ x && x ≤ high else low < x && x < high

/-- The nearest of the decimals `d · 10^k` that round to the float. -/
def Binary.onGrid (b : Binary) (k : Int) : Option Scientific :=
  let (num, den) := scaled b.mantissa b.exponent k
  let below := num / den
  let above := below + 1
  let nearBelow := 2 * (num - below * den) < den ||
    (2 * (num - below * den) == den && below % 2 == 0)
  let first := if nearBelow then below else above
  let second := if nearBelow then above else below
  if first ≠ 0 && b.contains first k then some ⟨first, k⟩
  else if second ≠ 0 && b.contains second k then some ⟨second, k⟩
  else none

/-- The power of ten below the value: the `p` with `10^p ≤ m · 2^q < 10^(p + 1)`. -/
def Binary.magnitude (b : Binary) : Int :=
  -- Between -324 and 308 for every float; the estimate from the bit length is at most one too
  -- small.
  let bits : Int := b.exponent + Nat.log2 b.mantissa
  let guess := bits * 30103 / 100000 - 1
  let (num, den) := scaled b.mantissa b.exponent (guess + 2)
  if den ≤ num then guess + 2
  else
    let (num, den) := scaled b.mantissa b.exponent (guess + 1)
    if den ≤ num then guess + 1 else guess

/-- The first grid, from the coarsest on, that holds a decimal of the float. -/
def Binary.search (b : Binary) (p : Int) : List Nat → Scientific
  | [] => ⟨b.mantissa, 0⟩
  | n :: ns =>
    match b.onGrid (p - n) with
    | some s => s
    | none => b.search p ns

/-- Removes trailing zeros. -/
def Scientific.strip (s : Scientific) : Nat → Scientific
  | 0 => s
  | fuel + 1 =>
    if s.digits ≠ 0 && s.digits % 10 == 0 then strip ⟨s.digits / 10, s.exponent + 1⟩ fuel else s

/-- The shortest decimal of a positive finite float. -/
def shortest (b : Binary) : Scientific :=
  ((b.search b.magnitude (List.range 18)).strip 20)

end ChangeImpact.Decimal
