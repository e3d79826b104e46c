/-!
# Hexadecimal digits

* `hexDigit?` — the value of a digit;
* `hexDigit` — the digit of a value.
-/

namespace ChangeImpact.Text

/-- The value of a hexadecimal digit, of either case. -/
def hexDigit? (c : Char) : Option Nat :=
  if '0' ≤ c ∧ c ≤ '9' then some (c.toNat - '0'.toNat)
  else if 'a' ≤ c ∧ c ≤ 'f' then some (c.toNat - 'a'.toNat + 10)
  else if 'A' ≤ c ∧ c ≤ 'F' then some (c.toNat - 'A'.toNat + 10)
  else none

/-- The digit of a number below 16; `ten` is the letter that stands for ten, `a` or `A`. -/
def hexDigit (ten : Char) (n : Nat) : Char :=
  if n < 10 then Char.ofNat ('0'.toNat + n) else Char.ofNat (ten.toNat + (n - 10))

end ChangeImpact.Text
