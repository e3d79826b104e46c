/-!
# Words

The bounds of the whole numbers that settings, documents and counters hold.
-/

namespace ChangeImpact

/-- The greatest number of 32 bits. -/
def maxWord32 : Nat := 4294967295

/-- The greatest number of 64 bits. -/
def maxWord64 : Nat := 18446744073709551615

end ChangeImpact
