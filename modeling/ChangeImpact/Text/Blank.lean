/-!
# Blank characters

The characters with the Unicode property `White_Space`, and cutting them off a text.

* `isBlank` — the property, as a closed table;
* `trim`, `trimEnd` — the text without the blank characters at both ends, or at its end.
-/

namespace ChangeImpact.Text

/-- The property `White_Space`. -/
def isBlank (c : Char) : Bool :=
  let n := c.toNat
  (9 ≤ n && n ≤ 13) || n == 0x20 || n == 0x85 || n == 0xA0 || n == 0x1680 ||
    (0x2000 ≤ n && n ≤ 0x200A) || n == 0x2028 || n == 0x2029 || n == 0x202F || n == 0x205F ||
    n == 0x3000

/-- The codes of digits. -/
theorem toNat_of_isDigit {c : Char} (h : c.isDigit = true) : 48 ≤ c.toNat ∧ c.toNat ≤ 57 := by
  simp only [Char.isDigit, Bool.and_eq_true, decide_eq_true_eq, ge_iff_le,
    UInt32.le_iff_toNat_le] at h
  exact h

theorem isBlank_of_isDigit {c : Char} (h : c.isDigit = true) : isBlank c = false := by
  obtain ⟨hmin, hmax⟩ := toNat_of_isDigit h
  simp only [isBlank, Bool.or_eq_false_iff, Bool.and_eq_false_iff, decide_eq_false_iff_not,
    beq_eq_false_iff_ne]
  omega

/-- The characters without the blank ones at the end. -/
def dropBlankEnd (s : List Char) : List Char :=
  (s.reverse.dropWhile isBlank).reverse

/-- The text without the blank characters at its end. -/
def trimEnd (s : String) : String :=
  String.ofList (dropBlankEnd s.toList)

/-- The text without the blank characters at both ends. -/
def trim (s : String) : String :=
  String.ofList (dropBlankEnd (s.toList.dropWhile isBlank))

end ChangeImpact.Text
