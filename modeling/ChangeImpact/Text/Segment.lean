/-!
# Segments of a text

Names in this library are dotted or dollar-separated texts. This module holds the few questions
asked of them:

* `hasPrefix`, `hasSuffix`, `hasInfix` — does a text begin with, end with or contain another;
* `cutLast` — the two sides of the last occurrence of a separator;
* `afterLast` — what follows that occurrence, or the whole text when there is none.

All of them are defined on lists of characters by structural recursion.
-/

namespace ChangeImpact.Text

/-! ## Beginning, end, inside -/

/-- Whether the characters of `p` stand somewhere in the list as one block. -/
def infixOf (p : List Char) : List Char → Bool
  | [] => p.isEmpty
  | c :: cs => p.isPrefixOf (c :: cs) || infixOf p cs

theorem infixOf_iff {p s : List Char} : infixOf p s = true ↔ p <:+: s := by
  induction s with
  | nil => simp [infixOf]
  | cons c cs ih =>
    rw [infixOf, Bool.or_eq_true, List.isPrefixOf_iff_prefix, ih, List.infix_cons_iff]

/-- Whether the text begins with `p`. -/
def hasPrefix (p s : String) : Bool :=
  p.toList.isPrefixOf s.toList

/-- Whether the text ends with `p`. -/
def hasSuffix (p s : String) : Bool :=
  p.toList.isSuffixOf s.toList

/-- Whether the text contains `p`. -/
def hasInfix (p s : String) : Bool :=
  infixOf p.toList s.toList

/-! ## Cutting at the last separator -/

/-- The characters before and after the last occurrence of `sep`. -/
def splitLast (sep : List Char) : List Char → Option (List Char × List Char)
  | [] => none
  | c :: cs =>
    match splitLast sep cs with
    | some (before, after) => some (c :: before, after)
    | none => if sep.isPrefixOf (c :: cs) then some ([], (c :: cs).drop sep.length) else none

/-- Nothing is lost: the two sides and the separator make up the text. -/
theorem splitLast_append {sep s before after : List Char}
    (h : splitLast sep s = some (before, after)) : before ++ sep ++ after = s := by
  induction s generalizing before after with
  | nil => simp [splitLast] at h
  | cons c cs ih =>
    rw [splitLast] at h
    split at h
    · rename_i b a hs
      simp only [Option.some.injEq, Prod.mk.injEq] at h
      obtain ⟨rfl, rfl⟩ := h
      simp [← ih hs]
    · split at h
      · rename_i hp
        simp only [Option.some.injEq, Prod.mk.injEq] at h
        obtain ⟨rfl, rfl⟩ := h
        obtain ⟨t, ht⟩ := List.isPrefixOf_iff_prefix.1 hp
        rw [← ht]
        simp
      · simp at h

/-- The texts before and after the last occurrence of `sep`. -/
def cutLast (sep s : String) : Option (String × String) :=
  (splitLast sep.toList s.toList).map fun (before, after) =>
    (String.ofList before, String.ofList after)

/-- The text after the last occurrence of `sep`, or the whole text when there is none. -/
def afterLast (sep s : String) : String :=
  match cutLast sep s with
  | some (_, after) => after
  | none => s

/-! ## Replacing characters -/

/-- The text with every occurrence of one character written as another. -/
def replaceChar (old new : Char) (s : String) : String :=
  String.ofList (s.toList.map fun c => if c = old then new else c)

end ChangeImpact.Text
