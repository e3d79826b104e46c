import ChangeImpact.Text.Lowercase
import ChangeImpact.Text.Segment

/-!
# Words in a text, whatever their case

A word is sought in a text by lowering all of the text. Beyond ASCII two characters have letters
among their lower-case forms: the Kelvin sign becomes `k`, and `İ` becomes `i` with a dot behind it.
A word without a `k` that does not end in `i` is therefore found exactly where it is written in
ASCII letters.

* `isPlain`, `IsPlainWord` — the letters that have no other origin, and the words made of them;
* `LoweredTo`, `lowerFrom_cons` — what one character becomes;
* `hasInfix_lowercase_iff` — where a plain word is found.
-/

namespace ChangeImpact.Text

/-- The text contains the word, small and capital ASCII letters being the same. -/
def ContainsIgnoringCase (word text : String) : Prop :=
  ∃ part : List Char, part <:+: text.toList ∧ part.map Char.toLower = word.toList

/-! ## One character -/

/-- The small letters that only ASCII letters are lowered to, `i` being one with an exception. -/
def isPlain (c : Char) : Bool := c.isLower && c != 'k'

/-- The dot that is left of `İ` beside an `i`. -/
def dotAbove : Char := Char.ofNat 0x307

/-- What a character may become: an ASCII letter its small form, and the others something with no
plain letter in it, but for `İ`. -/
inductive LoweredTo (c : Char) : List Char → Prop
  | ascii (h : c.toNat < 128) : LoweredTo c [c.toLower]
  | dotted : LoweredTo c ['i', dotAbove]
  | other {d : Char} (h : isPlain d = false) : LoweredTo c [d]

theorem toNat_lt_of_isPlain {c : Char} (h : isPlain c = true) : 0 < c.toNat ∧ c.toNat < 128 := by
  obtain ⟨hlower, -⟩ := Bool.and_eq_true_iff.1 h
  obtain ⟨hmin, hmax⟩ := Bool.and_eq_true_iff.1 hlower
  have hmin : 'a'.toNat ≤ c.toNat := of_decide_eq_true hmin
  have hmax : c.toNat ≤ 'z'.toNat := of_decide_eq_true hmax
  exact ⟨Nat.lt_of_lt_of_le (by decide) hmin, Nat.lt_of_le_of_lt hmax (by decide)⟩

/-- A character is plain only if its number is below 128. -/
theorem isPlain_ofNat {n : Nat} (h : 128 ≤ n) : isPlain (Char.ofNat n) = false := by
  rw [Bool.eq_false_iff]
  intro hplain
  have hbounds := toNat_lt_of_isPlain hplain
  by_cases hvalid : n.isValidChar
  · have hchar : Char.ofNat n = Char.ofNatAux n hvalid := dif_pos hvalid
    rw [hchar] at hbounds
    have hsmall : n < 128 := hbounds.2
    omega
  · -- a number that is no character stands for the first one
    have hfirst : Char.ofNat n = '\x00' := dif_neg hvalid
    rw [hfirst] at hbounds
    exact absurd hbounds.1 (by decide)

/-- The run of the Kelvin sign alone leads back into ASCII. -/
theorem lowerRuns_beyond : ∀ r ∈ lowerRuns, 128 ≤ (r.first : Int) + r.shift ∨
    r = ⟨0x212A, 0x212A, 1, -8383⟩ := by
  decide +kernel

/-- A capital letter beyond ASCII becomes no plain letter. -/
theorem isPlain_of_covers {r : LowerRun} {n : Nat} (hr : r ∈ lowerRuns) (h : r.covers n = true) :
    isPlain (Char.ofNat ((n : Int) + r.shift).toNat) = false := by
  unfold LowerRun.covers at h
  simp only [Bool.and_eq_true, decide_eq_true_eq] at h
  obtain ⟨⟨hfirst, hlast⟩, -⟩ := h
  rcases lowerRuns_beyond r hr with hbeyond | rfl
  · exact isPlain_ofNat (by omega)
  · obtain rfl : n = 0x212A := Nat.le_antisymm hlast hfirst
    decide

theorem loweredTo_lowerChar (c : Char) : LoweredTo c (lowerChar c) := by
  unfold lowerChar
  split
  · next hascii => exact .ascii hascii
  · next hbeyond =>
    split
    · exact .dotted
    · split
      · next r hfind =>
        have hcovers : r.covers c.toNat = true :=
          List.find?_some (p := fun r => LowerRun.covers r c.toNat) hfind
        exact .other (isPlain_of_covers (List.mem_of_find?_eq_some hfind) hcovers)
      · refine .other (Bool.eq_false_iff.2 ?_)
        intro hplain
        exact hbeyond (toNat_lt_of_isPlain hplain).2

/-! ## Texts -/

/-- What the characters become, one after the other. -/
theorem lowerFrom_cons (passed : List Char) (c : Char) (rest : List Char) :
    ∃ piece, LoweredTo c piece ∧
      lowerFrom passed (c :: rest) = piece ++ lowerFrom (c :: passed) rest := by
  rw [lowerFrom]
  split
  · refine ⟨_, .other ?_, rfl⟩
    split <;> exact isPlain_ofNat (by decide)
  · exact ⟨_, loweredTo_lowerChar c, rfl⟩

/-- An ASCII letter becomes its small form, whatever stands around it. -/
theorem lowerFrom_cons_of_ascii {passed rest : List Char} {c : Char} (h : c.toNat < 128) :
    lowerFrom passed (c :: rest) = c.toLower :: lowerFrom (c :: passed) rest := by
  have hsigma : c ≠ capitalSigma := by
    rintro rfl
    exact absurd h (by decide)
  rw [lowerFrom, if_neg hsigma, lowerChar, if_pos h]
  rfl

/-- What is lowered behind some characters stands at the end. -/
theorem lowerFrom_append (passed front rest : List Char) :
    ∃ lowered passed', lowerFrom passed (front ++ rest) = lowered ++ lowerFrom passed' rest := by
  induction front generalizing passed with
  | nil => exact ⟨[], passed, rfl⟩
  | cons c front ih =>
    obtain ⟨piece, -, hpiece⟩ := lowerFrom_cons passed c (front ++ rest)
    obtain ⟨lowered, passed', hrest⟩ := ih (c :: passed)
    refine ⟨piece ++ lowered, passed', ?_⟩
    rw [List.cons_append, hpiece, hrest, List.append_assoc]

/-- A word of plain letters that does not end in the one letter with another origin. -/
structure IsPlainWord (word : List Char) : Prop where
  plain : ∀ c ∈ word, isPlain c = true
  last : word.getLast? ≠ some 'i'

theorem IsPlainWord.tail {c : Char} {word : List Char} (h : IsPlainWord (c :: word)) :
    IsPlainWord word where
  plain := fun d hd => h.plain d (List.mem_cons_of_mem c hd)
  last := by
    cases word with
    | nil => simp
    | cons d word => exact List.getLast?_cons_cons ▸ h.last

theorem IsPlainWord.head_ne {c d : Char} {word : List Char} (h : IsPlainWord (c :: word))
    (hd : isPlain d = false) : c ≠ d := by
  rintro rfl
  rw [h.plain c List.mem_cons_self] at hd
  cases hd

/-- No plain word starts at `İ`: the dot would have to be its next letter. -/
theorem IsPlainWord.not_prefix_dotted {word rest : List Char} (h : IsPlainWord word)
    (hne : word ≠ []) : ¬word <+: 'i' :: dotAbove :: rest := by
  intro hprefix
  cases word with
  | nil => exact hne rfl
  | cons c word =>
    obtain ⟨rfl, hword⟩ := List.cons_prefix_cons.1 hprefix
    cases word with
    | nil => exact h.last rfl
    | cons d word =>
      obtain ⟨hd, -⟩ := List.cons_prefix_cons.1 hword
      exact h.tail.head_ne (by decide) hd

/-- A plain word at the start of a lowered text is what the first characters of the text become. -/
theorem exists_prefix_of_lowerFrom {word cs passed : List Char} (hword : IsPlainWord word)
    (h : word <+: lowerFrom passed cs) : ∃ part, part <+: cs ∧ part.map Char.toLower = word := by
  induction word generalizing cs passed with
  | nil => exact ⟨[], List.nil_prefix, rfl⟩
  | cons c word ih =>
    cases cs with
    | nil =>
      rw [lowerFrom, List.prefix_nil] at h
      cases h
    | cons d cs =>
      obtain ⟨piece, hpiece, hlowered⟩ := lowerFrom_cons passed d cs
      rw [hlowered] at h
      cases hpiece with
      | ascii hascii =>
        obtain ⟨rfl, hrest⟩ := List.cons_prefix_cons.1 h
        obtain ⟨part, hpart, rfl⟩ := ih hword.tail hrest
        exact ⟨d :: part, List.cons_prefix_cons.2 ⟨rfl, hpart⟩, rfl⟩
      | dotted => exact absurd h (hword.not_prefix_dotted (List.cons_ne_nil c word))
      | other hother => exact absurd (List.cons_prefix_cons.1 h).1 (hword.head_ne hother)

/-- A plain word in a lowered text is what some characters of the text become. -/
theorem exists_infix_of_lowerFrom {word cs passed : List Char} (hword : IsPlainWord word)
    (hne : word ≠ []) (h : word <:+: lowerFrom passed cs) :
    ∃ part, part <:+: cs ∧ part.map Char.toLower = word := by
  induction cs generalizing passed with
  | nil =>
    rw [lowerFrom, List.infix_nil] at h
    exact absurd h hne
  | cons d cs ih =>
    by_cases hstart : word <+: lowerFrom passed (d :: cs)
    · obtain ⟨part, hpart, heq⟩ := exists_prefix_of_lowerFrom hword hstart
      exact ⟨part, hpart.isInfix, heq⟩
    · -- the word starts behind the first character of the text
      have hrest : word <:+: lowerFrom (d :: passed) cs := by
        obtain ⟨piece, hpiece, hlowered⟩ := lowerFrom_cons passed d cs
        rw [hlowered] at h hstart
        cases hpiece with
        | ascii hascii => exact (List.infix_cons_iff.1 h).resolve_left hstart
        | other hother => exact (List.infix_cons_iff.1 h).resolve_left hstart
        | dotted =>
          rcases List.infix_cons_iff.1 ((List.infix_cons_iff.1 h).resolve_left hstart) with
            hdot | hrest
          · obtain rfl | ⟨_, rfl, -⟩ := List.prefix_cons_iff.1 hdot
            · exact absurd rfl hne
            · exact absurd rfl (hword.head_ne (by decide))
          · exact hrest
      obtain ⟨part, hpart, heq⟩ := ih hrest
      exact ⟨part, hpart.trans (List.infix_cons List.infix_rfl), heq⟩

/-- Only ASCII characters have a plain letter as their small form. -/
theorem toNat_lt_of_isPlain_toLower {c : Char} (h : isPlain c.toLower = true) : c.toNat < 128 := by
  by_cases hupper : c.val ≥ 'A'.val ∧ c.val ≤ 'Z'.val
  · have hmax : c.toNat ≤ 'Z'.toNat := hupper.2
    exact Nat.lt_of_le_of_lt hmax (by decide)
  · have hsmall : c.toLower = c := dif_neg hupper
    rw [hsmall] at h
    exact (toNat_lt_of_isPlain h).2

/-- Letters that spell a plain word are lowered to it. -/
theorem prefix_lowerFrom {word part : List Char} (hword : IsPlainWord word)
    (hpart : part.map Char.toLower = word) (passed rest : List Char) :
    word <+: lowerFrom passed (part ++ rest) := by
  induction part generalizing word passed with
  | nil =>
    rw [← hpart]
    exact List.nil_prefix
  | cons c part ih =>
    subst hpart
    have hascii := toNat_lt_of_isPlain_toLower (hword.plain c.toLower List.mem_cons_self)
    rw [List.cons_append, lowerFrom_cons_of_ascii hascii, List.map_cons]
    exact List.cons_prefix_cons.2 ⟨rfl, ih hword.tail rfl (c :: passed)⟩

/-- A plain word is found in the lower-case form of a text if the text contains it in some case. -/
theorem hasInfix_lowercase_iff {word : String} (hword : IsPlainWord word.toList)
    (hne : word.toList ≠ []) (text : String) :
    hasInfix word (lowercase text) = true ↔ ContainsIgnoringCase word text := by
  unfold hasInfix lowercase ContainsIgnoringCase
  rw [infixOf_iff, String.toList_ofList]
  constructor
  · exact exists_infix_of_lowerFrom hword hne
  · rintro ⟨part, ⟨front, back, htext⟩, hpart⟩
    rw [← htext, List.append_assoc]
    obtain ⟨lowered, passed, hlowered⟩ := lowerFrom_append [] front (part ++ back)
    rw [hlowered]
    exact (prefix_lowerFrom hword hpart passed back).isInfix.trans
      (List.suffix_append lowered _).isInfix

end ChangeImpact.Text
