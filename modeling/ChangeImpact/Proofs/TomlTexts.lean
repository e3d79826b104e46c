import ChangeImpact.Toml.Quoted
import Mathlib.Data.List.Basic

/-!
# Quoted texts are read back

A text is written in one of four forms, whichever needs least escaping. Each form is read back as it
was, whatever the text holds. Where a text ends with quotes these stand right before the closing
ones, and the reader has to tell them apart by their number.

* `escape?_reads`, `basic_plain`, `basicLines_plain` — a character is read back, escaped or not;
* `basic_escaped`, `literal_plainText` — texts on one line;
* `basicLines_escapedLines`, `literalLines_runs` — texts over lines;
* `readText_writeText` — the form that is chosen is read back.
-/

namespace ChangeImpact.Toml

open Text (hexDigit)

variable {c : Char} {cs rest e text : List Char} {run : Nat}

/-! ## Characters -/

theorem charOfHex?_code (h : needsCode c = true) :
    charOfHex? ['0', '0', hexDigit 'A' (c.toNat / 16), hexDigit 'A' (c.toNat % 16)] = some c := by
  have hall : ∀ n < 128, charOfHex? ['0', '0', hexDigit 'A' (n / 16), hexDigit 'A' (n % 16)] =
      some (Char.ofNat n) := by
    decide +kernel
  have hsmall : c.toNat < 128 := by
    simp only [needsCode, Bool.and_eq_true, Bool.or_eq_true, decide_eq_true_eq, beq_iff_eq] at h
    omega
  rw [hall _ hsmall, Char.ofNat_toNat]

/-- What an escaped character looks like, and that it is read back. -/
structure ReadsEscape (e : List Char) (c : Char) : Prop where
  starts : ∃ cs, e = '\\' :: cs
  basic : ∀ rest, basic (e ++ rest) = consRead c (basic rest)
  lines : ∀ rest, basicLines false (e ++ rest) = consRead c (basicLines false rest)

theorem escape?_reads (h : escape? c = some e) : ReadsEscape e c := by
  unfold escape? at h
  split at h
  · cases h
    exact ⟨⟨_, rfl⟩, fun _ => rfl, fun _ => rfl⟩
  · cases h
    exact ⟨⟨_, rfl⟩, fun _ => rfl, fun _ => rfl⟩
  · cases h
    exact ⟨⟨_, rfl⟩, fun _ => rfl, fun _ => rfl⟩
  · cases h
    exact ⟨⟨_, rfl⟩, fun _ => rfl, fun _ => rfl⟩
  · cases h
    exact ⟨⟨_, rfl⟩, fun _ => rfl, fun _ => rfl⟩
  · cases h
    exact ⟨⟨_, rfl⟩, fun _ => rfl, fun _ => rfl⟩
  · cases h
    exact ⟨⟨_, rfl⟩, fun _ => rfl, fun _ => rfl⟩
  · split at h
    · next hcode =>
      cases h
      refine ⟨⟨_, rfl⟩, ?_, ?_⟩
      · intro rest
        show consRead? (charOfHex? _) (Toml.basic rest) = _
        rw [charOfHex?_code hcode]
        rfl
      · intro rest
        show consRead? (charOfHex? _) (basicLines false rest) = _
        rw [charOfHex?_code hcode]
        rfl
    · cases h

/-- Only line breaks and the characters that need a code may not stand on a line. -/
theorem isPlain_of_needsCode (h : needsCode c = false) (hnewline : c ≠ '\n') :
    isPlain c = true := by
  by_cases htab : c = '\t'
  · rw [htab]
    rfl
  · have hnumber : 0x20 ≤ c.toNat ∧ c.toNat ≠ 0x7f := by
      simp only [needsCode, Bool.and_eq_false_iff, bne_eq_false_iff_eq, Bool.or_eq_false_iff,
        decide_eq_false_iff_not, beq_eq_false_iff_ne] at h
      rcases h with (h | h) | h
      · exact absurd h htab
      · exact absurd h hnewline
      · omega
    simp [isPlain, hnumber]

/-- A character that stands for itself in double quotes. -/
structure IsUnescaped (c : Char) : Prop where
  quote : c ≠ '"'
  backslash : c ≠ '\\'
  newline : c ≠ '\n'
  feed : c ≠ '\r'
  plain : isPlain c = true

theorem isUnescaped_of_escape? (h : escape? c = none) : IsUnescaped c := by
  unfold escape? at h
  split at h
  iterate 7 cases h
  next _ _ hnewline _ hfeed hquote hbackslash =>
    refine ⟨hquote, hbackslash, hnewline, hfeed, ?_⟩
    split at h
    · cases h
    · next hcode => exact isPlain_of_needsCode (Bool.not_eq_true _ ▸ hcode) hnewline

theorem basic_plain (h : IsUnescaped c) (cs : List Char) :
    basic (c :: cs) = consRead c (basic cs) := by
  simp [basic, h.quote, h.backslash, h.plain]

theorem basicLines_plain (h : IsUnescaped c) (cs : List Char) :
    basicLines false (c :: cs) = consRead c (basicLines false cs) := by
  simp [basicLines, h.quote, h.backslash, h.newline, h.feed, h.plain]

/-- A character as it is written in double quotes, escaped where that is needed. -/
def written (c : Char) : List Char := (escape? c).getD [c]

theorem basic_written (c : Char) (rest : List Char) :
    basic (written c ++ rest) = consRead c (basic rest) := by
  unfold written
  cases h : escape? c with
  | none => exact basic_plain (isUnescaped_of_escape? h) rest
  | some e => exact (escape?_reads h).basic rest

theorem basicLines_written (c : Char) (rest : List Char) :
    basicLines false (written c ++ rest) = consRead c (basicLines false rest) := by
  unfold written
  cases h : escape? c with
  | none => exact basicLines_plain (isUnescaped_of_escape? h) rest
  | some e => exact (escape?_reads h).lines rest

/-- No such character starts with a quote. -/
theorem written_starts (c : Char) : ∃ d ds, written c = d :: ds ∧ d ≠ '"' := by
  unfold written
  cases h : escape? c with
  | none => exact ⟨c, [], rfl, (isUnescaped_of_escape? h).quote⟩
  | some e =>
    rcases (escape?_reads h).starts with ⟨ds, rfl⟩
    exact ⟨'\\', ds, rfl, by decide⟩

/-! ## On one line -/

theorem basic_escaped (text rest : List Char) :
    basic (escaped text ++ '"' :: rest) = some (text, rest) := by
  induction text with
  | nil => rfl
  | cons c text ih =>
    have hescaped : escaped (c :: text) = written c ++ escaped text := rfl
    rw [hescaped, List.append_assoc, basic_written, ih]
    rfl

theorem literal_plainText (h : ∀ c ∈ text, c ≠ '\'' ∧ isPlain c = true) (rest : List Char) :
    literal (text ++ '\'' :: rest) = some (text, rest) := by
  induction text with
  | nil => rfl
  | cons c text ih =>
    rcases h c List.mem_cons_self with ⟨hquote, hplain⟩
    have hread : literal (c :: (text ++ '\'' :: rest)) =
        consRead c (literal (text ++ '\'' :: rest)) := by
      simp [literal, hplain]
    rw [List.cons_append, hread, ih fun d hd => h d (List.mem_cons_of_mem _ hd)]
    rfl

/-! ## Over lines -/

/-- A text does not go on with two quotes, so that one before them does not close anything. -/
def NoPair (q : Char) (cs : List Char) : Prop := ∀ rest, cs ≠ q :: q :: rest

theorem noPair_cons {q : Char} (h : c ≠ q) (cs : List Char) : NoPair q (c :: cs) := by
  intro rest heq
  exact h (List.cons.inj heq).1

theorem noPair_cons_cons {q : Char} (h : c ≠ q) (cs : List Char) : NoPair q (q :: c :: cs) := by
  intro rest heq
  exact h (List.cons.inj (List.cons.inj heq).2).1

theorem basicLines_quote (h : NoPair '"' cs) :
    basicLines false ('"' :: cs) = consRead '"' (basicLines false cs) := by
  unfold NoPair at h
  simp [basicLines, h]

theorem literalLines_quote (h : NoPair '\'' cs) :
    literalLines ('\'' :: cs) = consRead '\'' (literalLines cs) := by
  unfold NoPair at h
  simp [literalLines, h, show isPlain '\'' = true from rfl]

/-- What follows the closing quotes is no quote. -/
def Closed (rest : List Char) : Prop := ∀ c ∈ rest.head?, c ≠ '"' ∧ c ≠ '\''

/-- The closing quotes, with up to two others before them. -/
theorem basicLines_close (h : Closed rest) :
    basicLines false ('"' :: '"' :: '"' :: rest) = some ([], rest) ∧
      basicLines false ('"' :: '"' :: '"' :: '"' :: rest) = some (['"'], rest) ∧
      basicLines false ('"' :: '"' :: '"' :: '"' :: '"' :: rest) = some (['"', '"'], rest) := by
  cases rest with
  | nil => exact ⟨rfl, rfl, rfl⟩
  | cons c rest =>
    have hquote : c ≠ '"' := (h c rfl).1
    simp [basicLines, hquote]

theorem literalLines_close (h : Closed rest) :
    literalLines ('\'' :: '\'' :: '\'' :: rest) = some ([], rest) ∧
      literalLines ('\'' :: '\'' :: '\'' :: '\'' :: rest) = some (['\''], rest) ∧
      literalLines ('\'' :: '\'' :: '\'' :: '\'' :: '\'' :: rest) =
        some (['\'', '\''], rest) := by
  cases rest with
  | nil => exact ⟨rfl, rfl, rfl⟩
  | cons c rest =>
    have hquote : c ≠ '\'' := (h c rfl).2
    simp [literalLines, hquote]

theorem escapedLines_other (hnewline : c ≠ '\n') (hquote : c ≠ '"') (run : Nat)
    (cs : List Char) : escapedLines run (c :: cs) = written c ++ escapedLines 0 cs := by
  simp [escapedLines, written]

/-- A written text starts with a quote only if the text does and quotes may still stand there. -/
theorem escapedLines_starts (h : c ≠ '"' ∨ 2 ≤ run) (cs : List Char) :
    ∃ d ds, escapedLines run (c :: cs) = d :: ds ∧ d ≠ '"' := by
  by_cases hquote : c = '"'
  · have hrun : ¬run < 2 := by
      rcases h with h | h
      · exact absurd hquote h
      · omega
    rw [hquote, escapedLines, if_neg hrun]
    exact ⟨_, _, rfl, by decide⟩
  · by_cases hnewline : c = '\n'
    · rw [hnewline, escapedLines]
      exact ⟨_, _, rfl, by decide⟩
    · rcases written_starts c with ⟨d, ds, hwritten, hd⟩
      rw [escapedLines_other hnewline hquote, hwritten]
      exact ⟨d, _, rfl, hd⟩

/-- Behind a quote, two more follow only at the end of the text. -/
theorem noPair_escapedLines (htext : text ≠ []) (hlast : ¬(run = 0 ∧ text = ['"']))
    (rest : List Char) : NoPair '"' (escapedLines (run + 1) text ++ rest) := by
  cases text with
  | nil => exact absurd rfl htext
  | cons c text =>
    by_cases hone : c = '"' ∧ run = 0
    · -- one more quote, and then something else
      rcases hone with ⟨rfl, rfl⟩
      cases text with
      | nil => exact absurd ⟨rfl, rfl⟩ hlast
      | cons d text =>
        rcases escapedLines_starts (c := d) (.inr (Nat.le_refl 2)) text with ⟨x, xs, hx, hquote⟩
        have hlines : escapedLines 1 ('"' :: d :: text) = '"' :: x :: xs := by
          rw [escapedLines, if_pos (by decide), hx]
        rw [hlines]
        exact noPair_cons_cons hquote _
    · have hstarts : c ≠ '"' ∨ 2 ≤ run + 1 := by
        by_cases hquote : c = '"'
        · exact .inr (by
            have hrun : run ≠ 0 := fun hzero => hone ⟨hquote, hzero⟩
            omega)
        · exact .inl hquote
      rcases escapedLines_starts hstarts text with ⟨x, xs, hx, hquote⟩
      rw [hx]
      exact noPair_cons hquote _

/-- Texts over lines in double quotes are read back, whatever they hold. The induction is on the
text; `run` is the number of quotes that were just written. -/
theorem basicLines_escapedLines (hrest : Closed rest) (run : Nat) (text : List Char) :
    basicLines false (escapedLines run text ++ '"' :: '"' :: '"' :: rest) = some (text, rest) := by
  rcases basicLines_close hrest with ⟨hthree, hfour, hfive⟩
  induction text generalizing run with
  | nil => exact hthree
  | cons c text ih =>
    by_cases hnewline : c = '\n'
    · have hread : ∀ cs, basicLines false ('\n' :: cs) = consRead '\n' (basicLines false cs) :=
        fun _ => rfl
      rw [hnewline, escapedLines, List.cons_append, hread, ih]
      rfl
    by_cases hquote : c = '"'
    · subst hquote
      rw [escapedLines]
      split
      · -- the quote stands for itself: the last one, the last but one, or neither
        by_cases hone : text = []
        · subst hone
          exact hfour
        by_cases htwo : run = 0 ∧ text = ['"']
        · rcases htwo with ⟨rfl, rfl⟩
          exact hfive
        rw [List.cons_append, basicLines_quote (noPair_escapedLines hone htwo _), ih]
        rfl
      · have hread : ∀ cs, basicLines false ('\\' :: '"' :: cs) =
            consRead '"' (basicLines false cs) := fun _ => rfl
        rw [List.cons_append, List.cons_append, hread, ih]
        rfl
    · rw [escapedLines_other hnewline hquote, List.append_assoc, basicLines_written, ih]
      rfl

theorem le_longestRun (q : Char) (run : Nat) (cs : List Char) : run ≤ longestRun q run cs := by
  induction cs generalizing run with
  | nil => exact Nat.le_refl _
  | cons c cs ih =>
    rw [longestRun]
    split
    · exact Nat.le_of_succ_le (ih (run + 1))
    · exact Nat.le_max_left _ _

theorem longestRun_quote (q : Char) (run : Nat) (cs : List Char) :
    longestRun q run (q :: cs) = longestRun q (run + 1) cs := by
  rw [longestRun, if_pos (beq_self_eq_true q)]

theorem longestRun_other {q : Char} (h : c ≠ q) (run : Nat) (cs : List Char) :
    longestRun q run (c :: cs) = max run (longestRun q 0 cs) := by
  rw [longestRun, if_neg (by simpa using h)]

theorem longestRun_of_mem {q : Char} (h : q ∈ text) (run : Nat) : 0 < longestRun q run text := by
  induction text generalizing run with
  | nil => cases h
  | cons c text ih =>
    by_cases hc : c = q
    · rw [hc, longestRun_quote]
      exact Nat.lt_of_lt_of_le (Nat.succ_pos run) (le_longestRun q (run + 1) text)
    · rw [longestRun_other hc]
      have hmem := (List.mem_cons.1 h).resolve_left (Ne.symm hc)
      exact Nat.lt_of_lt_of_le (ih hmem 0) (Nat.le_max_right _ _)

/-- Where quotes never stand three in a row, two follow a quote only at the end of the text. -/
theorem noPair_of_longestRun {q : Char} (hruns : longestRun q (run + 1) text ≤ 2) (hone : text ≠ [])
    (htwo : text ≠ [q]) (rest : List Char) : NoPair q (text ++ rest) := by
  cases text with
  | nil => exact absurd rfl hone
  | cons c text =>
    by_cases hc : c = q
    · subst hc
      cases text with
      | nil => exact absurd rfl htwo
      | cons d text =>
        refine noPair_cons_cons ?_ _
        rintro rfl
        rw [longestRun_quote, longestRun_quote] at hruns
        have hle := le_longestRun d (run + 1 + 1 + 1) text
        omega
    · exact noPair_cons hc _

/-- Texts over lines in single quotes are read back if quotes never stand three in a row. -/
theorem literalLines_runs (hrest : Closed rest) (hruns : longestRun '\'' run text ≤ 2)
    (hplain : ∀ c ∈ text, c = '\n' ∨ isPlain c = true) :
    literalLines (text ++ '\'' :: '\'' :: '\'' :: rest) = some (text, rest) := by
  rcases literalLines_close hrest with ⟨hthree, hfour, hfive⟩
  induction text generalizing run with
  | nil => exact hthree
  | cons c text ih =>
    have hmore : ∀ d ∈ text, d = '\n' ∨ isPlain d = true :=
      fun d hd => hplain d (List.mem_cons_of_mem _ hd)
    by_cases hquote : c = '\''
    · subst hquote
      rw [longestRun_quote] at hruns
      by_cases hone : text = []
      · subst hone
        exact hfour
      by_cases htwo : text = ['\'']
      · subst htwo
        exact hfive
      rw [List.cons_append, literalLines_quote (noPair_of_longestRun hruns hone htwo _),
        ih hruns hmore]
      rfl
    · rw [longestRun_other hquote] at hruns
      have hbelow := ih (Nat.le_trans (Nat.le_max_right _ _) hruns) hmore
      by_cases hnewline : c = '\n'
      · have hread : ∀ cs, literalLines ('\n' :: cs) = consRead '\n' (literalLines cs) :=
          fun _ => rfl
        rw [hnewline, List.cons_append, hread, hbelow]
        rfl
      · have hc : isPlain c = true := (hplain c List.mem_cons_self).resolve_left hnewline
        have hfeed : c ≠ '\r' := by
          rintro rfl
          cases hc
        have hread : ∀ cs, literalLines (c :: cs) = consRead c (literalLines cs) := by
          intro cs
          simp [literalLines, hquote, hfeed, hc]
        rw [List.cons_append, hread, hbelow]
        rfl

/-! ## The chosen form -/

theorem isPlain_of_any (h : text.any needsCode = false) :
    ∀ c ∈ text, c = '\n' ∨ isPlain c = true := by
  intro c hc
  by_cases hnewline : c = '\n'
  · exact .inl hnewline
  · rw [List.any_eq_false] at h
    exact .inr (isPlain_of_needsCode (Bool.not_eq_true _ ▸ h c hc) hnewline)

/-- Single quotes are used only where they need no escape. -/
theorem of_choose_literal (h : TextForm.choose text = .literal) :
    ∀ c ∈ text, c ≠ '\'' ∧ isPlain c = true := by
  have hchosen : text.any needsCode = false ∧ longestRun '\'' 0 text = 0 ∧
      text.any (· == '\n') = false := by
    unfold TextForm.choose at h
    dsimp only at h
    split at h
    · cases h
    · split at h
      · next hsingle => simpa [and_assoc] using hsingle
      · split at h
        · cases h
        · split at h
          · cases h
          · split at h <;> cases h
  rcases hchosen with ⟨hcodes, hsingles, hnewline⟩
  intro c hc
  constructor
  · rintro rfl
    have hpos := longestRun_of_mem hc 0
    omega
  · refine (isPlain_of_any hcodes c hc).resolve_left ?_
    rintro rfl
    exact List.any_eq_false.1 hnewline _ hc (by decide)

theorem of_choose_literalLines (h : TextForm.choose text = .literalLines) :
    longestRun '\'' 0 text ≤ 2 ∧ ∀ c ∈ text, c = '\n' ∨ isPlain c = true := by
  have hchosen : text.any needsCode = false ∧ longestRun '\'' 0 text ≤ 2 := by
    unfold TextForm.choose at h
    dsimp only at h
    split at h
    · cases h
    · split at h
      · cases h
      · split at h
        · cases h
        · split at h
          · next hlines => simpa using hlines
          · split at h <;> cases h
  exact ⟨hchosen.2, isPlain_of_any hchosen.1⟩

/-- With fewer than three quotes in front it is a text on one line. -/
theorem readText_line {q : Char} (hq : q = '"' ∨ q = '\'') (h : NoPair q cs) :
    readText (q :: cs) = readLineText (q :: cs) := by
  unfold readText
  split
  · next heq =>
    rcases List.cons.inj heq with ⟨rfl, rfl⟩
    exact absurd rfl (h _)
  · next heq =>
    rcases List.cons.inj heq with ⟨rfl, rfl⟩
    exact absurd rfl (h _)
  · rfl

theorem noPair_closed {q : Char} (hq : q = '"' ∨ q = '\'') (hrest : Closed rest) :
    NoPair q (q :: rest) := by
  cases rest with
  | nil =>
    intro cs heq
    cases heq
  | cons c rest =>
    have hc := hrest c rfl
    refine noPair_cons_cons ?_ _
    rcases hq with rfl | rfl
    · exact hc.1
    · exact hc.2

theorem readText_basic (hrest : Closed rest) (text : List Char) :
    readText ('"' :: (escaped text ++ '"' :: rest)) = some (String.ofList text, rest) := by
  have hpair : NoPair '"' (escaped text ++ '"' :: rest) := by
    cases text with
    | nil => exact noPair_closed (.inl rfl) hrest
    | cons c text =>
      rcases written_starts c with ⟨d, ds, hwritten, hquote⟩
      have hescaped : escaped (c :: text) = d :: (ds ++ escaped text) := by
        show written c ++ escaped text = _
        rw [hwritten]
        rfl
      rw [hescaped]
      exact noPair_cons hquote _
  rw [readText_line (.inl rfl) hpair, readLineText, basic_escaped]
  rfl

theorem readText_literal (hrest : Closed rest) (h : ∀ c ∈ text, c ≠ '\'' ∧ isPlain c = true) :
    readText ('\'' :: (text ++ '\'' :: rest)) = some (String.ofList text, rest) := by
  have hpair : NoPair '\'' (text ++ '\'' :: rest) := by
    cases text with
    | nil => exact noPair_closed (.inr rfl) hrest
    | cons c text => exact noPair_cons (h c List.mem_cons_self).1 _
  rw [readText_line (.inr rfl) hpair, readLineText, literal_plainText h]
  rfl

/-- A text is read back from the form in which it is written. -/
theorem readText_writeText (hrest : Closed rest) (text : String) :
    readText (writeText text ++ rest) = some (text, rest) := by
  have hback : ∀ form, TextForm.choose text.toList = form →
      readText (form.write text.toList ++ rest) = some (String.ofList text.toList, rest) := by
    intro form hform
    cases form with
    | basic =>
      have hwrite : TextForm.write text.toList .basic ++ rest =
          '"' :: (escaped text.toList ++ '"' :: rest) := by
        simp [TextForm.write]
      rw [hwrite, readText_basic hrest]
    | literal =>
      have hwrite : TextForm.write text.toList .literal ++ rest =
          '\'' :: (text.toList ++ '\'' :: rest) := by
        simp [TextForm.write]
      rw [hwrite, readText_literal hrest (of_choose_literal hform)]
    | basicLines =>
      have hwrite : TextForm.write text.toList .basicLines ++ rest = '"' :: '"' :: '"' :: '\n' ::
          (escapedLines 0 text.toList ++ '"' :: '"' :: '"' :: rest) := by
        simp [TextForm.write]
      rw [hwrite, readText, dropLineBreak, basicLines_escapedLines hrest]
      rfl
    | literalLines =>
      have hwrite : TextForm.write text.toList .literalLines ++ rest = '\'' :: '\'' :: '\'' ::
          '\n' :: (text.toList ++ '\'' :: '\'' :: '\'' :: rest) := by
        simp [TextForm.write]
      rcases of_choose_literalLines hform with ⟨hruns, hplain⟩
      rw [hwrite, readText, dropLineBreak, literalLines_runs hrest hruns hplain]
      rfl
  rw [writeText, hback _ rfl, String.ofList_toList]

end ChangeImpact.Toml
