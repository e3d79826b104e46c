import ChangeImpact.Proofs.JsonRoundTrip
import ChangeImpact.Proofs.TomlTexts
import ChangeImpact.Toml.Reader

/-!
# Documents are read line by line

A document that is written as headers and lines of the form `key = value` is read statement by
statement. The reader counts lines to see that it comes to an end, so what is said about some lines
holds for every number that is large enough.

* `Spells` — the characters of a value; `spells_text`, `spells_number` — texts and whole numbers;
* `IsKey`, `readKey_key` — keys without quotes;
* `ReadsLines` — the statements of some lines, whatever follows; `ReadsLines.append` — put together;
* `parse?_of_readsLines` — the statements of a whole document;
* `foldlM_assigns` — what lines under one header make of a table.
-/

namespace ChangeImpact.Toml

variable {c : Char} {cs rest value line : List Char} {v : Toml}

/-! ## Whole numbers -/

theorem digitValue?_digit (h : c.isDigit = true) : digitValue? 10 c = some (Json.digitValue c) := by
  rcases Text.toNat_of_isDigit h with ⟨hmin, hmax⟩
  have hrange : '0' ≤ c ∧ c ≤ '9' := ⟨hmin, hmax⟩
  have hsmall : c.toNat - '0'.toNat < 10 := by
    have hmax' : c.toNat ≤ 57 := hmax
    have hzero : '0'.toNat = 48 := rfl
    omega
  simp only [digitValue?, if_pos hrange]
  rw [Option.filter_some, if_pos (by simpa using hsmall)]
  rfl

theorem digits?_digits (h : ∀ c ∈ cs, c.isDigit = true) (hne : cs ≠ []) :
    digits? 10 cs = some (cs.map Json.digitValue) := by
  induction cs with
  | nil => exact absurd rfl hne
  | cons c cs ih =>
    have hc := digitValue?_digit (h c List.mem_cons_self)
    cases cs with
    | nil =>
      rw [digits?, hc]
      rfl
    | cons d cs =>
      have hd : d ≠ '_' := by
        rintro rfl
        exact absurd (h '_' (by simp)) (by decide)
      have hmore := ih (fun e he => h e (List.mem_cons_of_mem _ he)) (by simp)
      simp [digits?, hd, hc, hmore]

theorem isDigit_toDigits {n : Nat} (h : c ∈ Nat.toDigits 10 n) : c.isDigit = true :=
  Nat.isDigit_of_mem_toDigits (by decide) (by decide) h

/-- A whole number is read back from its digits. -/
theorem decimal?_toDigits {n : Nat} (hn : (n : Int) ≤ maxInt) :
    decimal? (Nat.toDigits 10 n) = some n := by
  have hdigits := digits?_digits (fun _ => isDigit_toDigits (n := n)) Nat.toDigits_ne_nil
  have hvalue : ofDigits 10 ((Nat.toDigits 10 n).map Json.digitValue) = n :=
    Json.ofDigits_toDigits n
  have hmin : minInt ≤ (n : Int) := by
    unfold minInt
    omega
  have hrange : inRange? (n : Int) = some (n : Int) := if_pos ⟨hmin, hn⟩
  rcases List.exists_cons_of_ne_nil (Nat.toDigits_ne_nil (n := n) (b := 10)) with ⟨c, cs, hcs⟩
  have hlead := Json.no_leading_zero hcs
  have hc : c.isDigit = true := isDigit_toDigits (n := n) (by rw [hcs]; exact List.mem_cons_self)
  rw [hcs] at hdigits hvalue ⊢
  -- there is no sign, and no zero in front
  have hsign : cutSign (c :: cs) = (false, c :: cs) := by
    unfold cutSign
    split
    · next heq =>
      rcases List.cons.inj heq with ⟨rfl, rfl⟩
      cases hc
    · next heq =>
      rcases List.cons.inj heq with ⟨rfl, rfl⟩
      cases hc
    · rfl
  have hwhole : wholeDigits? (c :: cs) = some ((c :: cs).map Json.digitValue) := by
    unfold wholeDigits?
    rw [hdigits]
    simp only [Option.bind_eq_bind, Option.bind_some]
    split
    · next heq =>
      rcases List.cons.inj heq with ⟨rfl, rfl⟩
      exact absurd ⟨rfl, by simp⟩ hlead
    · rfl
  unfold decimal?
  rw [hsign]
  simp only [hwhole, Option.bind_eq_bind, Option.bind_some, hvalue, Bool.false_eq_true, if_false]
  exact hrange

theorem ofWord?_toDigits {n : Nat} (hn : (n : Int) ≤ maxInt) :
    ofWord? (Nat.toDigits 10 n) = some (.int n) := by
  have hword : ∀ d ds, d.isDigit = false → Nat.toDigits 10 n ≠ d :: ds := by
    intro d ds hd heq
    have hdigit := isDigit_toDigits (n := n) (heq ▸ List.mem_cons_self)
    rw [hd] at hdigit
    cases hdigit
  unfold ofWord?
  rw [if_neg (hword _ _ (by decide)), if_neg (hword _ _ (by decide)), decimal?_toDigits hn]
  rfl

theorem endsWord_of_isDigit (h : c.isDigit = true) : endsWord c = false := by
  rcases Text.toNat_of_isDigit h with ⟨hmin, hmax⟩
  have hne : ∀ d : Char, d.toNat < 48 ∨ 57 < d.toNat → c ≠ d := by
    rintro d hd rfl
    omega
  simp [endsWord, isSpace, hne]

/-! ## Values -/

/-- The characters of a value, as it stands at the end of a line. -/
structure Spells (value : List Char) (v : Toml) : Prop where
  starts : ∃ c cs, value = c :: cs ∧ isSpace c = false
  reads : ∀ rest, readValue (value ++ '\n' :: rest) = some (v, '\n' :: rest)

theorem spells_text (text : String) : Spells (writeText text) (.str text) := by
  have hclosed : ∀ rest, Closed ('\n' :: rest) := by
    intro rest c hc
    cases hc
    decide
  have hstarts : ∃ c cs, writeText text = c :: cs ∧ (c = '"' ∨ c = '\'') := by
    unfold writeText
    cases TextForm.choose text.toList with
    | basic | basicLines => exact ⟨_, _, rfl, .inl rfl⟩
    | literal | literalLines => exact ⟨_, _, rfl, .inr rfl⟩
  rcases hstarts with ⟨c, cs, hcs, hc⟩
  refine ⟨⟨c, cs, hcs, by rcases hc with rfl | rfl <;> rfl⟩, ?_⟩
  intro rest
  have hread := readText_writeText (hclosed rest) text
  rw [hcs, List.cons_append] at hread ⊢
  rcases hc with rfl | rfl
  · rw [readValue, readValueWithin, hread]
    rfl
  · rw [readValue, readValueWithin, hread]
    rfl

theorem spells_number {n : Nat} (hn : (n : Int) ≤ maxInt) :
    Spells (Nat.toDigits 10 n) (.int n) := by
  rcases List.exists_cons_of_ne_nil (Nat.toDigits_ne_nil (n := n) (b := 10)) with ⟨c, cs, hcs⟩
  have hc : c.isDigit = true := isDigit_toDigits (n := n) (by rw [hcs]; exact List.mem_cons_self)
  have hspace : isSpace c = false := by
    have hword := endsWord_of_isDigit hc
    simp only [endsWord, Bool.or_eq_false_iff] at hword
    exact hword.1.1.1.1.1.1
  refine ⟨⟨c, cs, hcs, hspace⟩, ?_⟩
  intro rest
  have hword : ∀ d ∈ Nat.toDigits 10 n, (!endsWord d) = true := by
    intro d hd
    rw [endsWord_of_isDigit (isDigit_toDigits hd)]
    rfl
  have hread : readWord (Nat.toDigits 10 n ++ '\n' :: rest) = some (.int n, '\n' :: rest) := by
    unfold readWord
    rw [List.takeWhile_append_of_pos hword, List.dropWhile_append_of_pos hword,
      List.takeWhile_cons_of_neg (by decide), List.dropWhile_cons_of_neg (by decide),
      List.append_nil]
    simp only [ofWord?_toDigits hn]
    rfl
  -- a digit is none of the characters that other values start with
  rw [hcs, List.cons_append] at hread ⊢
  have hother : readValue (c :: (cs ++ '\n' :: rest)) = readWord (c :: (cs ++ '\n' :: rest)) := by
    have hne : ∀ d : Char, d.isDigit = false → c ≠ d := by
      rintro d hd rfl
      rw [hd] at hc
      cases hc
    simp [readValue, readValueWithin, nestingLimit, hne '"' rfl, hne '\'' rfl, hne '[' rfl,
      hne '\x7b' rfl]
  rw [hother, hread]

/-! ## Keys -/

/-- A key that stands without quotes. -/
def IsKey (key : String) : Prop := key.toList ≠ [] ∧ ∀ c ∈ key.toList, isKeyChar c = true

theorem skipSpace_cons (h : isSpace c = false) (cs : List Char) :
    skipSpace (c :: cs) = c :: cs := by
  rw [skipSpace, List.dropWhile_cons_of_neg (by simp [h])]

/-- Characters of keys are no marks. -/
theorem IsKey.starts {key : String} (h : IsKey key) : ∃ c cs, key.toList = c :: cs ∧
    isSpace c = false ∧ ∀ d : Char, isKeyChar d = false → c ≠ d := by
  rcases List.exists_cons_of_ne_nil h.1 with ⟨c, cs, hcs⟩
  have hc : isKeyChar c = true := h.2 c (hcs ▸ List.mem_cons_self)
  have hne : ∀ d : Char, isKeyChar d = false → c ≠ d := by
    rintro d hd rfl
    rw [hd] at hc
    cases hc
  refine ⟨c, cs, hcs, ?_, hne⟩
  simp [isSpace, hne ' ' rfl, hne '\t' rfl]

/-- A key is read up to the mark behind it; blanks may stand between. -/
theorem readKey_key {key : String} (h : IsKey key) {mark : Char} {after : List Char}
    (hstop : ∀ c ∈ rest.head?, isKeyChar c = false) (hrest : skipSpace rest = mark :: after)
    (hmark : mark ≠ '.') : readKey (key.toList ++ rest) = some (([], key), mark :: after) := by
  rcases h.starts with ⟨c, cs, hcs, hspace, hne⟩
  have htake : (key.toList ++ rest).takeWhile isKeyChar = key.toList ∧
      (key.toList ++ rest).dropWhile isKeyChar = rest := by
    rw [List.takeWhile_append_of_pos h.2, List.dropWhile_append_of_pos h.2]
    cases rest with
    | nil => simp
    | cons d rest =>
      have hd := hstop d rfl
      simp [hd]
  have hpart : readKeyPart (key.toList ++ rest) = some (key, rest) := by
    unfold readKeyPart
    split
    · next heq =>
      rw [hcs] at heq
      exact absurd (List.cons.inj heq).1 (hne '"' rfl)
    · next heq =>
      rw [hcs] at heq
      exact absurd (List.cons.inj heq).1 (hne '\'' rfl)
    · dsimp only
      rw [htake.1, htake.2, if_neg (by simp [hcs]), String.ofList_toList]
  have hskip : skipSpace (key.toList ++ rest) = key.toList ++ rest := by
    rw [hcs]
    exact skipSpace_cons hspace _
  rw [readKey, show nestingLimit - 1 = 78 + 1 from rfl, readKeyWithin, hskip, hpart]
  simp only [Option.bind_eq_bind, Option.bind_some]
  rw [hrest]
  split
  · next heq => exact absurd (List.cons.inj heq).1 hmark
  · rfl

/-! ## Lines -/

/-- The statements of some lines, whatever follows. The reader takes at most as many steps as there
are characters. -/
def ReadsLines (lines : List Char) (statements : List Statement) : Prop :=
  ∃ n ≤ lines.length, ∀ fuel rest,
    readStatements (fuel + n) (lines ++ rest) = (readStatements fuel rest).map (statements ++ ·)

theorem readsLines_nil : ReadsLines [] [] := by
  refine ⟨0, Nat.le_refl _, ?_⟩
  intro fuel rest
  simp

theorem ReadsLines.append {lines lines' : List Char} {statements statements' : List Statement}
    (h : ReadsLines lines statements) (h' : ReadsLines lines' statements') :
    ReadsLines (lines ++ lines') (statements ++ statements') := by
  rcases h with ⟨n, hn, hread⟩
  rcases h' with ⟨n', hn', hread'⟩
  refine ⟨n' + n, ?_, ?_⟩
  · rw [List.length_append]
    omega
  · intro fuel rest
    rw [← Nat.add_assoc, List.append_assoc, hread, hread', Option.map_map]
    congr 1
    funext statements''
    simp

/-- One step of the reader. -/
theorem readsLines_line (statement : Option Statement) (hne : line ≠ [])
    (hspace : ∀ rest, skipSpace (line ++ rest) = line ++ rest)
    (hread : ∀ rest, readStatement (line ++ rest) = some (statement, '\n' :: rest) ∨
      readStatement (line ++ rest) = some (statement, line ++ rest) ∧
        lineEnd (line ++ rest) = some rest) :
    ReadsLines line statement.toList := by
  refine ⟨1, List.length_pos_iff.2 hne, ?_⟩
  intro fuel rest
  rw [readStatements, hspace]
  split
  · next heq => exact absurd (List.append_eq_nil_iff.1 heq).1 hne
  · rcases hread rest with hread | ⟨hread, hend⟩
    · rw [hread]
      have hend : lineEnd ('\n' :: rest) = some rest := rfl
      simp only [Option.bind_eq_bind, Option.bind_some, hend]
      cases readStatements fuel rest <;> rfl
    · rw [hread]
      simp only [Option.bind_eq_bind, Option.bind_some, hend]
      cases readStatements fuel rest <;> rfl

/-- An empty line says nothing. -/
theorem readsLines_blank : ReadsLines ['\n'] [] :=
  readsLines_line none (by simp) (fun _ => rfl) fun _ => .inr ⟨rfl, rfl⟩

/-- A header in brackets. -/
theorem readsLines_header {key : String} (h : IsKey key) :
    ReadsLines ('[' :: (key.toList ++ [']', '\n'])) [.header (.table [] key)] := by
  refine readsLines_line (some (.header (.table [] key))) (by simp) (fun _ => rfl) ?_
  intro rest
  left
  rcases h.starts with ⟨c, cs, hcs, -, hne⟩
  have hkey : readKey (key.toList ++ ']' :: '\n' :: rest) =
      some (([], key), ']' :: '\n' :: rest) :=
    readKey_key h (by simp [isKeyChar]) rfl (by decide)
  have hheader : readHeader (key.toList ++ ']' :: '\n' :: rest) =
      some (.table [] key, '\n' :: rest) := by
    unfold readHeader
    split
    · next heq =>
      rw [hcs] at heq
      exact absurd (List.cons.inj heq).1 (hne '[' rfl)
    · rw [hkey]
      rfl
  have hline : '[' :: (key.toList ++ [']', '\n']) ++ rest =
      '[' :: (key.toList ++ ']' :: '\n' :: rest) := by
    simp
  rw [hline, readStatement, hheader]
  rfl

/-- A key and its value. -/
theorem readsLines_assign {key : String} (h : IsKey key) (hvalue : Spells value v) :
    ReadsLines (key.toList ++ [' ', '=', ' '] ++ value ++ ['\n']) [.assign [] key v] := by
  rcases h.starts with ⟨c, cs, hcs, hspace, hne⟩
  refine readsLines_line (some (.assign [] key v)) (by simp) ?_ ?_
  · intro rest
    rw [hcs]
    exact skipSpace_cons hspace _
  · intro rest
    left
    have hline : key.toList ++ [' ', '=', ' '] ++ value ++ ['\n'] ++ rest =
        key.toList ++ ' ' :: '=' :: ' ' :: (value ++ '\n' :: rest) := by
      simp
    have hkey : readKey (key.toList ++ ' ' :: '=' :: ' ' :: (value ++ '\n' :: rest)) =
        some (([], key), '=' :: ' ' :: (value ++ '\n' :: rest)) :=
      readKey_key h (by simp [isKeyChar]) rfl (by decide)
    have hskip : skipSpace (' ' :: (value ++ '\n' :: rest)) = value ++ '\n' :: rest := by
      rcases hvalue.starts with ⟨d, ds, rfl, hd⟩
      exact skipSpace_cons hd _
    have hassign : readAssignment (key.toList ++ ' ' :: '=' :: ' ' :: (value ++ '\n' :: rest)) =
        some (.assign [] key v, '\n' :: rest) := by
      rw [readAssignment, hkey]
      simp only [Option.bind_eq_bind, Option.bind_some, hskip, hvalue.reads]
    -- the line is neither a header nor empty
    have hend : ∀ more, lineEnd (key.toList ++ more) = none := by
      intro more
      rw [hcs, List.cons_append, lineEnd, skipSpace_cons hspace]
      have hcomment : skipComment (c :: (cs ++ more)) = c :: (cs ++ more) := by
        simp [skipComment, hne '#' rfl]
      rw [hcomment]
      simp [hne '\n' rfl, hne '\r' rfl]
    rw [hline]
    unfold readStatement
    split
    · next heq =>
      rw [hcs] at heq
      exact absurd (List.cons.inj heq).1 (hne '[' rfl)
    · rw [hend]
      simp only [hassign]
      rfl

/-- The statements of a document that does not start with a byte order mark. -/
theorem parse?_of_readsLines {lines : List Char} {statements : List Statement}
    (h : ReadsLines lines statements) (hmark : skipMark lines = lines) :
    parse? (String.ofList lines) = ofStatements statements := by
  rcases h with ⟨n, hn, hread⟩
  have hfuel : lines.length + 1 = lines.length - n + 1 + n := by omega
  have hall : readStatements (lines.length + 1) lines = some statements := by
    have hend := hread (lines.length - n + 1) []
    rw [List.append_nil] at hend
    rw [hfuel, hend]
    simp [readStatements, skipSpace]
  rw [parse?, String.toList_ofList, hmark]
  simp only [hall, Option.bind_eq_bind, Option.bind_some]

/-! ## Tables -/

theorem get?_eq_none_iff {key : String} {ms : Members} :
    ms.get? key = none ↔ key ∉ ms.map (·.1) := by
  rw [Members.get?, List.lookup_eq_none_iff]
  constructor
  · intro h hmem
    rcases List.mem_map.1 hmem with ⟨m, hm, rfl⟩
    exact absurd (h m hm) (by simp)
  · intro h m hm
    rw [bne_iff_ne]
    rintro rfl
    exact h (List.mem_map_of_mem hm)

/-- Lines with different keys are kept in their order. -/
theorem foldlM_assigns {ms : Members} {d : Draft} (hnodup : (d.current ++ ms).map (·.1) |>.Nodup) :
    (ms.map fun m => Statement.assign [] m.1 m.2).foldlM Statement.run d =
      some { d with current := d.current ++ ms } := by
  induction ms generalizing d with
  | nil => simp
  | cons m ms ih =>
    have hnew : d.current.get? m.1 = none := by
      rw [get?_eq_none_iff]
      rw [List.map_append, List.nodup_append] at hnodup
      intro hmem
      exact hnodup.2.2 _ hmem _ (by simp) rfl
    have hrun : Statement.run d (.assign [] m.1 m.2) =
        some { d with current := d.current ++ [m] } := by
      simp [Statement.run, Members.assign, hnew]
    rw [List.map_cons, List.foldlM_cons, hrun]
    simp only [Option.bind_eq_bind, Option.bind_some]
    rw [ih (by simpa using hnodup)]
    simp

end ChangeImpact.Toml
