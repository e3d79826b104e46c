import ChangeImpact.Json.Decode
import ChangeImpact.Proofs.JsonStrings
import ChangeImpact.Text.Blank

/-!
# Documents that are written and read back

A document whose numbers are whole numbers of 64 bits can be read back from its text: the text has
the document's tree, and what is decoded from this tree can be said without the text.

* `Exact` — the documents that this is about; `tree` — the tree of a document;
* `Lexes` — the tokens of a text, whatever follows; `Builds` — the value that tokens make up;
* `reads_prettyAt`, `parse_pretty` — the text of a document has the document's tree;
* `list_tree`, `members_tree`, `fields_tree` — what decoders find in a tree.
-/

namespace ChangeImpact.Json

/-! ## Numbers -/

/-- A whole number as it is written. -/
def numeral (n : Int) : Numeral :=
  ⟨decide (n < 0), (Nat.toDigits 10 n.natAbs).map digitValue, none, none⟩

/-- Only zero starts with a zero. -/
theorem digitValue_head {n : Nat} {c : Char} {cs : List Char} (hn : 0 < n)
    (h : Nat.toDigits 10 n = c :: cs) : digitValue c ≠ 0 := by
  induction n using Nat.strongRecOn generalizing cs with
  | ind n ih =>
    rw [Nat.toDigits_eq_if (by decide)] at h
    split at h
    · next hlt =>
      obtain ⟨rfl, -⟩ := List.cons.inj h
      have hvalue : digitValue n.digitChar = n := Nat.toNat_digitChar_sub_48_of_lt_ten hlt
      omega
    · -- more digits: the first one is that of `n / 10`, which is not zero either
      obtain ⟨d, ds, hdigits⟩ :=
        List.exists_cons_of_ne_nil (Nat.toDigits_ne_nil (n := n / 10) (b := 10))
      rw [hdigits, List.cons_append] at h
      obtain ⟨rfl, -⟩ := List.cons.inj h
      exact ih (n / 10) (by omega) (by omega) hdigits

/-- A number of more than one digit does not start with a zero. -/
theorem no_leading_zero {n : Nat} {c : Char} {cs : List Char} (h : Nat.toDigits 10 n = c :: cs) :
    ¬(digitValue c = 0 ∧ cs.map digitValue ≠ []) := by
  rintro ⟨hzero, hmore⟩
  rcases Nat.eq_zero_or_pos n with rfl | hn
  · obtain ⟨-, rfl⟩ := List.cons.inj ((Nat.toDigits_zero 10).symm.trans h)
    exact hmore rfl
  · exact digitValue_head hn h hzero

theorem ofDigits_toDigits (n : Nat) : ofDigits ((Nat.toDigits 10 n).map digitValue) = n := by
  have hfold : ∀ (cs : List Char) (init : Nat),
      (cs.map digitValue).foldl (fun n d => n * 10 + d) init = Nat.ofDigitChars 10 cs init := by
    intro cs
    induction cs with
    | nil => intro init; rfl
    | cons c cs ih =>
      intro init
      rw [List.map_cons, List.foldl_cons, ih, Nat.ofDigitChars_cons, Nat.mul_comm]
      rfl
  rw [ofDigits, hfold, Nat.ofDigitChars_ten_toDigits]

/-- The whole numbers that are kept exactly. -/
def InRange (n : Int) : Prop := -9223372036854775808 ≤ n ∧ n ≤ maxWord64

instance (n : Int) : Decidable (InRange n) := inferInstanceAs (Decidable (_ ∧ _))

/-- A whole number is read back from its digits. -/
theorem value_numeral {n : Int} (h : InRange n) : (numeral n).value? = some (.int n) := by
  obtain ⟨hmin, hmax⟩ := h
  simp only [numeral, Numeral.value?, ofDigits_toDigits]
  by_cases hn : n < 0
  · -- a minus in front of zero would make a float
    have hwhole : n.natAbs ≠ 0 ∧ n.natAbs ≤ 9223372036854775808 := by omega
    have hfits : n.natAbs ≤ maxWord64 := by
      unfold maxWord64
      omega
    have hback : -(n.natAbs : Int) = n := by omega
    rw [if_pos hfits, if_neg (by simp [hn]), if_pos hwhole, hback]
  · have hfits : n.natAbs ≤ maxWord64 := by omega
    have hback : (n.natAbs : Int) = n := by omega
    rw [if_pos hfits, if_pos (by simp [hn]), hback]

/-! ## Tokens -/

/-- A text after whose start a number cannot go on. -/
def Ends (cs : List Char) : Prop := ∃ c rest, cs = c :: rest ∧ (c = ',' ∨ c = '\n')

theorem scanDigits_toDigits (n : Nat) {rest : List Char} (h : Ends rest) :
    scanDigits (Nat.toDigits 10 n ++ rest) = ((Nat.toDigits 10 n).map digitValue, rest) := by
  have hdigits : ∀ c ∈ Nat.toDigits 10 n, c.isDigit = true :=
    fun c hc => Nat.isDigit_of_mem_toDigits (by decide) (by decide) hc
  obtain ⟨c, cs, rfl, hc⟩ := h
  have hstop : c.isDigit = false := by rcases hc with rfl | rfl <;> decide
  rw [scanDigits, List.takeWhile_append_of_pos hdigits, List.dropWhile_append_of_pos hdigits,
    List.takeWhile_cons_of_neg (by simp [hstop]), List.dropWhile_cons_of_neg (by simp [hstop]),
    List.append_nil]

theorem scanNumeral_toDigits (negative : Bool) (n : Nat) {rest : List Char} (h : Ends rest) :
    scanNumeral negative (Nat.toDigits 10 n ++ rest) =
      some (⟨negative, (Nat.toDigits 10 n).map digitValue, none, none⟩, rest) := by
  have hscan := scanDigits_toDigits n h
  obtain ⟨c, cs, hdigits⟩ := List.exists_cons_of_ne_nil (Nat.toDigits_ne_nil (n := n) (b := 10))
  have hlead := no_leading_zero hdigits
  obtain ⟨e, es, rfl, he⟩ := h
  rw [scanNumeral, hscan, hdigits]
  simp only [List.map_cons, if_neg hlead]
  -- neither a point nor an exponent follows
  rcases he with rfl | rfl <;> rfl

/-- A token that starts with a digit is a number. -/
theorem scanToken_digit {c : Char} {cs rest : List Char} {n : Numeral} (hc : c.isDigit = true)
    (hscan : scanNumeral false (c :: cs) = some (n, rest)) :
    scanToken (c :: cs) = some (.num n, rest) := by
  unfold scanToken
  split <;> simp_all

theorem toList_toString_int (n : Int) : (toString n).toList =
    if n < 0 then '-' :: Nat.toDigits 10 n.natAbs else Nat.toDigits 10 n.natAbs := by
  cases n with
  | ofNat n => simp [toString, Int.repr]
  | negSucc n => simp [toString, Int.repr]

/-- More fuel does no harm. -/
theorem Token.scanWith_mono {fuel : Nat} {cs : List Char} {ts : List Token}
    (h : scanWith fuel cs = some ts) (more : Nat) : scanWith (fuel + more) cs = some ts := by
  induction fuel generalizing cs ts with
  | zero =>
    cases cs with
    | nil => rw [← h, scanWith, scanWith]
    | cons c cs => simp [scanWith] at h
  | succ fuel ih =>
    cases cs with
    | nil => rw [← h, scanWith, scanWith]
    | cons c cs =>
      rw [Nat.add_right_comm, scanWith]
      rw [scanWith] at h
      split at h
      · next hc => rw [if_pos hc, ih h]
      · next hc =>
        -- a token, and the tokens of the rest
        obtain ⟨⟨t, rest⟩, ht, hrest⟩ := Option.bind_eq_some_iff.1 h
        obtain ⟨us, hus, hts⟩ := Option.bind_eq_some_iff.1 hrest
        rw [if_neg hc, ht]
        simp only [Option.bind_eq_bind, Option.bind_some, ih hus]
        exact hts

/-- Before everything that satisfies `P` the text is made up of the tokens. The fuel of a scan
counts characters. -/
def Lexes (P : List Char → Prop) (s : String) (us : List Token) : Prop :=
  ∀ rest ts fuel, P rest → Token.scanWith fuel rest = some ts →
    Token.scanWith (fuel + (spelled s.toList).length) (spelled s.toList ++ rest) = some (us ++ ts)

/-- There is nothing that may not follow. -/
def Anything (_ : List Char) : Prop := True

variable {P Q : List Char → Prop} {s s' : String} {us vs : List Token} {t : Token}

theorem Lexes.append (h : Lexes P s us) (h' : Lexes Q s' vs)
    (hP : ∀ rest, P (spelled s'.toList ++ rest)) : Lexes Q (s ++ s') (us ++ vs) := by
  intro rest ts fuel hrest hts
  have hall := h _ (vs ++ ts) _ (hP rest) (h' rest ts fuel hrest hts)
  rw [String.toList_append, spelled_append, List.length_append, List.append_assoc,
    List.append_assoc, Nat.add_comm (spelled s.toList).length, ← Nat.add_assoc]
  exact hall

theorem lexes_blanks (h : ∀ c ∈ spelled s.toList, isSpace c = true) : Lexes P s [] := by
  intro rest ts fuel _ hts
  generalize spelled s.toList = cs at h
  induction cs with
  | nil => exact hts
  | cons c cs ih =>
    rw [List.length_cons, ← Nat.add_assoc, List.cons_append, Token.scanWith,
      if_pos (h c List.mem_cons_self)]
    exact ih fun d hd => h d (List.mem_cons_of_mem _ hd)

theorem lexes_token {c : Char} {cs : List Char} (hs : spelled s.toList = c :: cs)
    (hc : isSpace c = false)
    (ht : ∀ rest, P rest → scanToken (c :: (cs ++ rest)) = some (t, rest)) : Lexes P s [t] := by
  intro rest ts fuel hrest hts
  rw [hs, List.length_cons, ← Nat.add_assoc, List.cons_append, Token.scanWith,
    if_neg (by simp [hc]), ht rest hrest]
  -- a token takes one unit of fuel, however long it is
  simp only [Option.bind_eq_bind, Option.bind_some, Token.scanWith_mono hts]
  rfl

theorem lexes_quote (s : String) : Lexes P (quote s) [.str ⟨body s⟩] := by
  have htoken := scanToken_quote s
  rw [spelled_quote] at htoken
  exact lexes_token (spelled_quote s) (by decide) fun rest _ => htoken rest

theorem isSpace_of_isDigit {c : Char} (h : c.isDigit = true) : isSpace c = false := by
  obtain ⟨hmin, -⟩ := Text.toNat_of_isDigit h
  simp only [isSpace, Bool.or_eq_false_iff, beq_eq_false_iff_ne]
  refine ⟨⟨⟨?_, ?_⟩, ?_⟩, ?_⟩ <;> rintro rfl <;> revert hmin <;> decide

/-- A whole number is one token, unless a digit, a point or an exponent follows. -/
theorem lexes_int (n : Int) : Lexes Ends (toString n) [.num (numeral n)] := by
  have hdigit : ∀ c ∈ Nat.toDigits 10 n.natAbs, c.isDigit = true :=
    fun c hc => Nat.isDigit_of_mem_toDigits (by decide) (by decide) hc
  have hascii : spelled (Nat.toDigits 10 n.natAbs) = Nat.toDigits 10 n.natAbs :=
    spelled_ascii fun c hc => by
      have := Text.toNat_of_isDigit (hdigit c hc)
      omega
  by_cases hn : n < 0
  · have hs : spelled (toString n).toList = '-' :: Nat.toDigits 10 n.natAbs := by
      rw [toList_toString_int, if_pos hn, spelled_cons, hascii, byteChars_ascii (by decide)]
      rfl
    refine lexes_token hs (by decide) fun rest hrest => ?_
    have htoken (cs : List Char) : scanToken ('-' :: cs) =
        (scanNumeral true cs).map fun p => (.num p.1, p.2) := rfl
    rw [htoken, scanNumeral_toDigits _ _ hrest, numeral, decide_eq_true hn]
    rfl
  · obtain ⟨c, cs, hdigits⟩ :=
      List.exists_cons_of_ne_nil (Nat.toDigits_ne_nil (n := n.natAbs) (b := 10))
    have hs : spelled (toString n).toList = c :: cs := by
      rw [toList_toString_int, if_neg hn, hascii, hdigits]
    have hc : c.isDigit = true := hdigit c (hdigits ▸ List.mem_cons_self)
    refine lexes_token hs (isSpace_of_isDigit hc) fun rest hrest => ?_
    have hscan := scanNumeral_toDigits false n.natAbs hrest
    rw [hdigits, List.cons_append] at hscan
    rw [scanToken_digit hc hscan, numeral, hdigits, decide_eq_false hn]

theorem mem_newLine {level : Nat} {c : Char} (h : c ∈ (newLine level).toList) :
    c = '\n' ∨ c = ' ' := by
  simp only [newLine, String.toList_append, String.toList_ofList, List.mem_append] at h
  rcases h with h | h
  · exact .inl (List.mem_singleton.1 h)
  · exact .inr (List.eq_of_mem_replicate h)

theorem spelled_newLine (level : Nat) :
    spelled (newLine level).toList = (newLine level).toList := by
  refine spelled_ascii fun c hc => ?_
  rcases mem_newLine hc with rfl | rfl <;> decide

theorem lexes_newLine (level : Nat) : Lexes P (newLine level) [] := by
  refine lexes_blanks fun c hc => ?_
  rw [spelled_newLine] at hc
  rcases mem_newLine hc with rfl | rfl <;> decide

/-- A mark of one character. -/
theorem lexes_mark {c : Char} (hs : spelled s.toList = [c]) (hc : isSpace c = false)
    (ht : ∀ rest, scanToken (c :: rest) = some (t, rest)) : Lexes P s [t] :=
  lexes_token hs hc fun rest _ => ht rest

/-- A name and a colon in front of a value. -/
theorem Lexes.named (name : String) (h : Lexes Ends s us) :
    Lexes Ends (quote name ++ ": " ++ s) (.str ⟨body name⟩ :: .colon :: us) := by
  have hcolon : Lexes Anything ":" [.colon] :=
    lexes_mark (c := ':') (by decide) (by decide) fun _ => rfl
  have hblank : Lexes Anything " " [] := by
    have hspelled : spelled " ".toList = [' '] := by decide
    refine lexes_blanks fun c hc => ?_
    rw [hspelled] at hc
    obtain rfl := List.mem_singleton.1 hc
    decide
  have hname : Lexes Anything (quote name ++ ": ") [.str ⟨body name⟩, .colon] :=
    (lexes_quote name (P := Anything)).append
      (hcolon.append hblank fun _ => trivial) fun _ => trivial
  exact hname.append h fun _ => trivial

theorem Lexes.onLine (level : Nat) (h : Lexes P s us) : Lexes P (newLine level ++ s) us :=
  (lexes_newLine level (P := Anything)).append h fun _ => trivial

/-- A comma between two values. -/
theorem Lexes.comma (h : Lexes Ends s us) (h' : Lexes P s' vs) :
    Lexes P (s ++ "," ++ s') (us ++ .comma :: vs) := by
  have hcomma : Lexes Anything "," [.comma] :=
    lexes_mark (c := ',') (by decide) (by decide) fun _ => rfl
  have hfirst : Lexes Anything (s ++ ",") (us ++ [.comma]) :=
    h.append hcomma fun rest => ⟨',', rest, rfl, .inl rfl⟩
  have hall := hfirst.append h' fun _ => trivial
  rwa [List.append_assoc] at hall

/-- Brackets around what stands on lines of its own. -/
theorem Lexes.bracketed {l r : String} {t u : Token} (level : Nat) (h : Lexes Ends s us)
    (hl : Lexes Anything l [t]) (hr : Lexes Anything r [u]) :
    Lexes P (l ++ s ++ newLine level ++ r) (t :: us ++ [u]) := by
  have hopen : Lexes Ends (l ++ s) (t :: us) := hl.append h fun _ => trivial
  have hclose : Lexes P (newLine level ++ r) [u] :=
    Lexes.onLine level fun rest ts fuel _ => hr rest ts fuel trivial
  rw [String.append_assoc]
  refine hopen.append hclose fun rest => ?_
  -- the bracket that closes stands on a new line, where a number ends
  rw [String.toList_append, spelled_append, List.append_assoc, spelled_newLine, newLine,
    String.toList_append]
  exact ⟨'\n', _, rfl, .inr rfl⟩

/-! ## The machine -/

/-- Where a value may come, the tokens make up the value. -/
def Builds (us : List Token) (v : Raw) : Prop :=
  ∀ m : Machine, m.expect = .value ∨ m.expect = .firstItem →
    us.foldlM Machine.step m = some (m.finish v)

/-- In an array the tokens make up further items. -/
def BuildsItems (us : List Token) (items : List Raw) : Prop :=
  ∀ (m : Machine) done rest, m.stack = .arr done :: rest →
    m.expect = .value ∨ m.expect = .firstItem →
    us.foldlM Machine.step m =
      some { m with stack := .arr (items.reverse ++ done) :: rest, expect := .after }

/-- In an object the tokens make up further members. -/
def BuildsMembers (us : List Token) (members : List (StringBody × Raw)) : Prop :=
  ∀ (m : Machine) done name rest, m.stack = .obj done name :: rest →
    m.expect = .name ∨ m.expect = .firstName →
    ∃ last, us.foldlM Machine.step m =
      some { m with stack := .obj (members.reverse ++ done) last :: rest, expect := .after }

theorem Machine.step_value {m : Machine} (h : m.expect = .value ∨ m.expect = .firstItem)
    (ht : t ≠ .closeBracket) : m.step t = m.begin t := by
  obtain ⟨stack, expect, root⟩ := m
  rcases h with rfl | rfl
  · rfl
  · cases t with
    | closeBracket => exact absurd rfl ht
    | openBrace | closeBrace | openBracket | colon | comma | null | bool | num | str => rfl

/-- A value that is one token. -/
theorem builds_single {v : Raw} (ht : t ≠ .closeBracket)
    (hv : ∀ m : Machine, m.begin t = some (m.finish v)) : Builds [t] v := by
  intro m hm
  rw [List.foldlM_cons, Machine.step_value hm ht, hv]
  rfl

theorem Builds.items {v : Raw} (h : Builds us v) : BuildsItems us [v] := by
  intro m done rest hstack hm
  rw [h m hm, Machine.finish, hstack]
  rfl

/-- A first item before others. -/
theorem Builds.consItems {v : Raw} {items : List Raw} (h : Builds us v)
    (h' : BuildsItems vs items) : BuildsItems (us ++ .comma :: vs) (v :: items) := by
  intro m done rest hstack hm
  rw [List.foldlM_append, h m hm, Machine.finish, hstack]
  have hlater := h' ⟨.arr (v :: done) :: rest, .value, m.root⟩ (v :: done) rest rfl (.inl rfl)
  rw [List.reverse_cons, List.append_assoc]
  exact hlater

/-- What the machine expected does not matter when a value is complete. -/
theorem Machine.finish_eq {m : Machine} {expect : Expect} (v : Raw) :
    ({ m with expect := expect }.finish v) = m.finish v := by
  obtain ⟨stack, _, root⟩ := m
  cases stack with
  | nil => rfl
  | cons frame rest => cases frame <;> rfl

theorem builds_empty_array : Builds [.openBracket, .closeBracket] (.arr []) := by
  intro m hm
  rw [List.foldlM_cons, Machine.step_value hm (by simp)]
  exact congrArg some (Machine.finish_eq _)

theorem BuildsItems.array {items : List Raw} (h : BuildsItems us items) :
    Builds (.openBracket :: us ++ [.closeBracket]) (.arr items) := by
  intro m hm
  have hinner := h ⟨.arr [] :: m.stack, .firstItem, m.root⟩ [] m.stack rfl (.inr rfl)
  rw [List.cons_append, List.foldlM_cons, Machine.step_value hm (by simp)]
  simp only [Machine.begin, Option.bind_eq_bind, Option.bind_some, List.foldlM_append, hinner]
  rw [List.append_nil]
  -- the items were collected backwards
  show some (Machine.finish _ _) = _
  rw [List.reverse_reverse]
  exact congrArg some (Machine.finish_eq _)

theorem Builds.members {name : StringBody} {v : Raw} (h : Builds us v) :
    BuildsMembers (.str name :: .colon :: us) [(name, v)] := by
  intro m done last rest hstack hm
  obtain ⟨stack, expect, root⟩ := m
  obtain rfl : stack = _ := hstack
  have hvalue := h ⟨.obj done name :: rest, .value, root⟩ (.inl rfl)
  refine ⟨name, ?_⟩
  rcases hm with rfl | rfl <;> exact hvalue

theorem Builds.consMembers {name : StringBody} {v : Raw} {members : List (StringBody × Raw)}
    (h : Builds us v) (h' : BuildsMembers vs members) :
    BuildsMembers (.str name :: .colon :: us ++ .comma :: vs) ((name, v) :: members) := by
  intro m done last rest hstack hm
  obtain ⟨last', hfirst⟩ := h.members m done last rest hstack hm
  obtain ⟨last'', hlater⟩ := h' ⟨.obj ((name, v) :: done) last' :: rest, .name, m.root⟩
    ((name, v) :: done) last' rest rfl (.inl rfl)
  have hreverse : ((name, v) :: members).reverse ++ done =
      members.reverse ++ (name, v) :: done := by
    simp
  refine ⟨last'', ?_⟩
  rw [List.foldlM_append, hfirst, hreverse]
  exact hlater

theorem builds_empty_object : Builds [.openBrace, .closeBrace] (.obj []) := by
  intro m hm
  rw [List.foldlM_cons, Machine.step_value hm (by simp)]
  exact congrArg some (Machine.finish_eq _)

theorem BuildsMembers.object {members : List (StringBody × Raw)} (h : BuildsMembers us members) :
    Builds (.openBrace :: us ++ [.closeBrace]) (.obj members) := by
  intro m hm
  obtain ⟨last, hinner⟩ :=
    h ⟨.obj [] ⟨[]⟩ :: m.stack, .firstName, m.root⟩ [] ⟨[]⟩ m.stack rfl (.inr rfl)
  rw [List.cons_append, List.foldlM_cons, Machine.step_value hm (by simp)]
  simp only [Machine.begin, Option.bind_eq_bind, Option.bind_some, List.foldlM_append, hinner]
  rw [List.append_nil]
  show some (Machine.finish _ _) = _
  rw [List.reverse_reverse]
  exact congrArg some (Machine.finish_eq _)

/-! ## Documents -/

/-- All numbers are whole and of 64 bits. -/
inductive Exact : Json → Prop where
  | null : Exact .null
  | bool (b : Bool) : Exact (.bool b)
  | int {n : Int} (h : InRange n) : Exact (.num (.int n))
  | str (s : String) : Exact (.str s)
  | arr {items : List Json} (h : ∀ v ∈ items, Exact v) : Exact (.arr items)
  | obj {members : List (String × Json)} (h : ∀ m ∈ members, Exact m.2) : Exact (.obj members)

mutual

/-- The tree of a document. Floats, which this is not about, have no place in it. -/
def tree : Json → Raw
  | .null => .null
  | .bool b => .bool b
  | .num (.int n) => .num (numeral n)
  | .num (.float _) => .null
  | .str s => .str ⟨body s⟩
  | .arr items => .arr (itemTrees items)
  | .obj members => .obj (memberTrees members)

/-- The trees of the items of an array. -/
def itemTrees : List Json → List Raw
  | [] => []
  | v :: vs => tree v :: itemTrees vs

/-- The trees of the members of an object. -/
def memberTrees : List (String × Json) → List (StringBody × Raw)
  | [] => []
  | (name, v) :: ms => (⟨body name⟩, tree v) :: memberTrees ms

end

/-- The text is that of the tree, if it is followed by a comma or a new line. -/
def Reads (s : String) (v : Raw) : Prop := ∃ us, Lexes Ends s us ∧ Builds us v

theorem reads_items {level : Nat} {items : List Json} (hne : items ≠ [])
    (h : ∀ v ∈ items, Reads (prettyAt level v) (tree v)) :
    ∃ us, Lexes Ends (prettyItems level items) us ∧ BuildsItems us (itemTrees items) := by
  induction items with
  | nil => exact absurd rfl hne
  | cons v items ih =>
    obtain ⟨us, hlex, hbuild⟩ := h v List.mem_cons_self
    cases items with
    | nil => exact ⟨us, hlex.onLine level, hbuild.items⟩
    | cons w items =>
      obtain ⟨ws, hlex', hbuild'⟩ := ih (by simp) fun v hv => h v (List.mem_cons_of_mem _ hv)
      refine ⟨us ++ .comma :: ws, ?_, hbuild.consItems hbuild'⟩
      rw [prettyItems]
      · exact (hlex.onLine level).comma hlex'
      · simp

theorem reads_members {level : Nat} {members : List (String × Json)} (hne : members ≠ [])
    (h : ∀ m ∈ members, Reads (prettyAt level m.2) (tree m.2)) :
    ∃ us, Lexes Ends (prettyMembers level members) us ∧
      BuildsMembers us (memberTrees members) := by
  induction members with
  | nil => exact absurd rfl hne
  | cons m members ih =>
    obtain ⟨name, v⟩ := m
    obtain ⟨us, hlex, hbuild⟩ := h (name, v) List.mem_cons_self
    have hline := (hlex.named name).onLine level
    rw [← String.append_assoc, ← String.append_assoc] at hline
    cases members with
    | nil => exact ⟨_, hline, hbuild.members⟩
    | cons w members =>
      obtain ⟨ws, hlex', hbuild'⟩ := ih (by simp) fun v hv => h v (List.mem_cons_of_mem _ hv)
      refine ⟨_, ?_, hbuild.consMembers hbuild'⟩
      rw [prettyMembers]
      · exact hline.comma hlex'
      · simp

theorem lexes_openBracket : Lexes P "[" [.openBracket] :=
  lexes_mark (c := '[') (by decide) (by decide) fun _ => rfl

theorem lexes_closeBracket : Lexes P "]" [.closeBracket] :=
  lexes_mark (c := ']') (by decide) (by decide) fun _ => rfl

theorem lexes_openBrace : Lexes P "\x7b" [.openBrace] :=
  lexes_mark (c := '\x7b') (by decide) (by decide) fun _ => rfl

theorem lexes_closeBrace : Lexes P "\x7d" [.closeBrace] :=
  lexes_mark (c := '\x7d') (by decide) (by decide) fun _ => rfl

/-- The text of a document is that of its tree, at every level. The items of an array stand one
level further in, so the level is general. -/
theorem reads_prettyAt {j : Json} (h : Exact j) (level : Nat) :
    Reads (prettyAt level j) (tree j) := by
  induction h generalizing level with
  | null =>
    have hlex : Lexes Ends "null" [.null] :=
      lexes_token (show _ = 'n' :: ['u', 'l', 'l'] by decide) (by decide) fun _ _ => rfl
    exact ⟨_, hlex, builds_single (by simp) fun _ => rfl⟩
  | bool b =>
    have hlex : Lexes Ends (if b then "true" else "false") [.bool b] := by
      cases b with
      | true =>
        exact lexes_token (show _ = 't' :: ['r', 'u', 'e'] by decide) (by decide) fun _ _ => rfl
      | false =>
        exact lexes_token (show _ = 'f' :: ['a', 'l', 's', 'e'] by decide) (by decide)
          fun _ _ => rfl
    exact ⟨_, hlex, builds_single (by simp) fun _ => rfl⟩
  | int h => exact ⟨_, lexes_int _, builds_single (by simp) fun _ => rfl⟩
  | str s => exact ⟨_, lexes_quote s, builds_single (by simp) fun _ => rfl⟩
  | @arr items _ ih =>
    cases items with
    | nil =>
      have hlex : Lexes Ends ("[" ++ "]") [.openBracket, .closeBracket] :=
        (lexes_openBracket (P := Anything)).append lexes_closeBracket fun _ => trivial
      exact ⟨_, hlex, builds_empty_array⟩
    | cons v items =>
      obtain ⟨us, hlex, hbuild⟩ :=
        reads_items (List.cons_ne_nil v items) fun w hw => ih w hw (level + 1)
      refine ⟨_, ?_, hbuild.array⟩
      rw [prettyAt]
      · exact hlex.bracketed level lexes_openBracket lexes_closeBracket
      · simp
  | @obj members _ ih =>
    cases members with
    | nil =>
      have hlex : Lexes Ends ("\x7b" ++ "\x7d") [.openBrace, .closeBrace] :=
        (lexes_openBrace (P := Anything)).append lexes_closeBrace fun _ => trivial
      exact ⟨_, hlex, builds_empty_object⟩
    | cons m members =>
      obtain ⟨us, hlex, hbuild⟩ :=
        reads_members (List.cons_ne_nil m members) fun w hw => ih w hw (level + 1)
      refine ⟨_, ?_, hbuild.object⟩
      rw [prettyAt]
      · exact hlex.bracketed level lexes_openBrace lexes_closeBrace
      · simp

/-- The text of a document has the document's tree. -/
theorem parse_pretty {j : Json} (h : Exact j) :
    Raw.parse? (j.pretty ++ "\n").toUTF8 = some (tree j) := by
  obtain ⟨us, hlex, hbuild⟩ := reads_prettyAt h 0
  -- the line feed at the end is what a number at the outermost level ends at
  have hend : Token.scanWith 1 ['\n'] = some [] := rfl
  have hscan : Token.scan? (spelled (j.pretty ++ "\n").toList) = some us := by
    have hall := hlex ['\n'] [] 1 ⟨'\n', [], rfl, .inr rfl⟩ hend
    rw [List.append_nil] at hall
    rw [Token.scan?, String.toList_append, spelled_append, List.length_append]
    rw [Nat.add_comm]
    exact hall
  rw [Raw.parse?, bytesAsChars_toUTF8, hscan]
  simp only [Option.bind_eq_bind, Option.bind_some, Raw.ofTokens?, hbuild .start (.inl rfl)]
  rfl

/-! ## Decoders -/

variable {α β : Type} {d : Decoder β} {depth : Nat}

theorem itemTrees_eq_map (items : List Json) : itemTrees items = items.map tree := by
  induction items with
  | nil => rfl
  | cons v items ih => rw [itemTrees, ih, List.map_cons]

theorem memberTrees_eq_map (members : List (String × Json)) :
    memberTrees members = members.map fun m => (⟨body m.1⟩, tree m.2) := by
  induction members with
  | nil => rfl
  | cons m members ih => rw [memberTrees, ih, List.map_cons]

theorem text_tree (s : String) : Decoder.text depth (tree (.str s)) = some s :=
  decode_body s

theorem number_tree {n max : Nat} (hn : n ≤ max) (hmax : max ≤ maxWord64) :
    Decoder.number max depth (tree (.nat n)) = some n := by
  have hrange : InRange n := by
    unfold InRange
    omega
  have hbounds : (0 : Int) ≤ n ∧ (n : Int) ≤ max := by omega
  simp only [Json.nat, tree, Decoder.number, value_numeral hrange, if_pos hbounds,
    Int.toNat_natCast]

theorem mapM_eq_some_map {f : α → Option β} {g : α → β} {l : List α}
    (h : ∀ a ∈ l, f a = some (g a)) :
    l.mapM f = some (l.map g) := by
  induction l with
  | nil => rfl
  | cons a l ih =>
    rw [List.mapM_cons, h a List.mem_cons_self, ih fun b hb => h b (List.mem_cons_of_mem _ hb)]
    rfl

/-- A list is decoded item by item. -/
theorem list_tree {xs : List α} {encode : α → Json} {f : α → β} (hdepth : 1 < depth)
    (h : ∀ x ∈ xs, d (depth - 1) (tree (encode x)) = some (f x)) :
    Decoder.list d depth (tree (.arr (xs.map encode))) = some (xs.map f) := by
  rw [tree, itemTrees_eq_map, List.map_map, Decoder.list]
  simp only [if_neg (Nat.not_le_of_gt hdepth), List.mapM_map]
  exact mapM_eq_some_map h

/-- The members of an object are decoded one by one. -/
theorem members_tree {ms : List (String × α)} (encode : α → Json) (f : α → β) (hdepth : 1 < depth)
    (h : ∀ m ∈ ms, d (depth - 1) (tree (encode m.2)) = some (f m.2)) :
    Decoder.members d depth (tree (.obj (ms.map fun m => (m.1, encode m.2)))) =
      some (ms.map fun m => (m.1, f m.2)) := by
  rw [tree, memberTrees_eq_map, List.map_map, Decoder.members]
  simp only [if_neg (Nat.not_le_of_gt hdepth), List.mapM_map]
  refine mapM_eq_some_map fun m hm => ?_
  simp only [Function.comp_apply, decode_body, h m hm, Option.bind_eq_bind, Option.bind_some]
  rfl

/-- A known field that was not given before is added. -/
theorem add_tree {names : List String} {done : Fields} {name : String} (v : Json)
    (hknown : name ∈ names) (hnew : name ∉ done.map (·.1)) :
    Fields.add names done (⟨body name⟩, tree v) = some (done ++ [(name, tree v)]) := by
  have hknown' : (!names.contains name) = false := by simpa using hknown
  have hnew' : (done.map (·.1)).contains name = false := by simpa using hnew
  simp only [Fields.add, decode_body, Option.bind_eq_bind, Option.bind_some, hknown', hnew']
  rfl

theorem addAll_tree {names : List String} {ms : List (String × Json)} {done : Fields}
    (hnames : ∀ m ∈ ms, m.1 ∈ names) (hnodup : (done.map (·.1) ++ ms.map (·.1)).Nodup) :
    (memberTrees ms).foldlM (Fields.add names) done =
      some (done ++ ms.map fun m => (m.1, tree m.2)) := by
  induction ms generalizing done with
  | nil => simp [memberTrees]
  | cons m ms ih =>
    rw [List.map_cons] at hnodup
    have hnew : m.1 ∉ done.map (·.1) := fun h =>
      (List.nodup_append.1 hnodup).2.2 m.1 h m.1 List.mem_cons_self rfl
    have hlater : ((done ++ [(m.1, tree m.2)]).map (·.1) ++ ms.map (·.1)).Nodup := by
      simpa using hnodup
    rw [memberTrees, List.foldlM_cons, add_tree m.2 (hnames m List.mem_cons_self) hnew,
      Option.bind_eq_bind, Option.bind_some,
      ih (fun m hm => hnames m (List.mem_cons_of_mem _ hm)) hlater]
    simp

/-- The fields of a record that is written with fields it knows, each once. -/
theorem fields_tree {names : List String} {ms : List (String × Json)} (hdepth : 1 < depth)
    (hnodup : (ms.map (·.1)).Nodup) (hnames : ∀ m ∈ ms, m.1 ∈ names) :
    (tree (.obj ms)).fields? names depth = some (ms.map fun m => (m.1, tree m.2)) := by
  have hall : (memberTrees ms).foldlM (Fields.add names) [] = _ := addAll_tree hnames hnodup
  rw [tree, Raw.fields?, if_neg (Nat.not_le_of_gt hdepth), hall, List.nil_append]

theorem lookup_tree {ms : List (String × Json)} {name : String} {j : Json}
    (hnodup : (ms.map (·.1)).Nodup) (hj : (name, j) ∈ ms) :
    (ms.map fun m => (m.1, tree m.2)).lookup name = some (tree j) := by
  induction ms with
  | nil => cases hj
  | cons m ms ih =>
    obtain ⟨hfirst, hnodup⟩ := List.nodup_cons.1 hnodup
    rcases List.mem_cons.1 hj with rfl | hj
    · simp
    · have hne : name ≠ m.1 := by
        rintro rfl
        exact hfirst (List.mem_map.2 ⟨_, hj, rfl⟩)
      rw [List.map_cons, List.lookup_cons, beq_false_of_ne hne, ih hnodup hj]

/-- A field that is given is found and decoded. -/
theorem need_tree {ms : List (String × Json)} {name : String} {j : Json} {b : β}
    (hnodup : (ms.map (·.1)).Nodup) (hj : (name, j) ∈ ms) (hb : d (depth - 1) (tree j) = some b) :
    Fields.need (ms.map fun m => (m.1, tree m.2)) depth d name = some b := by
  rw [Fields.need, lookup_tree hnodup hj]
  exact hb

end ChangeImpact.Json
