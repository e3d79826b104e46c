import ChangeImpact.Json.Printer
import ChangeImpact.Json.Reader
import Mathlib.Tactic.Common

/-!
# Strings in JSON texts

A text that is put in quotes can be read back: the lexer cuts it off after its closing quote, and
the body stands for the bytes of the text. This holds for every text, because the bytes of a
character beyond ASCII are none of the characters that mean something inside of quotes.

* `byteChars`, `spelled` — the bytes of characters, as the lexer sees them;
* `scanToken_quote` — a quoted text is one token;
* `decode_body` — its body stands for the text;
* `Scans` — a scan that succeeds, whatever its fuel; it is taken apart a token at a time.
-/

namespace ChangeImpact.Json

open Text (hexDigit)

/-! ## Bytes as characters -/

/-- The bytes of a character, each as the character of its code. -/
def byteChars (c : Char) : List Char :=
  (String.utf8EncodeChar c).map fun b => Char.ofNat b.toNat

/-- The bytes of a list of characters. -/
def spelled (cs : List Char) : List Char :=
  cs.flatMap byteChars

@[simp] theorem spelled_cons (c : Char) (cs : List Char) :
    spelled (c :: cs) = byteChars c ++ spelled cs := rfl

@[simp] theorem spelled_append (cs ds : List Char) :
    spelled (cs ++ ds) = spelled cs ++ spelled ds :=
  List.flatMap_append

theorem data_toUTF8 (s : String) :
    s.toUTF8.data.toList = s.toList.flatMap String.utf8EncodeChar := by
  rw [String.toUTF8_eq_toByteArray, ← String.utf8Encode_toList, List.utf8Encode]
  simp

theorem bytesAsChars_toUTF8 (s : String) : bytesAsChars s.toUTF8 = spelled s.toList := by
  rw [bytesAsChars, data_toUTF8, List.map_flatMap]
  rfl

theorem toNat_ofNat_byte (b : UInt8) : (Char.ofNat b.toNat).toNat = b.toNat := by
  have hb : b.toNat < 256 := b.toNat_lt
  have hvalid : b.toNat.isValidChar := Or.inl (by omega)
  rw [Char.ofNat, dif_pos hvalid]
  rfl

theorem toUInt8_toNat_byte (b : UInt8) : (Char.ofNat b.toNat).toNat.toUInt8 = b := by
  rw [toNat_ofNat_byte]
  simp

/-- An ASCII character is its own byte. -/
theorem byteChars_ascii {c : Char} (h : c.toNat < 128) : byteChars c = [c] := by
  have hv : c.val.toNat ≤ 0x7f := Nat.le_of_lt_succ h
  have hval : (UInt8.ofNat c.val.toNat).toNat = c.toNat := by
    rw [UInt8.toNat_ofNat_of_lt' (by simp only [UInt8.size]; omega)]
    rfl
  simp only [byteChars, String.utf8EncodeChar, if_pos hv, List.map_cons, List.map_nil, hval,
    Char.ofNat_toNat]

/-- All bytes of other characters are beyond ASCII. -/
theorem le_of_mem_byteChars {c x : Char} (h : 128 ≤ c.toNat) (hx : x ∈ byteChars c) :
    128 ≤ x.toNat := by
  obtain ⟨b, hb, rfl⟩ := List.mem_map.1 hx
  rw [toNat_ofNat_byte]
  have hv : ¬ c.val.toNat ≤ 0x7f := Nat.not_le_of_gt h
  -- Every byte is a mark of at least 128 plus some bits of the code.
  have hbyte : ∀ n, 128 ≤ n → n < 256 → 128 ≤ (UInt8.ofNat n).toNat := by
    intro n hn hlt
    rwa [UInt8.toNat_ofNat_of_lt' hlt]
  simp only [String.utf8EncodeChar, if_neg hv] at hb
  split at hb
  · rcases List.mem_cons.1 hb with rfl | hb
    · exact hbyte _ (by omega) (by omega)
    · obtain rfl := List.mem_singleton.1 hb
      exact hbyte _ (by omega) (by omega)
  · split at hb <;> simp only [List.mem_cons, List.not_mem_nil, or_false] at hb
    · rcases hb with rfl | rfl | rfl <;> exact hbyte _ (by omega) (by omega)
    · rcases hb with rfl | rfl | rfl | rfl <;> exact hbyte _ (by omega) (by omega)

theorem spelled_ascii {cs : List Char} (h : ∀ c ∈ cs, c.toNat < 128) : spelled cs = cs := by
  induction cs with
  | nil => rfl
  | cons c cs ih =>
    have hc : c.toNat < 128 := h c (by simp)
    have hcs : ∀ d ∈ cs, d.toNat < 128 := fun d hd => h d (by simp [hd])
    rw [spelled_cons, byteChars_ascii hc, ih hcs]
    rfl

/-! ## Bodies of strings -/

/-- What stands between the quotes when a text is written. -/
def body (s : String) : List Char :=
  spelled (s.toList.flatMap escapeChar)

theorem hexWord_hexDigit (n : Nat) (h : n < 0x20) :
    hexWord? '0' '0' (hexDigit 'a' (n / 16)) (hexDigit 'a' (n % 16)) = some n := by
  revert n
  decide

theorem hexDigit_ascii (n : Nat) (h : n < 16) : (hexDigit 'a' n).toNat < 128 := by
  revert n
  decide

/-- A character without a meaning inside of quotes is passed over. -/
theorem scanString_plain {c : Char} (hquote : c ≠ '"') (hslash : c ≠ '\\')
    (hcontrol : 0x20 ≤ c.toNat) (rest : List Char) :
    scanString (c :: rest) = (scanString rest).map fun p => (c :: p.1, p.2) := by
  have hnot : ¬ (c.toNat < 0x20 ∨ c = '\\') := by
    rintro (h | h)
    · omega
    · exact hslash h
  rw [scanString.eq_def]
  split
  · simp at *
  · simp_all
  · simp_all
  · simp_all
  · rename_i heq
    obtain ⟨rfl, rfl⟩ := List.cons.inj heq
    rw [if_neg hnot]
    cases scanString rest <;> rfl

theorem decodeBytes_plain {c : Char} (hslash : c ≠ '\\') (rest : List Char) :
    decodeBytes (c :: rest) = (decodeBytes rest).map (c.toNat.toUInt8 :: ·) := by
  rw [decodeBytes.eq_def]
  split
  · simp at *
  · simp_all
  · simp_all
  · rename_i heq
    obtain ⟨rfl, rfl⟩ := List.cons.inj heq
    cases decodeBytes rest <;> rfl

theorem scanString_escape {c e : Char} (he : e ≠ 'u') (hc : simpleEscape? e = some c)
    (rest : List Char) :
    scanString ('\\' :: e :: rest) =
      (scanString rest).map fun p => ('\\' :: e :: p.1, p.2) := by
  rw [scanString.eq_def]
  split
  · simp at *
  · simp_all
  · simp_all
  · rename_i heq
    obtain ⟨-, hrest⟩ := List.cons.inj heq
    obtain ⟨rfl, rfl⟩ := List.cons.inj hrest
    simp only [hc]
    cases scanString rest <;> rfl
  · rename_i hother heq
    obtain ⟨rfl, rfl⟩ := List.cons.inj heq
    exact absurd rfl (hother e rest rfl)

theorem decodeBytes_escape {c e : Char} (he : e ≠ 'u') (hc : simpleEscape? e = some c)
    (rest : List Char) :
    decodeBytes ('\\' :: e :: rest) =
      (decodeBytes rest).map (utf8Bytes c.toNat ++ ·) := by
  rw [decodeBytes.eq_def]
  split
  · simp at *
  · simp_all
  · rename_i heq
    obtain ⟨-, hrest⟩ := List.cons.inj heq
    obtain ⟨rfl, rfl⟩ := List.cons.inj hrest
    simp only [hc]
    cases decodeBytes rest <;> rfl
  · rename_i hother heq
    obtain ⟨rfl, rfl⟩ := List.cons.inj heq
    exact absurd rfl (hother e rest rfl)

theorem scanString_code {a b c d : Char} {n : Nat} (h : hexWord? a b c d = some n)
    (rest : List Char) :
    scanString ('\\' :: 'u' :: a :: b :: c :: d :: rest) =
      (scanString rest).map fun p => ('\\' :: 'u' :: a :: b :: c :: d :: p.1, p.2) := by
  rw [scanString.eq_def]
  simp only [h]
  cases scanString rest <;> rfl

theorem decodeBytes_code {a b c d : Char} {n : Nat} (h : hexWord? a b c d = some n)
    (hn : n < 0xD800) (rest : List Char) :
    decodeBytes ('\\' :: 'u' :: a :: b :: c :: d :: rest) =
      (decodeBytes rest).map (utf8Bytes n ++ ·) := by
  have hlow : ¬ (0xDC00 ≤ n ∧ n ≤ 0xDFFF) := by omega
  have hhigh : ¬ (0xD800 ≤ n ∧ n ≤ 0xDBFF) := by omega
  rw [decodeBytes.eq_def]
  simp only [h, Option.bind_eq_bind, Option.bind_some, if_neg hlow, if_neg hhigh]
  cases decodeBytes rest <;> rfl

theorem utf8Bytes_toNat (c : Char) : utf8Bytes c.toNat = String.utf8EncodeChar c := by
  rw [utf8Bytes, Char.ofNat_toNat, data_toUTF8]
  simp

/-- How a character is written inside of quotes: as a short escape, by its code, or as it is. -/
theorem spelled_escapeChar (c : Char) :
    (∃ e, spelled (escapeChar c) = ['\\', e] ∧ e ≠ 'u' ∧ simpleEscape? e = some c) ∨
    (c.toNat < 0x20 ∧ spelled (escapeChar c) =
      ['\\', 'u', '0', '0', hexDigit 'a' (c.toNat / 16), hexDigit 'a' (c.toNat % 16)]) ∨
    (spelled (escapeChar c) = byteChars c ∧
      ∀ x ∈ byteChars c, x ≠ '"' ∧ x ≠ '\\' ∧ 0x20 ≤ x.toNat) := by
  have hshort : ∀ e : Char, e.toNat < 128 → spelled ['\\', e] = ['\\', e] :=
    fun e he => spelled_ascii (by simp [he])
  unfold escapeChar
  split
  · exact .inl ⟨'"', hshort _ (by decide), by decide, rfl⟩
  · exact .inl ⟨'\\', hshort _ (by decide), by decide, rfl⟩
  · exact .inl ⟨'b', hshort _ (by decide), by decide, rfl⟩
  · exact .inl ⟨'f', hshort _ (by decide), by decide, rfl⟩
  · exact .inl ⟨'n', hshort _ (by decide), by decide, rfl⟩
  · exact .inl ⟨'r', hshort _ (by decide), by decide, rfl⟩
  · exact .inl ⟨'t', hshort _ (by decide), by decide, rfl⟩
  · rename_i hquote hslash _ _ _ _ _
    by_cases hlow : c.toNat < 0x20
    · have h1 := hexDigit_ascii (c.toNat / 16) (by omega)
      have h2 := hexDigit_ascii (c.toNat % 16) (by omega)
      refine .inr (.inl ⟨hlow, ?_⟩)
      rw [if_pos hlow]
      exact spelled_ascii (by simp [h1, h2])
    · refine .inr (.inr ⟨by rw [if_neg hlow]; simp [spelled], fun x hx => ?_⟩)
      by_cases hascii : c.toNat < 128
      · rw [byteChars_ascii hascii, List.mem_singleton] at hx
        rw [hx]
        exact ⟨hquote, hslash, Nat.le_of_not_lt hlow⟩
      · -- bytes beyond ASCII mean nothing inside of quotes
        have hx' := le_of_mem_byteChars (Nat.le_of_not_lt hascii) hx
        refine ⟨?_, ?_, by omega⟩ <;> rintro rfl <;> revert hx' <;> decide

/-- The lexer passes over a written character. -/
theorem scanString_escapeChar (c : Char) (rest : List Char) :
    scanString (spelled (escapeChar c) ++ rest) =
      (scanString rest).map fun p => (spelled (escapeChar c) ++ p.1, p.2) := by
  rcases spelled_escapeChar c with ⟨e, hc, hu, hval⟩ | ⟨hlow, hc⟩ | ⟨hc, hplain⟩
  · rw [hc]
    exact scanString_escape hu hval rest
  · rw [hc]
    exact scanString_code (hexWord_hexDigit c.toNat hlow) rest
  · rw [hc]
    generalize byteChars c = w at hplain
    induction w with
    | nil => simp
    | cons x w ih =>
      obtain ⟨h1, h2, h3⟩ := hplain x (by simp)
      rw [List.cons_append, scanString_plain h1 h2 h3, ih fun y hy => hplain y (by simp [hy])]
      cases scanString rest <;> rfl

/-- A written character stands for its bytes. -/
theorem decodeBytes_escapeChar (c : Char) (rest : List Char) :
    decodeBytes (spelled (escapeChar c) ++ rest) =
      (decodeBytes rest).map (String.utf8EncodeChar c ++ ·) := by
  rcases spelled_escapeChar c with ⟨e, hc, hu, hval⟩ | ⟨hlow, hc⟩ | ⟨hc, hplain⟩
  · rw [hc, ← utf8Bytes_toNat]
    exact decodeBytes_escape hu hval rest
  · rw [hc, ← utf8Bytes_toNat]
    exact decodeBytes_code (hexWord_hexDigit c.toNat hlow) (by omega) rest
  · rw [hc, byteChars]
    rw [byteChars] at hplain
    generalize String.utf8EncodeChar c = w at hplain
    induction w with
    | nil => simp
    | cons b w ih =>
      obtain ⟨-, h2, -⟩ := hplain _ (List.mem_map_of_mem (List.mem_cons_self ..))
      rw [List.map_cons, List.cons_append, decodeBytes_plain h2,
        ih fun y hy => hplain y (List.mem_cons_of_mem _ hy), toUInt8_toNat_byte]
      cases decodeBytes rest <;> rfl

/-- A text in quotes is cut off after its closing quote. -/
theorem scanString_body (s : String) (rest : List Char) :
    scanString (body s ++ '"' :: rest) = some (body s, rest) := by
  rw [body]
  generalize s.toList = cs
  induction cs with
  | nil => rfl
  | cons c cs ih =>
    rw [List.flatMap_cons, spelled_append, List.append_assoc, scanString_escapeChar, ih]
    rfl

theorem decodeBytes_body (s : String) : decodeBytes (body s) = some s.toUTF8.data.toList := by
  rw [body, data_toUTF8]
  generalize s.toList = cs
  induction cs with
  | nil => rfl
  | cons c cs ih =>
    rw [List.flatMap_cons, spelled_append, decodeBytes_escapeChar, ih]
    rfl

/-- What stands between the quotes of a written text is read as the text. -/
theorem decode_body (s : String) : StringBody.decode? ⟨body s⟩ = some s := by
  simp only [StringBody.decode?, decodeBytes_body, Option.bind_eq_bind, Option.bind_some]
  have hbytes : (⟨s.toUTF8.data.toList.toArray⟩ : ByteArray) = s.toByteArray := by
    rw [Array.toArray_toList]
    rfl
  rw [hbytes, String.fromUTF8?, dif_pos s.isValidUTF8]
  rfl

/-! ## Tokens -/

/-- The characters of a text in quotes. -/
theorem spelled_quote (s : String) : spelled (quote s).toList = '"' :: (body s ++ ['"']) := by
  have hquote : byteChars '"' = ['"'] := byteChars_ascii (by decide)
  simp [quote, body, spelled, hquote]

theorem scanToken_quote (s : String) (rest : List Char) :
    scanToken (spelled (quote s).toList ++ rest) = some (.str ⟨body s⟩, rest) := by
  have htoken (cs : List Char) : scanToken ('"' :: cs) =
      (scanString cs).map fun p => (.str ⟨p.1⟩, p.2) := rfl
  rw [spelled_quote, List.cons_append, List.append_assoc, List.singleton_append, htoken,
    scanString_body]
  rfl

/-- The scan of the characters succeeds with the tokens. -/
def Scans (cs : List Char) (ts : List Token) : Prop :=
  ∃ fuel, Token.scanWith fuel cs = some ts

theorem scans_of_scan {cs : List Char} {ts : List Token} (h : Token.scan? cs = some ts) :
    Scans cs ts :=
  ⟨cs.length, h⟩

theorem Scans.skip {c : Char} {cs : List Char} {ts : List Token} (hc : isSpace c = true)
    (h : Scans (c :: cs) ts) : Scans cs ts := by
  obtain ⟨fuel, h⟩ := h
  cases fuel with
  | zero => simp [Token.scanWith] at h
  | succ fuel =>
    rw [Token.scanWith, if_pos hc] at h
    exact ⟨fuel, h⟩

theorem Scans.skipAll {blanks cs : List Char} {ts : List Token}
    (hblanks : ∀ c ∈ blanks, isSpace c = true) (h : Scans (blanks ++ cs) ts) : Scans cs ts := by
  induction blanks with
  | nil => exact h
  | cons c blanks ih =>
    exact ih (fun d hd => hblanks d (by simp [hd])) (h.skip (hblanks c (by simp)))

/-- A token at the start of the text is the first of its tokens. -/
theorem Scans.take {c : Char} {cs rest : List Char} {t : Token} {ts : List Token}
    (hc : isSpace c = false) (ht : scanToken (c :: cs) = some (t, rest))
    (h : Scans (c :: cs) ts) : ∃ us, ts = t :: us ∧ Scans rest us := by
  obtain ⟨fuel, h⟩ := h
  cases fuel with
  | zero => simp [Token.scanWith] at h
  | succ fuel =>
    rw [Token.scanWith, if_neg (by simp [hc]), ht] at h
    simp only [Option.bind_eq_bind, Option.bind_some] at h
    obtain ⟨us, hus, hts⟩ := Option.bind_eq_some_iff.1 h
    exact ⟨us, (Option.some.inj hts).symm, fuel, hus⟩

theorem Scans.takeBrace {rest : List Char} {ts : List Token} (h : Scans ('\x7b' :: rest) ts) :
    ∃ us, ts = .openBrace :: us ∧ Scans rest us :=
  h.take (by decide) rfl

theorem Scans.takeColon {rest : List Char} {ts : List Token} (h : Scans (':' :: rest) ts) :
    ∃ us, ts = .colon :: us ∧ Scans rest us :=
  h.take (by decide) rfl

theorem Scans.takeComma {rest : List Char} {ts : List Token} (h : Scans (',' :: rest) ts) :
    ∃ us, ts = .comma :: us ∧ Scans rest us :=
  h.take (by decide) rfl

theorem Scans.takeQuote {s : String} {rest : List Char} {ts : List Token}
    (h : Scans (spelled (quote s).toList ++ rest) ts) :
    ∃ us, ts = .str ⟨body s⟩ :: us ∧ Scans rest us := by
  have htoken := scanToken_quote s rest
  rw [spelled_quote, List.cons_append] at h htoken
  exact h.take (by decide) htoken

end ChangeImpact.Json
