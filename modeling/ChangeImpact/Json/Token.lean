import ChangeImpact.Json.Number
import ChangeImpact.Text.Hex

/-!
# Tokens of JSON texts

A text is a list of bytes; a byte is written as the character of its code. The lexer checks the
form of strings and numbers but does not evaluate them: a string keeps its escapes and a number its
digits, so a document with a value that cannot be represented can still be read around it.

* `Token.scan?` — the tokens of a text;
* `StringBody.decode?` — the text of a string.
-/

namespace ChangeImpact.Json

/-- The bytes of a text, each as the character of its code. -/
def bytesAsChars (b : ByteArray) : List Char :=
  b.data.toList.map fun x => Char.ofNat x.toNat

/-- What stands between the quotes of a string, escapes included. -/
structure StringBody where
  chars : List Char
deriving DecidableEq, Repr

/-- A token of a JSON text. -/
inductive Token where
  | openBrace
  | closeBrace
  | openBracket
  | closeBracket
  | colon
  | comma
  | null
  | bool (b : Bool)
  | str (s : StringBody)
  | num (n : Numeral)
deriving DecidableEq, Repr

/-! ## Strings -/

export Text (hexDigit?)

/-- The number that four hexadecimal digits spell. -/
def hexWord? (a b c d : Char) : Option Nat := do
  return (((← hexDigit? a) * 16 + (← hexDigit? b)) * 16 + (← hexDigit? c)) * 16 + (← hexDigit? d)

/-- The characters that may follow a backslash, without `u`. -/
def simpleEscape? : Char → Option Char
  | '"' => some '"'
  | '\\' => some '\\'
  | '/' => some '/'
  | 'b' => some '\x08'
  | 'f' => some '\x0c'
  | 'n' => some '\n'
  | 'r' => some '\r'
  | 't' => some '\t'
  | _ => none

/-- Cuts a string after its closing quote. Control characters and unknown escapes are refused. -/
def scanString : List Char → Option (List Char × List Char)
  | [] => none
  | '"' :: rest => some ([], rest)
  | '\\' :: 'u' :: a :: b :: c :: d :: rest => do
    let _ ← hexWord? a b c d
    let (body, rest) ← scanString rest
    return ('\\' :: 'u' :: a :: b :: c :: d :: body, rest)
  | '\\' :: e :: rest => do
    let _ ← simpleEscape? e
    let (body, rest) ← scanString rest
    return ('\\' :: e :: body, rest)
  | c :: rest =>
    if c.toNat < 0x20 ∨ c = '\\' then none
    else do
      let (body, rest) ← scanString rest
      return (c :: body, rest)

/-- The UTF-8 bytes of a code point. -/
def utf8Bytes (n : Nat) : List UInt8 :=
  (String.singleton (Char.ofNat n)).toUTF8.data.toList

/-- The bytes that a string stands for. Halves of surrogate pairs are refused. -/
def decodeBytes : List Char → Option (List UInt8)
  | [] => some []
  | '\\' :: 'u' :: a :: b :: c :: d :: rest => do
    let high ← hexWord? a b c d
    if 0xDC00 ≤ high ∧ high ≤ 0xDFFF then none
    else if 0xD800 ≤ high ∧ high ≤ 0xDBFF then
      match rest with
      | '\\' :: 'u' :: a :: b :: c :: d :: rest =>
        let low ← hexWord? a b c d
        if 0xDC00 ≤ low ∧ low ≤ 0xDFFF then
          let point := 0x10000 + (high - 0xD800) * 0x400 + (low - 0xDC00)
          return utf8Bytes point ++ (← decodeBytes rest)
        else none
      | _ => none
    else return utf8Bytes high ++ (← decodeBytes rest)
  | '\\' :: e :: rest => do return utf8Bytes (← simpleEscape? e).toNat ++ (← decodeBytes rest)
  | c :: rest => do return c.toNat.toUInt8 :: (← decodeBytes rest)

/-- The text of a string, if it is one. -/
def StringBody.decode? (s : StringBody) : Option String := do
  String.fromUTF8? ⟨(← decodeBytes s.chars).toArray⟩

/-! ## Numbers -/

/-- A decimal digit's value. -/
def digitValue (c : Char) : Nat :=
  c.toNat - '0'.toNat

/-- The digits at the start of a text. -/
def scanDigits (cs : List Char) : List Nat × List Char :=
  ((cs.takeWhile Char.isDigit).map digitValue, cs.dropWhile Char.isDigit)

/-- Point and digits; at least one digit must follow the point. -/
def scanFraction : List Char → Option (Option (List Nat) × List Char)
  | '.' :: cs =>
    match scanDigits cs with
    | ([], _) => none
    | (ds, rest) => some (some ds, rest)
  | cs => some (none, cs)

/-- The digits of an exponent. -/
def scanExponentDigits (negative : Bool) (cs : List Char) :
    Option (Option (Bool × List Nat) × List Char) :=
  match scanDigits cs with
  | ([], _) => none
  | (ds, rest) => some (some (negative, ds), rest)

/-- Mark, sign and digits of an exponent. -/
def scanExponent : List Char → Option (Option (Bool × List Nat) × List Char)
  | c :: cs =>
    if c = 'e' ∨ c = 'E' then
      match cs with
      | '+' :: cs => scanExponentDigits false cs
      | '-' :: cs => scanExponentDigits true cs
      | cs => scanExponentDigits false cs
    else some (none, c :: cs)
  | [] => some (none, [])

/-- A number after its sign. A leading zero stands alone. -/
def scanNumeral (negative : Bool) (cs : List Char) : Option (Numeral × List Char) :=
  match scanDigits cs with
  | ([], _) => none
  | (d :: ds, rest) =>
    if d = 0 ∧ ds ≠ [] then none
    else do
      let (fraction, rest) ← scanFraction rest
      let (exponent, rest) ← scanExponent rest
      return (⟨negative, d :: ds, fraction, exponent⟩, rest)

/-! ## Tokens -/

/-- The first token of a text that starts with one. -/
def scanToken : List Char → Option (Token × List Char)
  | '\x7b' :: cs => some (.openBrace, cs)
  | '\x7d' :: cs => some (.closeBrace, cs)
  | '[' :: cs => some (.openBracket, cs)
  | ']' :: cs => some (.closeBracket, cs)
  | ':' :: cs => some (.colon, cs)
  | ',' :: cs => some (.comma, cs)
  | 'n' :: 'u' :: 'l' :: 'l' :: cs => some (.null, cs)
  | 't' :: 'r' :: 'u' :: 'e' :: cs => some (.bool true, cs)
  | 'f' :: 'a' :: 'l' :: 's' :: 'e' :: cs => some (.bool false, cs)
  | '"' :: cs => (scanString cs).map fun (body, rest) => (.str ⟨body⟩, rest)
  | '-' :: cs => (scanNumeral true cs).map fun (n, rest) => (.num n, rest)
  | cs => (scanNumeral false cs).map fun (n, rest) => (.num n, rest)

/-- The four white space characters of JSON. -/
def isSpace (c : Char) : Bool :=
  c == ' ' || c == '\n' || c == '\t' || c == '\r'

/-- Reads at most `fuel` tokens and blanks. -/
def Token.scanWith : Nat → List Char → Option (List Token)
  | _, [] => some []
  | 0, _ => none
  | fuel + 1, c :: cs =>
    if isSpace c then scanWith fuel cs
    else do
      let (t, rest) ← scanToken (c :: cs)
      return t :: (← scanWith fuel rest)

/-- The tokens of a text. -/
def Token.scan? (cs : List Char) : Option (List Token) :=
  Token.scanWith cs.length cs

end ChangeImpact.Json
