import ChangeImpact.Text.Identifier

/-!
# Tokens of Java texts

A text is cut into tokens. Each token keeps the blanks and comments that stand before it, so that
the text between two tokens can be restored, and the rows on which it starts and ends.

Two things are left to the grammar:

* a closing angle bracket is always a token of its own, because `>>` is an operator in one place and
  two closings in another;
* a keyword is a word like any other.

A string is several tokens: its quotes, pieces of text, escapes, and spliced expressions, which
stand between braces. The lexer keeps a stack of the strings and splices it is in.
-/

namespace ChangeImpact.Java

/-- What a token is. -/
inductive TokenClass where
  /-- An identifier or keyword. -/
  | word
  | number
  | character
  /-- The start or the end of a string. -/
  | quote
  /-- Text inside a string. -/
  | fragment
  /-- An escape inside a string. -/
  | escape
  /-- The start of an expression inside a string. -/
  | splice
  /-- An operator or a bracket. -/
  | mark
  /-- A character that starts no token. -/
  | stray
deriving DecidableEq, Repr

/-- A token with its surroundings. -/
structure Token where
  cls : TokenClass
  text : String
  /-- Blanks and comments before it. -/
  trivia : String
  startRow : Nat
  endRow : Nat
deriving DecidableEq, Repr

/-! ## Blanks and comments -/

/-- White space of Java texts. -/
def isSpace (c : Char) : Bool :=
  c == ' ' || c == '\t' || c == '\n' || c == '\x0b' || c == '\x0c' || c == '\r'

/-- What follows the end of a block comment, with the comment's characters up to there. -/
def blockComment? : List Char → Option (List Char × List Char)
  | [] => none
  | '*' :: '/' :: rest => some (['*', '/'], rest)
  | c :: rest => (blockComment? rest).map fun (body, rest) => (c :: body, rest)

/-- Blanks and comments at the start of a text. -/
def scanTrivia : Nat → List Char → List Char × List Char
  | 0, cs => ([], cs)
  | fuel + 1, cs =>
    match cs with
    | '/' :: '/' :: rest =>
      let (more, left) := scanTrivia fuel (rest.dropWhile (· ≠ '\n'))
      ('/' :: '/' :: rest.takeWhile (· ≠ '\n') ++ more, left)
    | '/' :: '*' :: rest =>
      match blockComment? rest with
      | some (body, rest) =>
        let (more, left) := scanTrivia fuel rest
        ('/' :: '*' :: body ++ more, left)
      | none => ([], cs)
    | c :: rest =>
      if isSpace c then
        let (more, left) := scanTrivia fuel rest
        (c :: more, left)
      else ([], cs)
    | [] => ([], [])

/-! ## Names, numbers, characters, marks -/

/-- The first character of a name. -/
def startsWord (c : Char) : Bool := Text.isIdentifierStart c || c == '_' || c == '$'

/-- A further character of a name. -/
def continuesWord (c : Char) : Bool :=
  Text.isIdentifierPart c || c == '_' || c == '$' || c == '¢'

/-- Digits and letters of a number in any base, and underscores. -/
def isDigitPart (c : Char) : Bool := c.isDigit || c == '_'

/-- Hexadecimal digits and underscores. -/
def isHexPart (c : Char) : Bool :=
  isDigitPart c || ('a' ≤ c && c ≤ 'f') || ('A' ≤ c && c ≤ 'F')

/-- The characters that satisfy the test, and the rest. -/
def spanChars (p : Char → Bool) (cs : List Char) : List Char × List Char :=
  (cs.takeWhile p, cs.dropWhile p)

/-- An exponent with one of the given marks. -/
def scanExponent (isMark : Char → Bool) (cs : List Char) : List Char × List Char :=
  match cs with
  | m :: s :: d :: rest =>
    if isMark m && (s == '+' || s == '-') && d.isDigit then
      let (ds, left) := spanChars isDigitPart (d :: rest)
      (m :: s :: ds, left)
    else if isMark m && s.isDigit then
      let (ds, left) := spanChars isDigitPart (s :: d :: rest)
      (m :: ds, left)
    else ([], cs)
  | [m, d] => if isMark m && d.isDigit then ([m, d], []) else ([], cs)
  | _ => ([], cs)

/-- A letter that ends a number. -/
def scanSuffix (cs : List Char) : List Char × List Char :=
  match cs with
  | c :: rest => if "lLfFdD".toList.contains c then ([c], rest) else ([], cs)
  | [] => ([], [])

/-- A number; the text starts with a digit, or with a point and a digit. -/
def scanNumber (cs : List Char) : List Char × List Char :=
  match cs with
  | '0' :: x :: rest =>
    if x == 'x' || x == 'X' then
      let (whole, rest) := spanChars isHexPart rest
      let (point, rest) := match rest with
        | '.' :: rest => (['.'], rest)
        | rest => ([], rest)
      let (fraction, rest) := if point.isEmpty then ([], rest) else spanChars isHexPart rest
      let (exponent, rest) := scanExponent (fun c => c == 'p' || c == 'P') rest
      let (suffix, rest) := scanSuffix rest
      ('0' :: x :: whole ++ point ++ fraction ++ exponent ++ suffix, rest)
    else if x == 'b' || x == 'B' then
      let (whole, rest) := spanChars isDigitPart rest
      let (suffix, rest) := scanSuffix rest
      ('0' :: x :: whole ++ suffix, rest)
    else decimal cs
  | cs => decimal cs
where
  /-- A number in base ten, with or without point and exponent. -/
  decimal (cs : List Char) : List Char × List Char :=
    let (whole, rest) := spanChars isDigitPart cs
    let (point, rest) := match rest with
      | '.' :: rest => (['.'], rest)
      | rest => ([], rest)
    let (fraction, rest) := if point.isEmpty then ([], rest) else spanChars isDigitPart rest
    let (exponent, rest) := scanExponent (fun c => c == 'e' || c == 'E') rest
    let (suffix, rest) := scanSuffix rest
    (whole ++ point ++ fraction ++ exponent ++ suffix, rest)

/-- The rest of a character literal after its opening quote. -/
def scanCharacter : List Char → Option (List Char × List Char)
  | '\'' :: rest => some (['\''], rest)
  | '\\' :: c :: rest => (scanCharacter rest).map fun (body, rest) => ('\\' :: c :: body, rest)
  | '\n' :: _ => none
  | c :: rest => (scanCharacter rest).map fun (body, rest) => (c :: body, rest)
  | [] => none

/-- Operators of more than one character, the longest first. -/
def longMarks : List (List Char) :=
  ["...", "<<=", "->", "::", "++", "--", "+=", "-=", "*=", "/=", "&=", "|=", "^=", "%=", "<<",
    "<=", "==", "!=", "&&", "||"].map String.toList

/-- Operators and brackets of one character. -/
def shortMarks : List Char :=
  "()\x7b\x7d[];,.=<>!~?:&|^+-*/%@".toList

/-- The mark at the start of a text. -/
def scanMark (cs : List Char) : Option (List Char × List Char) :=
  match longMarks.find? (·.isPrefixOf cs) with
  | some m => some (m, cs.drop m.length)
  | none =>
    match cs with
    | c :: rest => if shortMarks.contains c then some ([c], rest) else none
    | [] => none

/-! ## Strings -/

/-- An escape after its backslash. -/
def scanEscape (cs : List Char) : List Char × List Char :=
  match cs with
  | 'u' :: rest =>
    let (us, rest) := spanChars (· == 'u') rest
    ('u' :: us ++ rest.take 4, rest.drop 4)
  | c :: rest =>
    if '0' ≤ c && c ≤ '7' then
      let digits := ((c :: rest).take 3).takeWhile fun d => '0' ≤ d && d ≤ '7'
      (digits, (c :: rest).drop digits.length)
    else ([c], rest)
  | [] => ([], [])

/-- Text of a string of one line up to a quote or a backslash. -/
def scanFragment (cs : List Char) : List Char × List Char :=
  spanChars (fun c => c ≠ '"' && c ≠ '\\') cs

/-- Text of a text block up to three quotes or a backslash. -/
def scanBlockFragment : List Char → List Char × List Char
  | [] => ([], [])
  | '"' :: '"' :: '"' :: rest => ([], '"' :: '"' :: '"' :: rest)
  | '\\' :: rest => ([], '\\' :: rest)
  | c :: rest =>
    let (text, rest) := scanBlockFragment rest
    (c :: text, rest)

/-! ## Tokens -/

/-- Where the lexer is, besides in plain text. -/
inductive LexMode where
  | string
  | textBlock
  /-- In an expression inside a string, with so many braces open. -/
  | splice (braces : Nat)
deriving DecidableEq, Repr

/-- How many rows a text goes down. -/
def rowsOf (cs : List Char) : Nat := cs.count '\n'

/-- The token of the given characters after the given trivia, which starts on `row`. -/
def Token.make (cls : TokenClass) (trivia : List Char) (row : Nat) (cs : List Char) : Token :=
  let start := row + rowsOf trivia
  ⟨cls, String.ofList cs, String.ofList trivia, start, start + rowsOf cs⟩

/-- The first token of a text inside a string. -/
def scanInString (isBlock : Bool) (cs : List Char) : Option (TokenClass × List Char × List Char) :=
  match cs with
  | [] => none
  | '\\' :: '\x7b' :: rest => some (.splice, ['\\', '\x7b'], rest)
  | '\\' :: rest =>
    let (body, rest) := scanEscape rest
    some (.escape, '\\' :: body, rest)
  | cs =>
    if isBlock then
      match cs with
      | '"' :: '"' :: '"' :: rest => some (.quote, ['"', '"', '"'], rest)
      | cs =>
        let (text, rest) := scanBlockFragment cs
        some (.fragment, text, rest)
    else
      match cs with
      | '"' :: rest => some (.quote, ['"'], rest)
      | cs =>
        let (text, rest) := scanFragment cs
        some (.fragment, text, rest)

/-- The first token of a plain text that starts with one. -/
def scanPlain (cs : List Char) : Option (TokenClass × List Char × List Char) :=
  match cs with
  | [] => none
  | '"' :: '"' :: '"' :: rest => some (.quote, ['"', '"', '"'], rest)
  | '"' :: rest => some (.quote, ['"'], rest)
  | '\'' :: rest =>
    match scanCharacter rest with
    | some (body, rest) => some (.character, '\'' :: body, rest)
    | none => some (.stray, ['\''], rest)
  | c :: rest =>
    if startsWord c then
      let (body, rest) := spanChars continuesWord rest
      some (.word, c :: body, rest)
    else if c.isDigit || (c == '.' && rest.head?.any Char.isDigit) then
      let (text, rest) := scanNumber (c :: rest)
      some (.number, text, rest)
    else
      match scanMark (c :: rest) with
      | some (text, rest) => some (.mark, text, rest)
      | none => some (.stray, [c], rest)

/-- The modes after a token. -/
def nextModes (modes : List LexMode) (cls : TokenClass) (text : List Char) : List LexMode :=
  match modes, cls with
  | .string :: rest, .quote => rest
  | .textBlock :: rest, .quote => rest
  | modes, .splice => .splice 0 :: modes
  | modes, .quote => (if text.length = 3 then .textBlock else .string) :: modes
  | .splice n :: rest, .mark =>
    if text = ['\x7b'] then .splice (n + 1) :: rest
    else if text = ['\x7d'] then if n = 0 then rest else .splice (n - 1) :: rest
    else .splice n :: rest
  | modes, _ => modes

/-- At most `fuel` tokens of a text that starts on `row`. -/
def tokensWith : Nat → List LexMode → Nat → List Char → List Token
  | 0, _, _, _ => []
  | fuel + 1, modes, row, cs =>
    let (trivia, found) := match modes with
      | .string :: _ => ([], scanInString false cs)
      | .textBlock :: _ => ([], scanInString true cs)
      | _ =>
        let (trivia, rest) := scanTrivia cs.length cs
        (trivia, scanPlain rest)
    match found with
    | none => []
    | some (cls, text, rest) =>
      let t := Token.make cls trivia row text
      t :: tokensWith fuel (nextModes modes cls text) t.endRow rest

/-- The tokens of a text; a byte order mark at its start is no part of it. -/
def tokens (s : String) : List Token :=
  let cs := match s.toList with
    | '\uFEFF' :: rest => rest
    | cs => cs
  tokensWith cs.length [] 0 cs

end ChangeImpact.Java
