import ChangeImpact.Text.Hex

/-!
# Quoted texts in TOML

There are four forms: in double quotes, where a backslash escapes, and in single quotes, where
nothing does; each on one line, or over several lines between three quotes. A line break right
after three opening quotes is dropped.

* `basic`, `literal`, `basicLines`, `literalLines` — read the rest of a text behind its opening
  quotes, up to and with the closing ones;
* `readText` — reads a text of any form;
* `Form.choose` — the form that needs least escaping; `writeText` — writes a text in it.
-/

namespace ChangeImpact.Toml

open Text (hexDigit hexDigit?)

/-- Puts a character in front of a text that was read. -/
def consRead (c : Char) : Option (List Char × List Char) → Option (List Char × List Char)
  | some (cs, rest) => some (c :: cs, rest)
  | none => none

/-- Puts a character, if there is one, in front of a text that was read. -/
def consRead? (c : Option Char) (r : Option (List Char × List Char)) :
    Option (List Char × List Char) :=
  c.bind (consRead · r)

/-! ## Characters -/

/-- A blank within a line. -/
def isSpace (c : Char) : Bool :=
  c == ' ' || c == '\t'

/-- Whether a character may stand for itself on a line: a tab, or one that is no control. -/
def isPlain (c : Char) : Bool :=
  c == '\t' || (c.toNat ≥ 0x20 && c.toNat != 0x7f)

/-- The number that hexadecimal digits spell. -/
def hexNumber? (digits : List Char) : Option Nat :=
  digits.foldlM (fun n c => (hexDigit? c).map (n * 16 + ·)) 0

/-- The character of a number in hexadecimal digits. -/
def charOfHex? (digits : List Char) : Option Char := do
  let n ← hexNumber? digits
  if n.isValidChar then some (Char.ofNat n) else none

/-- The character that a letter behind a backslash stands for. -/
def unescape? : Char → Option Char
  | 'b' => some '\x08'
  | 't' => some '\t'
  | 'n' => some '\n'
  | 'f' => some '\x0c'
  | 'r' => some '\r'
  | '"' => some '"'
  | '\\' => some '\\'
  | _ => none

/-! ## Reading -/

/-- The rest of a text in double quotes on one line. -/
def basic : List Char → Option (List Char × List Char)
  | [] => none
  | '"' :: cs => some ([], cs)
  | '\\' :: 'u' :: a :: b :: c :: d :: cs =>
    consRead? (charOfHex? [a, b, c, d]) (basic cs)
  | '\\' :: 'U' :: a :: b :: c :: d :: e :: f :: g :: h :: cs =>
    consRead? (charOfHex? [a, b, c, d, e, f, g, h]) (basic cs)
  | '\\' :: c :: cs =>
    consRead? (unescape? c) (basic cs)
  | c :: cs => if isPlain c then consRead c (basic cs) else none

/-- The rest of a text in single quotes on one line. -/
def literal : List Char → Option (List Char × List Char)
  | [] => none
  | '\'' :: cs => some ([], cs)
  | c :: cs => if isPlain c then consRead c (literal cs) else none

/-- Whether blanks and then a line break come next. -/
def endsLine : List Char → Bool
  | ' ' :: cs => endsLine cs
  | '\t' :: cs => endsLine cs
  | '\n' :: _ => true
  | '\r' :: '\n' :: _ => true
  | _ => false

/-- The rest of a text over lines in double quotes. A backslash at the end of a line drops the
white space behind it; `skipping` tells that such white space is being dropped. Up to two quotes
may stand before the closing ones. Line breaks are read as `\n`. -/
def basicLines : Bool → List Char → Option (List Char × List Char)
  | _, [] => none
  | true, ' ' :: cs => basicLines true cs
  | true, '\t' :: cs => basicLines true cs
  | true, '\n' :: cs => basicLines true cs
  | true, '\r' :: '\n' :: cs => basicLines true cs
  | _, '"' :: '"' :: '"' :: '"' :: '"' :: cs => some (['"', '"'], cs)
  | _, '"' :: '"' :: '"' :: '"' :: cs => some (['"'], cs)
  | _, '"' :: '"' :: '"' :: cs => some ([], cs)
  | _, '"' :: cs => consRead '"' (basicLines false cs)
  | _, '\r' :: '\n' :: cs => consRead '\n' (basicLines false cs)
  | _, '\n' :: cs => consRead '\n' (basicLines false cs)
  | _, '\\' :: 'u' :: a :: b :: c :: d :: cs =>
    consRead? (charOfHex? [a, b, c, d]) (basicLines false cs)
  | _, '\\' :: 'U' :: a :: b :: c :: d :: e :: f :: g :: h :: cs =>
    consRead? (charOfHex? [a, b, c, d, e, f, g, h]) (basicLines false cs)
  | _, '\\' :: c :: cs =>
    if endsLine (c :: cs) then basicLines true (c :: cs)
    else consRead? (unescape? c) (basicLines false cs)
  | _, c :: cs => if isPlain c then consRead c (basicLines false cs) else none

/-- The rest of a text over lines in single quotes. -/
def literalLines : List Char → Option (List Char × List Char)
  | [] => none
  | '\'' :: '\'' :: '\'' :: '\'' :: '\'' :: cs => some (['\'', '\''], cs)
  | '\'' :: '\'' :: '\'' :: '\'' :: cs => some (['\''], cs)
  | '\'' :: '\'' :: '\'' :: cs => some ([], cs)
  | '\r' :: '\n' :: cs => consRead '\n' (literalLines cs)
  | '\n' :: cs => consRead '\n' (literalLines cs)
  | c :: cs => if isPlain c then consRead c (literalLines cs) else none

/-- Drops one line break. -/
def dropLineBreak : List Char → List Char
  | '\n' :: cs => cs
  | '\r' :: '\n' :: cs => cs
  | cs => cs

/-- A text on one line, as it may stand for a key. -/
def readLineText : List Char → Option (String × List Char)
  | '"' :: cs => (basic cs).map fun (text, rest) => (String.ofList text, rest)
  | '\'' :: cs => (literal cs).map fun (text, rest) => (String.ofList text, rest)
  | _ => none

/-- A text of any form. -/
def readText : List Char → Option (String × List Char)
  | '"' :: '"' :: '"' :: cs =>
    (basicLines false (dropLineBreak cs)).map fun (text, rest) => (String.ofList text, rest)
  | '\'' :: '\'' :: '\'' :: cs =>
    (literalLines (dropLineBreak cs)).map fun (text, rest) => (String.ofList text, rest)
  | cs => readLineText cs

/-! ## Writing -/

/-- The forms of a quoted text. -/
inductive TextForm where
  | basic | literal | basicLines | literalLines
deriving DecidableEq, Repr

/-- The longest run of a character, the current run being `run` long. -/
def longestRun (q : Char) (run : Nat) : List Char → Nat
  | [] => run
  | c :: cs => if c == q then longestRun q (run + 1) cs else max run (longestRun q 0 cs)

/-- Whether a character has to be escaped: a control that is no tab and no line break. -/
def needsCode (c : Char) : Bool :=
  c != '\t' && c != '\n' && (c.toNat ≤ 0x1f || c.toNat == 0x7f)

/-- The form in which a text is written: the first of double quotes, single quotes, lines in double
quotes and lines in single quotes that needs no escape, else double quotes. Tabs are not counted
as escapes. -/
def TextForm.choose (text : List Char) : TextForm :=
  let codes := text.any needsCode
  let escapes := text.any (· == '\\')
  let newline := text.any (· == '\n')
  let singles := longestRun '\'' 0 text
  let doubles := longestRun '"' 0 text
  if !codes && !escapes && doubles == 0 && !newline then .basic
  else if !codes && singles == 0 && !newline then .literal
  else if !codes && !escapes && doubles ≤ 2 then .basicLines
  else if !codes && singles ≤ 2 then .literalLines
  else if newline then .basicLines
  else .basic

/-- A character in double quotes, when it cannot stand for itself. -/
def escape? (c : Char) : Option (List Char) :=
  match c with
  | '\x08' => some ['\\', 'b']
  | '\t' => some ['\\', 't']
  | '\n' => some ['\\', 'n']
  | '\x0c' => some ['\\', 'f']
  | '\r' => some ['\\', 'r']
  | '"' => some ['\\', '"']
  | '\\' => some ['\\', '\\']
  | c =>
    if needsCode c then
      some ['\\', 'u', '0', '0', hexDigit 'A' (c.toNat / 16), hexDigit 'A' (c.toNat % 16)]
    else none

/-- The characters of a text in double quotes on one line. -/
def escaped (text : List Char) : List Char :=
  text.flatMap fun c => (escape? c).getD [c]

/-- The characters of a text over lines in double quotes: line breaks stand for themselves, and so
do double quotes behind fewer than two others that do; `run` counts those. -/
def escapedLines (run : Nat) : List Char → List Char
  | [] => []
  | '\n' :: cs => '\n' :: escapedLines 0 cs
  | '"' :: cs =>
    if run < 2 then '"' :: escapedLines (run + 1) cs
    else '\\' :: '"' :: escapedLines 0 cs
  | c :: cs => (escape? c).getD [c] ++ escapedLines 0 cs

/-- A text in a form. -/
def TextForm.write (text : List Char) : TextForm → List Char
  | .basic => '"' :: (escaped text ++ ['"'])
  | .literal => '\'' :: (text ++ ['\''])
  | .basicLines => '"' :: '"' :: '"' :: '\n' :: (escapedLines 0 text ++ ['"', '"', '"'])
  | .literalLines => '\'' :: '\'' :: '\'' :: '\n' :: (text ++ ['\'', '\'', '\''])

/-- A quoted text. -/
def writeText (text : String) : List Char :=
  (TextForm.choose text.toList).write text.toList

end ChangeImpact.Toml
