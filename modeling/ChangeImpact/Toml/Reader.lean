import ChangeImpact.Toml.Quoted
import ChangeImpact.Toml.Scalar

/-!
# TOML documents

* `readKey` — a dotted key;
* `readValue` — a value; arrays and inline tables nest to a bounded depth;
* `readStatements` — the statements of a document, one a line;
* `parse?` — the members of the table that a document is.
-/

namespace ChangeImpact.Toml

/-! ## Between the words -/

/-- Drops blanks within a line. -/
def skipSpace (cs : List Char) : List Char :=
  cs.dropWhile isSpace

/-- Drops a comment, up to the end of its line or to a character that may not stand in it. -/
def skipComment : List Char → List Char
  | '#' :: cs => cs.dropWhile isPlain
  | cs => cs

/-- What follows the end of a line; blanks and a comment may stand before it. -/
def lineEnd (cs : List Char) : Option (List Char) :=
  match skipComment (skipSpace cs) with
  | [] => some []
  | '\n' :: cs => some cs
  | '\r' :: '\n' :: cs => some cs
  | _ => none

/-- Drops blanks, comments and line breaks; `inComment` tells that a comment is being dropped. -/
def skipLines : Bool → List Char → List Char
  | false, ' ' :: cs => skipLines false cs
  | false, '\t' :: cs => skipLines false cs
  | false, '#' :: cs => skipLines true cs
  | _, '\n' :: cs => skipLines false cs
  | _, '\r' :: '\n' :: cs => skipLines false cs
  | true, c :: cs => if isPlain c then skipLines true cs else c :: cs
  | _, cs => cs

/-! ## Keys -/

/-- Whether a character may stand in a key without quotes. -/
def isKeyChar (c : Char) : Bool :=
  c.isAlphanum || c == '_' || c == '-'

/-- One part of a key. -/
def readKeyPart : List Char → Option (String × List Char)
  | '"' :: cs => readLineText ('"' :: cs)
  | '\'' :: cs => readLineText ('\'' :: cs)
  | cs =>
    let name := cs.takeWhile isKeyChar
    if name.isEmpty then none else some (String.ofList name, cs.dropWhile isKeyChar)

/-- The bound on the parts of a key and on the nesting of values. -/
def nestingLimit : Nat := 80

/-- A key of at most `n` parts: its path and its last part. -/
def readKeyWithin : Nat → List Char → Option ((List String × String) × List Char)
  | 0, _ => none
  | n + 1, cs => do
    let (part, cs) ← readKeyPart (skipSpace cs)
    match skipSpace cs with
    | '.' :: cs => do
      let ((path, key), cs) ← readKeyWithin n cs
      some ((part :: path, key), cs)
    | cs => some (([], part), cs)

/-- A key; blanks around it are dropped. -/
def readKey (cs : List Char) : Option ((List String × String) × List Char) :=
  readKeyWithin (nestingLimit - 1) cs

/-! ## Values -/

/-- Whether a character ends a word. -/
def endsWord (c : Char) : Bool :=
  isSpace c || c == '\n' || c == '\r' || c == '#' || c == ',' || c == ']' || c == '\x7d'

/-- A word's value. A day may be followed by a blank and a time. -/
def readWord (cs : List Char) : Option (Toml × List Char) :=
  let word := cs.takeWhile (!endsWord ·)
  match cs.dropWhile (!endsWord ·) with
  | ' ' :: c :: rest =>
    if isDay word && c.isDigit then
      let time := (c :: rest).takeWhile (!endsWord ·)
      if isOffsetTime time then
        some (.moment (String.ofList (word ++ ' ' :: time)), (c :: rest).dropWhile (!endsWord ·))
      else none
    else (ofWord? word).map fun v => (v, ' ' :: c :: rest)
  | rest => (ofWord? word).map fun v => (v, rest)

/-- The items of an array behind its bracket, at most `n` of them. -/
def readItems (item : List Char → Option (Toml × List Char)) :
    Nat → List Char → Option ((List Toml) × List Char)
  | 0, _ => none
  | n + 1, cs =>
    match skipLines false cs with
    | ']' :: cs => some ([], cs)
    | cs => do
      let (v, cs) ← item cs
      match skipLines false cs with
      | ',' :: cs => do
        let (vs, cs) ← readItems item n cs
        some (v :: vs, cs)
      | ']' :: cs => some ([v], cs)
      | _ => none

/-- The members of an inline table behind its brace, or behind a comma in it, at most `n`. -/
def readPairs (item : List Char → Option (Toml × List Char)) :
    Nat → Members → List Char → Option (Members × List Char)
  | 0, _, _ => none
  | n + 1, ms, cs => do
    let ((path, key), cs) ← readKey cs
    match cs with
    | '=' :: cs => do
      let (v, cs) ← item (skipSpace cs)
      let ms ← ms.assign key v path
      match skipSpace cs with
      | ',' :: cs => readPairs item n ms cs
      | '\x7d' :: cs => some (ms, cs)
      | _ => none
    | _ => none

/-- An inline table behind its brace. -/
def readInline (item : List Char → Option (Toml × List Char)) (cs : List Char) :
    Option (Toml × List Char) :=
  match skipSpace cs with
  | '\x7d' :: cs => some (.table .closed [], cs)
  | cs => (readPairs item (cs.length + 1) [] cs).map fun (ms, cs) => (.table .closed ms, cs)

/-- A value in which arrays and inline tables nest at most `n` deep. -/
def readValueWithin : Nat → List Char → Option (Toml × List Char)
  | _, '"' :: cs => (readText ('"' :: cs)).map fun (text, cs) => (.str text, cs)
  | _, '\'' :: cs => (readText ('\'' :: cs)).map fun (text, cs) => (.str text, cs)
  | 0, '[' :: _ => none
  | 0, '\x7b' :: _ => none
  | n + 1, '[' :: cs =>
    (readItems (readValueWithin n) (cs.length + 1) cs).map fun (vs, cs) => (.array vs, cs)
  | n + 1, '\x7b' :: cs => readInline (readValueWithin n) cs
  | _, cs => readWord cs

/-- A value. -/
def readValue (cs : List Char) : Option (Toml × List Char) :=
  readValueWithin (nestingLimit - 1) cs

/-! ## Documents -/

/-- A header behind its opening bracket or brackets. -/
def readHeader : List Char → Option (Header × List Char)
  | '[' :: cs => do
    let ((path, key), cs) ← readKey cs
    match cs with
    | ']' :: ']' :: cs => some (.tables path key, cs)
    | _ => none
  | cs => do
    let ((path, key), cs) ← readKey cs
    match cs with
    | ']' :: cs => some (.table path key, cs)
    | _ => none

/-- A key and its value. -/
def readAssignment (cs : List Char) : Option (Statement × List Char) := do
  let ((path, key), cs) ← readKey cs
  match cs with
  | '=' :: cs => do
    let (v, cs) ← readValue (skipSpace cs)
    some (.assign path key v, cs)
  | _ => none

/-- The statement of a line, if it has one. -/
def readStatement : List Char → Option ((Option Statement) × List Char)
  | '[' :: cs => (readHeader cs).map fun (h, cs) => (some (.header h), cs)
  | cs =>
    match lineEnd cs with
    | some _ => some (none, cs)
    | none => (readAssignment cs).map fun (s, cs) => (some s, cs)

/-- The statements of a document of at most `n` lines. -/
def readStatements : Nat → List Char → Option (List Statement)
  | 0, _ => none
  | n + 1, cs =>
    match skipSpace cs with
    | [] => some []
    | cs => do
      let (statement, cs) ← readStatement cs
      let cs ← lineEnd cs
      let statements ← readStatements n cs
      some (statement.toList ++ statements)

/-- Drops a byte order mark. -/
def skipMark : List Char → List Char
  | '\uFEFF' :: cs => cs
  | cs => cs

/-- The members of the table that a document is. -/
def parse? (text : String) : Option Members := do
  let cs := skipMark text.toList
  let statements ← readStatements (cs.length + 1) cs
  ofStatements statements

end ChangeImpact.Toml
