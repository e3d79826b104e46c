/-!
# Similar contents

How much of a content is found again in another. A content is cut into runs, mostly its lines; a run
is reduced to a word, and two contents are as similar as they have words in common. The white space
at the beginning of a line does not count.

* `Signature.ofContent` — the words of a content;
* `similarity?` — how similar two contents are, from 0 to 100.
-/

namespace ChangeImpact.Repository

/-- The words of a content. -/
structure Signature where
  words : List UInt32
  /-- How many runs ended with a line feed or a zero. -/
  lines : Nat
deriving DecidableEq, Repr

namespace Signature

/-- A content that is being read. -/
structure Reading where
  signature : Signature
  /-- White space is passed over: the last byte was a line feed, or there was none. -/
  atStart : Bool
  /-- A run has just ended; what ends runs is passed over. -/
  between : Bool
  /-- The bytes of the run so far. -/
  length : Nat
  word : UInt64
deriving DecidableEq, Repr

/-- The word of an empty run. -/
def emptyWord : UInt64 := 0x012345678ABCDEF0

/-- Nothing is read yet. -/
def Reading.start : Reading := ⟨⟨[], 0⟩, true, false, 0, emptyWord⟩

/-- The longest run. -/
def longestRun : Nat := 80

/-- White space other than the line feed. -/
def isBlankByte (b : UInt8) : Bool :=
  b == 32 || b == 9 || b == 11 || b == 12 || b == 13

/-- Whether a byte ends a run. -/
def endsRun (b : UInt8) : Bool :=
  b == 10 || b == 0

/-- Ends the run; an empty one leaves no word. -/
def Reading.endRun (r : Reading) : Reading :=
  if r.length = 0 then { r with between := false }
  else { r with
    signature := { r.signature with words := r.word.toUInt32 :: r.signature.words }
    between := true
    length := 0
    word := emptyWord }

/-- Takes a byte into the run. -/
def Reading.grow (r : Reading) (b : UInt8) : Reading :=
  let r := { r with
    atStart := false
    between := false
    length := r.length + 1
    word := (r.word <<< 5) - r.word + b.toUInt64 }
  if r.length = longestRun then r.endRun else r

/-- Reads a byte. -/
def Reading.step (r : Reading) (b : UInt8) : Reading :=
  if r.between && endsRun b then r
  else if (if r.atStart then isBlankByte b else b == 13) then { r with between := false }
  else if endsRun b then
    { r with
      atStart := b == 10
      signature := { r.signature with lines := r.signature.lines + 1 } }.endRun
  else r.grow b

/-- The words of a content. -/
def ofContent (content : List UInt8) : Signature :=
  (content.foldl Reading.step .start).endRun.signature

end Signature

/-! ## Comparison -/

/-- How many words of the first list are found in the second, each of these once. -/
def overlap : List UInt32 → List UInt32 → Nat
  | [], _ => 0
  | w :: ws, vs => if vs.contains w then overlap ws (vs.erase w) + 1 else overlap ws vs

/-- The share of common words, in percent. -/
def share (a b : List UInt32) : Nat :=
  100 * (2 * overlap a b) / (a.length + b.length)

/-- So many words are compared at each end of their order. -/
def sampleSize : Nat := 127

/-- The smallest words. -/
def smallest (ws : List UInt32) : List UInt32 :=
  (ws.mergeSort (· ≤ ·)).take sampleSize

/-- The largest words. -/
def largest (ws : List UInt32) : List UInt32 :=
  (ws.mergeSort (· ≥ ·)).take sampleSize

/-- How similar two signatures are. Contents without words are alike if they have no lines. -/
def Signature.similarity (a b : Signature) : Nat :=
  if a.words.isEmpty && b.words.isEmpty then
    if a.lines = 0 ∧ b.lines = 0 then 100 else 0
  else if a.words.length < sampleSize then share (smallest a.words) (smallest b.words)
  else
    (share (smallest a.words) (smallest b.words) + share (largest a.words) (largest b.words)) / 2

/-- Whether two sizes are so far apart that contents are not compared. -/
def farApart (m n : Nat) : Bool :=
  127 < m && 127 < n && (8 * n < m || 8 * m < n)

/-- How similar two contents are, unless their sizes are far apart. -/
def similarity? (a b : List UInt8) : Option Nat :=
  if farApart a.length b.length then none
  else some ((Signature.ofContent a).similarity (.ofContent b))

end ChangeImpact.Repository
