/-!
# SHA-1

The 160-bit SHA-1 hash. A message is padded to whole blocks of 64 bytes; each block is stretched to
80 words, and each word turns a state of five words. Words are 32-bit and big-endian, and their
arithmetic wraps.
-/

namespace ChangeImpact.Hash

namespace Sha1

/-- The state of the hash. -/
structure State where
  a : UInt32
  b : UInt32
  c : UInt32
  d : UInt32
  e : UInt32
deriving DecidableEq, Repr

/-- The state before the first block. -/
def State.start : State :=
  ⟨0x67452301, 0xEFCDAB89, 0x98BADCFE, 0x10325476, 0xC3D2E1F0⟩

/-- The sums of the words of two states. -/
def State.add (s t : State) : State :=
  ⟨s.a + t.a, s.b + t.b, s.c + t.c, s.d + t.d, s.e + t.e⟩

/-- The words of a state. -/
def State.words (s : State) : List UInt32 :=
  [s.a, s.b, s.c, s.d, s.e]

/-- Rotation to the left by `n`, for `0 < n < 32`. -/
def rotateLeft (x n : UInt32) : UInt32 :=
  (x <<< n) ||| (x >>> (32 - n))

/-- The function and the constant of a round. -/
def mix (t : Nat) (s : State) : UInt32 :=
  if t < 20 then ((s.b &&& s.c) ||| (~~~s.b &&& s.d)) + 0x5A827999
  else if t < 40 then (s.b ^^^ s.c ^^^ s.d) + 0x6ED9EBA1
  else if t < 60 then ((s.b &&& s.c) ||| (s.b &&& s.d) ||| (s.c &&& s.d)) + 0x8F1BBCDC
  else (s.b ^^^ s.c ^^^ s.d) + 0xCA62C1D6

/-- One round: it takes one word. -/
def round (s : State) (t : Nat) (w : UInt32) : State :=
  ⟨rotateLeft s.a 5 + mix t s + s.e + w, s.a, rotateLeft s.b 30, s.c, s.d⟩

/-- The rounds from the `t`-th on. The window holds the sixteen words that come next; a new one is
made of four of them. -/
def rounds (t : Nat) : Nat → List UInt32 → State → State
  | 0, _, s => s
  | n + 1, window, s =>
    match window with
    | [] => s
    | w :: ws =>
      let new := rotateLeft (ws.getD 12 0 ^^^ ws.getD 7 0 ^^^ ws.getD 1 0 ^^^ w) 1
      rounds (t + 1) n (ws ++ [new]) (round s t w)

/-- The words of a list of bytes. -/
def wordsOf : List UInt8 → List UInt32
  | a :: b :: c :: d :: rest =>
    ((a.toUInt32 <<< 24) ||| (b.toUInt32 <<< 16) ||| (c.toUInt32 <<< 8) ||| d.toUInt32) ::
      wordsOf rest
  | _ => []

/-- The state after a block. -/
def State.absorb (s : State) (block : List UInt32) : State :=
  s.add (rounds 0 80 block s)

/-- The state after all blocks of sixteen words; `n` is at least their number. -/
def absorbAll : Nat → List UInt32 → State → State
  | 0, _, s => s
  | n + 1, words, s =>
    if words.length < 16 then s
    else absorbAll n (words.drop 16) (s.absorb (words.take 16))

/-- The `n` bytes of a number, the highest first. -/
def bigEndian (n value : Nat) : List UInt8 :=
  (List.range n).map fun i => (value / Nat.pow 256 (n - 1 - i)).toUInt8

/-- What follows a message of `n` bytes: a mark, zeros up to a whole block, and the length in
bits. -/
def padding (n : Nat) : List UInt8 :=
  0x80 :: List.replicate ((119 - n % 64) % 64) 0 ++ bigEndian 8 (8 * n)

end Sha1

/-- The SHA-1 hash of a message, 20 bytes. -/
def sha1 (message : ByteArray) : List UInt8 :=
  let bytes := message.data.toList ++ Sha1.padding message.size
  let words := Sha1.wordsOf bytes
  (Sha1.absorbAll words.length words .start).words.flatMap fun w => Sha1.bigEndian 4 w.toNat

end ChangeImpact.Hash
