/-!
# XXH3, 64 bits

The 64-bit XXH3 hash with seed 0 and the standard secret. Texts of up to 16, 128 and 240 bytes have
rules of their own; longer ones are consumed in stripes of 64 bytes by eight lanes.

Words are 64-bit and little-endian, and their arithmetic wraps.
-/

namespace ChangeImpact.Hash

namespace Xxh3

/-! ## Words -/

/-- The byte at a position, 0 beyond the end. -/
def byteAt (b : ByteArray) (i : Nat) : UInt64 :=
  if h : i < b.size then b[i].toUInt64 else 0

/-- Four bytes, the lowest first. -/
def read32 (b : ByteArray) (i : Nat) : UInt64 :=
  byteAt b i ||| (byteAt b (i + 1) <<< 8) ||| (byteAt b (i + 2) <<< 16) |||
    (byteAt b (i + 3) <<< 24)

/-- Eight bytes, the lowest first. -/
def read64 (b : ByteArray) (i : Nat) : UInt64 :=
  read32 b i ||| (read32 b (i + 4) <<< 32)

/-- The two halves of the 128-bit product, joined by exclusive or. -/
def foldedProduct (a b : UInt64) : UInt64 :=
  let p := a.toNat * b.toNat
  UInt64.ofNat (p % 0x10000000000000000) ^^^ UInt64.ofNat (p / 0x10000000000000000)

/-- Rotation to the left by `n`, for `0 < n < 64`. -/
def rotateLeft (x n : UInt64) : UInt64 :=
  (x <<< n) ||| (x >>> (64 - n))

/-- The bytes of a word in the opposite order. -/
def swapBytes (x : UInt64) : UInt64 :=
  (List.range 8).foldl (fun acc i => (acc <<< 8) ||| ((x >>> (8 * i).toUInt64) &&& 0xff)) 0

/-! ## Constants -/

def prime32a : UInt64 := 0x9E3779B1
def prime32b : UInt64 := 0x85EBCA77
def prime32c : UInt64 := 0xC2B2AE3D
def prime64a : UInt64 := 0x9E3779B185EBCA87
def prime64b : UInt64 := 0xC2B2AE3D27D4EB4F
def prime64c : UInt64 := 0x165667B19E3779F9
def prime64d : UInt64 := 0x85EBCA77C2B2AE63
def prime64e : UInt64 := 0x27D4EB2F165667C5
def mixer1 : UInt64 := 0x165667919E3779F9
def mixer2 : UInt64 := 0x9FB21C651E98DF25

/-- The standard secret, 192 bytes. -/
def secret : ByteArray :=
  ⟨#[
    0xb8, 0xfe, 0x6c, 0x39, 0x23, 0xa4, 0x4b, 0xbe, 0x7c, 0x01, 0x81, 0x2c,
    0xf7, 0x21, 0xad, 0x1c, 0xde, 0xd4, 0x6d, 0xe9, 0x83, 0x90, 0x97, 0xdb,
    0x72, 0x40, 0xa4, 0xa4, 0xb7, 0xb3, 0x67, 0x1f, 0xcb, 0x79, 0xe6, 0x4e,
    0xcc, 0xc0, 0xe5, 0x78, 0x82, 0x5a, 0xd0, 0x7d, 0xcc, 0xff, 0x72, 0x21,
    0xb8, 0x08, 0x46, 0x74, 0xf7, 0x43, 0x24, 0x8e, 0xe0, 0x35, 0x90, 0xe6,
    0x81, 0x3a, 0x26, 0x4c, 0x3c, 0x28, 0x52, 0xbb, 0x91, 0xc3, 0x00, 0xcb,
    0x88, 0xd0, 0x65, 0x8b, 0x1b, 0x53, 0x2e, 0xa3, 0x71, 0x64, 0x48, 0x97,
    0xa2, 0x0d, 0xf9, 0x4e, 0x38, 0x19, 0xef, 0x46, 0xa9, 0xde, 0xac, 0xd8,
    0xa8, 0xfa, 0x76, 0x3f, 0xe3, 0x9c, 0x34, 0x3f, 0xf9, 0xdc, 0xbb, 0xc7,
    0xc7, 0x0b, 0x4f, 0x1d, 0x8a, 0x51, 0xe0, 0x4b, 0xcd, 0xb4, 0x59, 0x31,
    0xc8, 0x9f, 0x7e, 0xc9, 0xd9, 0x78, 0x73, 0x64, 0xea, 0xc5, 0xac, 0x83,
    0x34, 0xd3, 0xeb, 0xc3, 0xc5, 0x81, 0xa0, 0xff, 0xfa, 0x13, 0x63, 0xeb,
    0x17, 0x0d, 0xdd, 0x51, 0xb7, 0xf0, 0xda, 0x49, 0xd3, 0x16, 0x55, 0x26,
    0x29, 0xd4, 0x68, 0x9e, 0x2b, 0x16, 0xbe, 0x58, 0x7d, 0x47, 0xa1, 0xfc,
    0x8f, 0xf8, 0xb8, 0xd1, 0x7a, 0xd0, 0x31, 0xce, 0x45, 0xcb, 0x3a, 0x8f,
    0x95, 0x16, 0x04, 0x28, 0xaf, 0xd7, 0xfb, 0xca, 0xbb, 0x4b, 0x40, 0x7e]⟩

/-! ## Mixing -/

/-- The last step for texts of at most three bytes. -/
def avalancheShort (h : UInt64) : UInt64 :=
  let h := (h ^^^ (h >>> 33)) * prime64b
  let h := (h ^^^ (h >>> 29)) * prime64c
  h ^^^ (h >>> 32)

/-- The last step for texts of four to eight bytes. -/
def avalancheWord (h : UInt64) (length : Nat) : UInt64 :=
  let h := (h ^^^ rotateLeft h 49 ^^^ rotateLeft h 24) * mixer2
  let h := (h ^^^ ((h >>> 35) + length.toUInt64)) * mixer2
  h ^^^ (h >>> 28)

/-- The last step for longer texts. -/
def avalanche (h : UInt64) : UInt64 :=
  let h := (h ^^^ (h >>> 37)) * mixer1
  h ^^^ (h >>> 32)

/-- Sixteen bytes of the text at `i` under the secret at `s`. -/
def mix16 (b : ByteArray) (i s : Nat) : UInt64 :=
  foldedProduct (read64 b i ^^^ read64 secret s) (read64 b (i + 8) ^^^ read64 secret (s + 8))

/-! ## Texts of at most 240 bytes -/

/-- At most 16 bytes. -/
def hashShort (b : ByteArray) : UInt64 :=
  let n := b.size
  if n = 0 then avalancheShort (read64 secret 56 ^^^ read64 secret 64)
  else if n ≤ 3 then
    let joined := (byteAt b 0 <<< 16) ||| (byteAt b (n / 2) <<< 24) ||| byteAt b (n - 1) |||
      (n.toUInt64 <<< 8)
    avalancheShort (joined ^^^ (read32 secret 0 ^^^ read32 secret 4))
  else if n ≤ 8 then
    let word := read32 b (n - 4) + (read32 b 0 <<< 32)
    avalancheWord (word ^^^ (read64 secret 8 ^^^ read64 secret 16)) n
  else
    let low := read64 b 0 ^^^ (read64 secret 24 ^^^ read64 secret 32)
    let high := read64 b (n - 8) ^^^ (read64 secret 40 ^^^ read64 secret 48)
    avalanche (n.toUInt64 + swapBytes low + high + foldedProduct low high)

/-- 17 to 128 bytes: pairs of blocks from both ends inwards. -/
def hashMedium (b : ByteArray) : UInt64 :=
  let n := b.size
  let pairs := (n - 1) / 32 + 1
  avalanche <|
    (List.range pairs).foldl
      (fun acc i => acc + mix16 b (16 * i) (32 * i) + mix16 b (n - 16 * (i + 1)) (32 * i + 16))
      (n.toUInt64 * prime64a)

/-- 129 to 240 bytes: blocks in order, the first eight mixed on their own. -/
def hashLarge (b : ByteArray) : UInt64 :=
  let n := b.size
  let first := (List.range 8).foldl (fun acc i => acc + mix16 b (16 * i) (16 * i))
    (n.toUInt64 * prime64a)
  let later := (List.range (n / 16 - 8)).foldl
    (fun acc i => acc + mix16 b (16 * (i + 8)) (16 * i + 3)) (mix16 b (n - 16) 119)
  avalanche (avalanche first + later)

/-! ## Longer texts -/

/-- The eight lanes. -/
abbrev Lanes := Vector UInt64 8

/-- The lanes before the first stripe. -/
def initialLanes : Lanes :=
  #v[prime32c, prime64a, prime64b, prime64c, prime64d, prime32b, prime64e, prime32a]

/-- Takes in the stripe at `i` under the secret at `s`: each lane gets the product of the halves of
its keyed word, and its neighbour's word. -/
def Lanes.stripe (acc : Lanes) (b : ByteArray) (i s : Nat) : Lanes :=
  .ofFn fun lane =>
    let key : UInt64 := read64 b (i + 8 * lane) ^^^ read64 secret (s + 8 * lane)
    let neighbour := if lane.val % 2 = 0 then lane.val + 1 else lane.val - 1
    acc.get lane + read64 b (i + 8 * neighbour) + (key &&& (0xFFFFFFFF : UInt64)) * (key >>> 32)

/-- Takes in `count` stripes from `i` on, moving the secret by eight bytes each time. -/
def Lanes.stripes (acc : Lanes) (b : ByteArray) (i count : Nat) : Lanes :=
  (List.range count).foldl (fun acc k => acc.stripe b (i + 64 * k) (8 * k)) acc

/-- Stirs the lanes at the end of a block. -/
def Lanes.scramble (acc : Lanes) : Lanes :=
  .ofFn fun lane =>
    let a := acc.get lane
    ((a ^^^ (a >>> 47)) ^^^ read64 secret (128 + 8 * lane)) * prime32a

/-- Joins the lanes. -/
def Lanes.merge (acc : Lanes) (n : Nat) : UInt64 :=
  let pair (i j : Fin 8) (s : Nat) : UInt64 :=
    foldedProduct (acc.get i ^^^ read64 secret s) (acc.get j ^^^ read64 secret (s + 8))
  avalanche (n.toUInt64 * prime64a + pair 0 1 11 + pair 2 3 27 + pair 4 5 43 + pair 6 7 59)

/-- More than 240 bytes: blocks of sixteen stripes, then what is left, then the last 64 bytes. -/
def hashLong (b : ByteArray) : UInt64 :=
  let n := b.size
  let blocks := (n - 1) / 1024
  let acc := (List.range blocks).foldl
    (fun acc k => (acc.stripes b (1024 * k) 16).scramble) initialLanes
  let acc := acc.stripes b (1024 * blocks) ((n - 1 - 1024 * blocks) / 64)
  (acc.stripe b (n - 64) 121).merge n

end Xxh3

/-- The XXH3 hash of a byte string. -/
def xxh3 (b : ByteArray) : UInt64 :=
  if b.size ≤ 16 then Xxh3.hashShort b
  else if b.size ≤ 128 then Xxh3.hashMedium b
  else if b.size ≤ 240 then Xxh3.hashLarge b
  else Xxh3.hashLong b

end ChangeImpact.Hash
