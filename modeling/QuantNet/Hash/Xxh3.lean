import QuantNet.Failure

/-!
# The 128-bit content hash function

XXH3-128 with seed zero and the standard secret: a fixed function from byte strings to 128
bits, used to tell whether two builds have the same contents.

## The model

Arithmetic is on 64-bit words and wraps. A byte past the end of the data reads as zero, and no
reading below ever reaches one. Data are read in four ways by length: up to sixteen bytes in
one step, up to 240 bytes by mixing pieces of thirty-two, and longer data by blocks of sixteen
stripes of sixty-four bytes.
-/

namespace QuantNet.Xxh3

/-- A 128-bit value as two words. -/
structure Wide where
  /-- The lower 64 bits. -/
  low : UInt64
  /-- The upper 64 bits. -/
  high : UInt64
deriving DecidableEq

/-! ### Constants -/

/-- The standard secret. -/
def secret : ByteArray := ⟨#[
    0xb8, 0xfe, 0x6c, 0x39, 0x23, 0xa4, 0x4b, 0xbe, 0x7c, 0x01, 0x81, 0x2c, 0xf7, 0x21, 0xad, 0x1c,
    0xde, 0xd4, 0x6d, 0xe9, 0x83, 0x90, 0x97, 0xdb, 0x72, 0x40, 0xa4, 0xa4, 0xb7, 0xb3, 0x67, 0x1f,
    0xcb, 0x79, 0xe6, 0x4e, 0xcc, 0xc0, 0xe5, 0x78, 0x82, 0x5a, 0xd0, 0x7d, 0xcc, 0xff, 0x72, 0x21,
    0xb8, 0x08, 0x46, 0x74, 0xf7, 0x43, 0x24, 0x8e, 0xe0, 0x35, 0x90, 0xe6, 0x81, 0x3a, 0x26, 0x4c,
    0x3c, 0x28, 0x52, 0xbb, 0x91, 0xc3, 0x00, 0xcb, 0x88, 0xd0, 0x65, 0x8b, 0x1b, 0x53, 0x2e, 0xa3,
    0x71, 0x64, 0x48, 0x97, 0xa2, 0x0d, 0xf9, 0x4e, 0x38, 0x19, 0xef, 0x46, 0xa9, 0xde, 0xac, 0xd8,
    0xa8, 0xfa, 0x76, 0x3f, 0xe3, 0x9c, 0x34, 0x3f, 0xf9, 0xdc, 0xbb, 0xc7, 0xc7, 0x0b, 0x4f, 0x1d,
    0x8a, 0x51, 0xe0, 0x4b, 0xcd, 0xb4, 0x59, 0x31, 0xc8, 0x9f, 0x7e, 0xc9, 0xd9, 0x78, 0x73, 0x64,
    0xea, 0xc5, 0xac, 0x83, 0x34, 0xd3, 0xeb, 0xc3, 0xc5, 0x81, 0xa0, 0xff, 0xfa, 0x13, 0x63, 0xeb,
    0x17, 0x0d, 0xdd, 0x51, 0xb7, 0xf0, 0xda, 0x49, 0xd3, 0x16, 0x55, 0x26, 0x29, 0xd4, 0x68, 0x9e,
    0x2b, 0x16, 0xbe, 0x58, 0x7d, 0x47, 0xa1, 0xfc, 0x8f, 0xf8, 0xb8, 0xd1, 0x7a, 0xd0, 0x31, 0xce,
    0x45, 0xcb, 0x3a, 0x8f, 0x95, 0x16, 0x04, 0x28, 0xaf, 0xd7, 0xfb, 0xca, 0xbb, 0x4b, 0x40, 0x7e]⟩

def prime32One : UInt64 := 0x9E3779B1
def prime32Two : UInt64 := 0x85EBCA77
def prime32Three : UInt64 := 0xC2B2AE3D
def primeOne : UInt64 := 0x9E3779B185EBCA87
def primeTwo : UInt64 := 0xC2B2AE3D27D4EB4F
def primeThree : UInt64 := 0x165667B19E3779F9
def primeFour : UInt64 := 0x85EBCA77C2B2AE63
def primeFive : UInt64 := 0x27D4EB2F165667C5
def mixOne : UInt64 := 0x165667919E3779F9
def mixTwo : UInt64 := 0x9FB21C651E98DF25

/-! ### Words -/

/-- The byte at an index, zero past the end. -/
def byteAt (data : ByteArray) (i : Nat) : UInt64 :=
  if h : i < data.size then (data.get i h).toUInt64 else 0

/-- Four bytes from an index, least significant first. -/
def read32 (data : ByteArray) (i : Nat) : UInt64 :=
  byteAt data i ||| (byteAt data (i + 1) <<< 8) ||| (byteAt data (i + 2) <<< 16) |||
    (byteAt data (i + 3) <<< 24)

/-- Eight bytes from an index, least significant first. -/
def read64 (data : ByteArray) (i : Nat) : UInt64 :=
  read32 data i ||| (read32 data (i + 4) <<< 32)

/-- The lower half of a word. -/
def lowHalf (w : UInt64) : UInt64 := w &&& 0xFFFFFFFF

/-- A 32-bit word with its bytes in the opposite order. -/
def swap32 (w : UInt64) : UInt64 :=
  let byte (k : UInt64) : UInt64 := (w >>> k) &&& (0xFF : UInt64)
  (byte 0 <<< 24) ||| (byte 8 <<< 16) ||| (byte 16 <<< 8) ||| byte 24

/-- A word with its bytes in the opposite order. -/
def swap64 (w : UInt64) : UInt64 := (swap32 (lowHalf w) <<< 32) ||| swap32 (w >>> 32)

/-- A 32-bit word turned left. -/
def rotate32 (w : UInt64) (by_ : UInt64) : UInt64 :=
  lowHalf (w <<< by_) ||| (w >>> (32 - by_))

/-- The whole product of two words. -/
def mulWide (a b : UInt64) : Wide :=
  ⟨a * b, UInt64.ofNat (a.toNat * b.toNat / twoPow 64)⟩

/-- The two halves of a product, folded into one word. -/
def mulFold (a b : UInt64) : UInt64 :=
  let p := mulWide a b
  p.low ^^^ p.high

/-- A word combined with itself shifted right. -/
def xorShift (w by_ : UInt64) : UInt64 := w ^^^ (w >>> by_)

/-- The strong final mixing of a word. -/
def avalancheStrong (w : UInt64) : UInt64 :=
  xorShift (xorShift (xorShift w 33 * primeTwo) 29 * primeThree) 32

/-- The final mixing of a word. -/
def avalanche (w : UInt64) : UInt64 := xorShift (xorShift w 37 * mixOne) 32

/-- The exclusive or of two neighbouring words of the secret. -/
def secretPair (i : Nat) : UInt64 := read64 secret i ^^^ read64 secret (i + 8)

/-! ### Up to sixteen bytes -/

/-- The hash of no data. -/
def hashEmpty : Wide := ⟨avalancheStrong (secretPair 64), avalancheStrong (secretPair 80)⟩

/-- The hash of one to three bytes. -/
def hashTiny (data : ByteArray) : Wide :=
  let n := data.size
  let low := (byteAt data 0 <<< 16) ||| (byteAt data (n / 2) <<< 24) ||| byteAt data (n - 1) |||
    (UInt64.ofNat n <<< 8)
  let high := rotate32 (swap32 low) 13
  ⟨avalancheStrong (low ^^^ (read32 secret 0 ^^^ read32 secret 4)),
    avalancheStrong (high ^^^ (read32 secret 8 ^^^ read32 secret 12))⟩

/-- The hash of four to eight bytes. -/
def hashShort (data : ByteArray) : Wide :=
  let n := data.size
  let word := read32 data 0 + (read32 data (n - 4) <<< 32)
  let p := mulWide (word ^^^ secretPair 16) (primeOne + (UInt64.ofNat n <<< 2))
  let high := p.high + (p.low <<< 1)
  let low := p.low ^^^ (high >>> 3)
  ⟨xorShift (xorShift low 35 * mixTwo) 28, avalanche high⟩

/-- The hash of nine to sixteen bytes. -/
def hashMedium (data : ByteArray) : Wide :=
  let n := data.size
  let first := read64 data 0
  let last := read64 data (n - 8)
  let p := mulWide (first ^^^ last ^^^ secretPair 32) primeOne
  let low := p.low + (UInt64.ofNat (n - 1) <<< 54)
  let last := last ^^^ secretPair 48
  let high := p.high + last + lowHalf last * (prime32Two - 1)
  let q := mulWide (low ^^^ swap64 high) primeTwo
  ⟨avalanche q.low, avalanche (q.high + high * primeTwo)⟩

/-! ### Up to 240 bytes -/

/-- Sixteen bytes of data mixed with sixteen of the secret. -/
def mix16 (data : ByteArray) (at_ key : Nat) : UInt64 :=
  mulFold (read64 data at_ ^^^ read64 secret key) (read64 data (at_ + 8) ^^^ read64 secret (key + 8))

/-- Two pieces of sixteen bytes mixed into the state. -/
def mix32 (data : ByteArray) (state : Wide) (left right key : Nat) : Wide :=
  ⟨(state.low + mix16 data left key) ^^^ (read64 data right + read64 data (right + 8)),
    (state.high + mix16 data right (key + 16)) ^^^ (read64 data left + read64 data (left + 8))⟩

/-- The hash a state of mixed pieces ends in. -/
def finishMixed (data : ByteArray) (state : Wide) : Wide :=
  let n := UInt64.ofNat data.size
  ⟨avalanche (state.low + state.high),
    0 - avalanche (state.low * primeOne + state.high * primeFour + n * primeTwo)⟩

/-- The state before any piece is mixed in. -/
def startMixed (data : ByteArray) : Wide := ⟨UInt64.ofNat data.size * primeOne, 0⟩

/-- The hash of 17 to 128 bytes: pieces are taken from both ends inwards, the innermost first. -/
def hashLong (data : ByteArray) : Wide :=
  let n := data.size
  let depth := (n - 1) / 32
  finishMixed data <| (List.range (depth + 1)).reverse.foldl (fun state i =>
    mix32 data state (16 * i) (n - 16 * (i + 1)) (32 * i)) (startMixed data)

/-- The hash of 129 to 240 bytes. -/
def hashLonger (data : ByteArray) : Wide :=
  let n := data.size
  let early := (List.range 4).foldl (fun state i =>
    mix32 data state (32 * i) (32 * i + 16) (32 * i)) (startMixed data)
  let turned : Wide := ⟨avalanche early.low, avalanche early.high⟩
  let late := (List.range (n / 32 - 4)).foldl (fun state i =>
    mix32 data state (32 * (i + 4)) (32 * (i + 4) + 16) (3 + 32 * i)) turned
  finishMixed data (mix32 data late (n - 16) (n - 32) 103)

/-! ### More than 240 bytes -/

/-- The eight lanes of the block state. -/
abbrev Lanes := Vector UInt64 8

/-- The lanes before any data. -/
def startLanes : Lanes :=
  #v[prime32Three, primeOne, primeTwo, primeThree, primeFour, prime32Two, primeFive, prime32One]

/-- Sixty-four bytes of data added to the lanes, each word to its neighbour and its keyed
product to itself. -/
def addStripe (data : ByteArray) (lanes : Lanes) (at_ key : Nat) : Lanes :=
  let keyed : Lanes := Vector.ofFn fun i : Fin 8 =>
    read64 data (at_ + 8 * i) ^^^ read64 secret (key + 8 * i)
  Vector.ofFn fun i : Fin 8 =>
    lanes.get i + read64 data (at_ + 8 * (i.val ^^^ 1)) + lowHalf (keyed.get i) * (keyed.get i >>> 32)

/-- The lanes scrambled at the end of a block. -/
def scramble (lanes : Lanes) : Lanes :=
  Vector.ofFn fun i : Fin 8 =>
    (xorShift (lanes.get i) 47 ^^^ read64 secret (128 + 8 * i)) * prime32One

/-- The lanes after `count` stripes from an index. -/
def addStripes (data : ByteArray) (lanes : Lanes) (start count : Nat) : Lanes :=
  (List.range count).foldl (fun lanes i => addStripe data lanes (start + 64 * i) (8 * i)) lanes

/-- The lanes folded into one word with a part of the secret. -/
def mergeLanes (lanes : Lanes) (key : Nat) (start : UInt64) : UInt64 :=
  avalanche <| start +
    mulFold (lanes.get 0 ^^^ read64 secret key) (lanes.get 1 ^^^ read64 secret (key + 8)) +
    mulFold (lanes.get 2 ^^^ read64 secret (key + 16)) (lanes.get 3 ^^^ read64 secret (key + 24)) +
    mulFold (lanes.get 4 ^^^ read64 secret (key + 32)) (lanes.get 5 ^^^ read64 secret (key + 40)) +
    mulFold (lanes.get 6 ^^^ read64 secret (key + 48)) (lanes.get 7 ^^^ read64 secret (key + 56))

/-- The hash of more than 240 bytes. -/
def hashBlocks (data : ByteArray) : Wide :=
  let n := data.size
  let blocks := (n - 1) / 1024
  let lanes := (List.range blocks).foldl (fun lanes b =>
    scramble (addStripes data lanes (1024 * b) 16)) startLanes
  let lanes := addStripes data lanes (1024 * blocks) ((n - 1 - 1024 * blocks) / 64)
  let lanes := addStripe data lanes (n - 64) 121
  let size := UInt64.ofNat n
  ⟨mergeLanes lanes 11 (size * primeOne), mergeLanes lanes 117 (~~~(size * primeTwo))⟩

/-- The hash of a byte string. -/
def hash (data : ByteArray) : Wide :=
  let n := data.size
  if n = 0 then hashEmpty
  else if n ≤ 3 then hashTiny data
  else if n ≤ 8 then hashShort data
  else if n ≤ 16 then hashMedium data
  else if n ≤ 128 then hashLong data
  else if n ≤ 240 then hashLonger data
  else hashBlocks data

end QuantNet.Xxh3
