import SnapshotStore.Bytes

/-!
# The XXH3 hash of a byte string

XXH3 with seed 0 and the default secret, in its 64-bit and its 128-bit form.  Words are read in
little-endian order.  Inputs fall into five classes by length (0, 1 to 3, 4 to 8, 9 to 16, 17 to
128, 129 to 240 bytes, and longer ones, which are folded into eight accumulators block by block).

* `XXH3.hash64`  — the 64-bit hash.
* `XXH3.hash128` — the low and the high half of the 128-bit hash.
-/

namespace SnapshotStore.XXH3

/-! ## Constants -/

def prime32₁ : UInt64 := 0x9E3779B1
def prime32₂ : UInt64 := 0x85EBCA77
def prime32₃ : UInt64 := 0xC2B2AE3D
def prime64₁ : UInt64 := 0x9E3779B185EBCA87
def prime64₂ : UInt64 := 0xC2B2AE3D27D4EB4F
def prime64₃ : UInt64 := 0x165667B19E3779F9
def prime64₄ : UInt64 := 0x85EBCA77C2B2AE63
def prime64₅ : UInt64 := 0x27D4EB2F165667C5
def mixPrime₁ : UInt64 := 0x165667919E3779F9
def mixPrime₂ : UInt64 := 0x9FB21C651E98DF25

/-- The default secret, 192 bytes. -/
def secret : Array UInt8 := #[
  0xb8, 0xfe, 0x6c, 0x39, 0x23, 0xa4, 0x4b, 0xbe, 0x7c, 0x01, 0x81, 0x2c, 0xf7, 0x21, 0xad, 0x1c,
  0xde, 0xd4, 0x6d, 0xe9, 0x83, 0x90, 0x97, 0xdb, 0x72, 0x40, 0xa4, 0xa4, 0xb7, 0xb3, 0x67, 0x1f,
  0xcb, 0x79, 0xe6, 0x4e, 0xcc, 0xc0, 0xe5, 0x78, 0x82, 0x5a, 0xd0, 0x7d, 0xcc, 0xff, 0x72, 0x21,
  0xb8, 0x08, 0x46, 0x74, 0xf7, 0x43, 0x24, 0x8e, 0xe0, 0x35, 0x90, 0xe6, 0x81, 0x3a, 0x26, 0x4c,
  0x3c, 0x28, 0x52, 0xbb, 0x91, 0xc3, 0x00, 0xcb, 0x88, 0xd0, 0x65, 0x8b, 0x1b, 0x53, 0x2e, 0xa3,
  0x71, 0x64, 0x48, 0x97, 0xa2, 0x0d, 0xf9, 0x4e, 0x38, 0x19, 0xef, 0x46, 0xa9, 0xde, 0xac, 0xd8,
  0xa8, 0xfa, 0x76, 0x3f, 0xe3, 0x9c, 0x34, 0x3f, 0xf9, 0xdc, 0xbb, 0xc7, 0xc7, 0x0b, 0x4f, 0x1d,
  0x8a, 0x51, 0xe0, 0x4b, 0xcd, 0xb4, 0x59, 0x31, 0xc8, 0x9f, 0x7e, 0xc9, 0xd9, 0x78, 0x73, 0x64,
  0xea, 0xc5, 0xac, 0x83, 0x34, 0xd3, 0xeb, 0xc3, 0xc5, 0x81, 0xa0, 0xff, 0xfa, 0x13, 0x63, 0xeb,
  0x17, 0x0d, 0xdd, 0x51, 0xb7, 0xf0, 0xda, 0x49, 0xd3, 0x16, 0x55, 0x26, 0x29, 0xd4, 0x68, 0x9e,
  0x2b, 0x16, 0xbe, 0x58, 0x7d, 0x47, 0xa1, 0xfc, 0x8f, 0xf8, 0xb8, 0xd1, 0x7a, 0xd0, 0x31, 0xce,
  0x45, 0xcb, 0x3a, 0x8f, 0x95, 0x16, 0x04, 0x28, 0xaf, 0xd7, 0xfb, 0xca, 0xbb, 0x4b, 0x40, 0x7e]

/-! ## Words -/

/-- The little-endian number of the `n` bytes at position `i`. -/
def word (b : Array UInt8) (i n : Nat) : UInt64 :=
  (List.range n).foldr (fun j acc => (acc <<< 8) ||| (b[i + j]?.getD 0).toUInt64) 0

/-- The eight-byte word at position `i`. -/
def word64 (b : Array UInt8) (i : Nat) : UInt64 := word b i 8

/-- The four-byte word at position `i`. -/
def word32 (b : Array UInt8) (i : Nat) : UInt64 := word b i 4

/-- The eight-byte word of the secret at position `i`. -/
def secret64 (i : Nat) : UInt64 := word64 secret i

/-- The four-byte word of the secret at position `i`. -/
def secret32 (i : Nat) : UInt64 := word32 secret i

/-- The low 32 bits. -/
def low32 (x : UInt64) : UInt64 := x &&& 0xFFFFFFFF

/-- Rotation to the left. -/
def rotl (x : UInt64) (n : UInt64) : UInt64 := (x <<< n) ||| (x >>> (64 - n))

/-- Rotation of a 32-bit word to the left. -/
def rotl32 (x : UInt64) (n : UInt64) : UInt64 := low32 (x <<< n) ||| (low32 x >>> (32 - n))

/-- The `n` lowest bytes in reverse order. -/
def swapBytes (x : UInt64) (n : Nat) : UInt64 :=
  (List.range n).foldl (fun acc j => (acc <<< 8) ||| ((x >>> (8 * j).toUInt64) &&& 0xFF)) 0

/-- The low and the high half of the full product. -/
def product (a b : UInt64) : UInt64 × UInt64 :=
  let p := a.toNat * b.toNat
  (p.toUInt64, (p >>> 64).toUInt64)

/-- The two halves of the full product, combined. -/
def fold (a b : UInt64) : UInt64 :=
  let p := product a b
  p.1 ^^^ p.2

/-! ## Final mixing -/

/-- The final mix of the classes up to three bytes. -/
def avalancheShort (h : UInt64) : UInt64 :=
  let h := (h ^^^ (h >>> 33)) * prime64₂
  let h := (h ^^^ (h >>> 29)) * prime64₃
  h ^^^ (h >>> 32)

/-- The final mix of the classes from nine bytes on. -/
def avalanche (h : UInt64) : UInt64 :=
  let h := (h ^^^ (h >>> 37)) * mixPrime₁
  h ^^^ (h >>> 32)

/-- The final mix of the class from four to eight bytes. -/
def avalancheMedium (h len : UInt64) : UInt64 :=
  let h := (h ^^^ rotl h 49 ^^^ rotl h 24) * mixPrime₂
  let h := (h ^^^ ((h >>> 35) + len)) * mixPrime₂
  h ^^^ (h >>> 28)

/-- Sixteen bytes of input against sixteen bytes of secret. -/
def mix16 (b : Array UInt8) (i s : Nat) : UInt64 :=
  fold (word64 b i ^^^ secret64 s) (word64 b (i + 8) ^^^ secret64 (s + 8))

/-- First, middle and last byte with the length, for one to three bytes. -/
def combined (b : Array UInt8) : UInt64 :=
  let n := b.size
  let c₁ := word b 0 1
  let c₂ := word b (n / 2) 1
  let c₃ := word b (n - 1) 1
  (c₁ <<< 16) ||| (c₂ <<< 24) ||| c₃ ||| (n.toUInt64 <<< 8)

/-! ## Long inputs -/

/-- The eight accumulators at the start. -/
def startAccumulators : Array UInt64 :=
  #[prime32₃, prime64₁, prime64₂, prime64₃, prime64₄, prime32₂, prime64₅, prime32₁]

/-- Adds the 64 bytes at `i` to the accumulators, under the secret at `s`. -/
def accumulate (b : Array UInt8) (i s : Nat) (acc : Array UInt64) : Array UInt64 :=
  (List.range 8).foldl (fun acc j =>
    let value := word64 b (i + 8 * j)
    let key := value ^^^ secret64 (s + 8 * j)
    let acc := acc.modify (j ^^^ 1) (· + value)
    acc.modify j (· + low32 key * (key >>> 32))) acc

/-- Scrambles the accumulators at the end of a block. -/
def scramble (acc : Array UInt64) : Array UInt64 :=
  acc.mapIdx fun (j : Nat) (a : UInt64) =>
    ((a ^^^ (a >>> 47)) ^^^ secret64 (128 + 8 * j)) * prime32₁

/-- Folds `n` consecutive stripes of 64 bytes from `i` on. -/
def stripes (b : Array UInt8) (i n : Nat) (acc : Array UInt64) : Array UInt64 :=
  (List.range n).foldl (fun acc j => accumulate b (i + 64 * j) (8 * j) acc) acc

/-- The accumulators after an input of more than 240 bytes. -/
def accumulators (b : Array UInt8) : Array UInt64 :=
  let blocks := (b.size - 1) / 1024
  let acc := (List.range blocks).foldl (fun acc k => scramble (stripes b (1024 * k) 16 acc))
    startAccumulators
  let acc := stripes b (1024 * blocks) ((b.size - 1 - 1024 * blocks) / 64) acc
  accumulate b (b.size - 64) 121 acc

/-- Merges the accumulators into one word, under the secret at `s`. -/
def merge (acc : Array UInt64) (s : Nat) (start : UInt64) : UInt64 :=
  avalanche <| (List.range 4).foldl (fun r j =>
    r + fold (acc[2 * j]?.getD 0 ^^^ secret64 (s + 16 * j))
      (acc[2 * j + 1]?.getD 0 ^^^ secret64 (s + 16 * j + 8))) start

/-! ## The 64-bit hash -/

/-- The 64-bit hash of an array of bytes. -/
def hashArray64 (b : Array UInt8) : UInt64 :=
  let n := b.size
  let len := n.toUInt64
  if n = 0 then avalancheShort (secret64 56 ^^^ secret64 64)
  else if n ≤ 3 then avalancheShort (combined b ^^^ (secret32 0 ^^^ secret32 4))
  else if n ≤ 8 then
    let input := word32 b (n - 4) + (word32 b 0 <<< 32)
    avalancheMedium (input ^^^ (secret64 8 ^^^ secret64 16)) len
  else if n ≤ 16 then
    let lo := word64 b 0 ^^^ (secret64 24 ^^^ secret64 32)
    let hi := word64 b (n - 8) ^^^ (secret64 40 ^^^ secret64 48)
    avalanche (len + swapBytes lo 8 + hi + fold lo hi)
  else if n ≤ 128 then
    let pairs := (n - 1) / 32 + 1
    avalanche <| (List.range pairs).foldl (fun acc j =>
      acc + mix16 b (16 * j) (32 * j) + mix16 b (n - 16 * (j + 1)) (32 * j + 16)) (len * prime64₁)
  else if n ≤ 240 then
    let head := (List.range 8).foldl (fun acc j => acc + mix16 b (16 * j) (16 * j)) (len * prime64₁)
    let tail := (List.range (n / 16 - 8)).foldl
      (fun acc j => acc + mix16 b (16 * (j + 8)) (16 * j + 3)) (avalanche head)
    avalanche (tail + mix16 b (n - 16) 119)
  else merge (accumulators b) 11 (len * prime64₁)

/-- The 64-bit hash of a byte string. -/
def hash64 (b : Bytes) : UInt64 := hashArray64 b.toArray

/-! ## The 128-bit hash -/

/-- Thirty-two bytes, sixteen at `i` and sixteen at `j`, mixed into both halves. -/
def mix32 (b : Array UInt8) (i j s : Nat) (acc : UInt64 × UInt64) : UInt64 × UInt64 :=
  ((acc.1 + mix16 b i s) ^^^ (word64 b j + word64 b (j + 8)),
   (acc.2 + mix16 b j (s + 16)) ^^^ (word64 b i + word64 b (i + 8)))

/-- The end of the classes from 17 to 240 bytes. -/
def finish128 (len : UInt64) (acc : UInt64 × UInt64) : UInt64 × UInt64 :=
  (avalanche (acc.1 + acc.2),
   0 - avalanche (acc.1 * prime64₁ + acc.2 * prime64₄ + len * prime64₂))

/-- The low and the high half of the 128-bit hash of an array of bytes. -/
def hashArray128 (b : Array UInt8) : UInt64 × UInt64 :=
  let n := b.size
  let len := n.toUInt64
  if n = 0 then
    (avalancheShort (secret64 64 ^^^ secret64 72), avalancheShort (secret64 80 ^^^ secret64 88))
  else if n ≤ 3 then
    let lo := combined b
    let hi := rotl32 (swapBytes lo 4) 13
    (avalancheShort (lo ^^^ (secret32 0 ^^^ secret32 4)),
     avalancheShort (hi ^^^ (secret32 8 ^^^ secret32 12)))
  else if n ≤ 8 then
    let keyed := (word32 b 0 + (word32 b (n - 4) <<< 32)) ^^^ (secret64 16 ^^^ secret64 24)
    let p := product keyed (prime64₁ + (len <<< 2))
    let hi := p.2 + (p.1 <<< 1)
    let lo := p.1 ^^^ (hi >>> 3)
    let lo := (lo ^^^ (lo >>> 35)) * mixPrime₂
    (lo ^^^ (lo >>> 28), avalanche hi)
  else if n ≤ 16 then
    let lo := word64 b 0
    let hi := word64 b (n - 8)
    let p := product (lo ^^^ hi ^^^ (secret64 32 ^^^ secret64 40)) prime64₁
    let low := p.1 + ((len - 1) <<< 54)
    let hi := hi ^^^ (secret64 48 ^^^ secret64 56)
    let high := p.2 + hi + low32 hi * (prime32₂ - 1)
    let low := low ^^^ swapBytes high 8
    let q := product low prime64₂
    (avalanche q.1, avalanche (q.2 + high * prime64₂))
  else if n ≤ 128 then
    let pairs := (n - 1) / 32 + 1
    finish128 len <| (List.range pairs).reverse.foldl (fun acc j =>
      mix32 b (16 * j) (n - 16 * (j + 1)) (32 * j) acc) (len * prime64₁, 0)
  else if n ≤ 240 then
    let head := (List.range 4).foldl (fun acc j =>
      mix32 b (32 * j) (32 * j + 16) (32 * j) acc) (len * prime64₁, 0)
    let tail := (List.range (n / 32 - 4)).foldl (fun acc j =>
      mix32 b (32 * (j + 4)) (32 * (j + 4) + 16) (32 * j + 3) acc)
      (avalanche head.1, avalanche head.2)
    finish128 len (mix32 b (n - 16) (n - 32) 103 tail)
  else
    let acc := accumulators b
    (merge acc 11 (len * prime64₁), merge acc 117 (~~~(len * prime64₂)))

/-- The low and the high half of the 128-bit hash of a byte string. -/
def hash128 (b : Bytes) : UInt64 × UInt64 := hashArray128 b.toArray

end SnapshotStore.XXH3
