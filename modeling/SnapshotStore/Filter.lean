import SnapshotStore.Hash.XXH3
import SnapshotStore.Text.Record

/-!
# Membership filters

A filter remembers a set of keys in a fixed number of bits.  A key sets the bits at the positions
`h₁ + i * h₂` modulo the number of bits, for `i` below the number of probes, where `h₁` and `h₂` are
two hashes of the key; a key whose bits are all set may be in the set, any other key is not.  The
bits are kept in words of 64, and a position is a number below the number of bits, so every access
to a word is in bounds.

* `Filter.Scheme` — the hash function and the shape of a filter for a number of expected keys.
* `Filter.shapeFor` — the shape that keeps false answers below a given rate.
-/

namespace SnapshotStore

namespace Filter

/-- The size of a filter. -/
structure Shape where
  /-- The number of bits. -/
  bits : Nat
  /-- The number of positions of a key. -/
  probes : Nat
  /-- There is a bit. -/
  bits_pos : 0 < bits
  /-- A key has a position. -/
  probes_pos : 0 < probes
  deriving DecidableEq

/-- The number of words that hold the bits. -/
def Shape.wordCount (s : Shape) : Nat := (s.bits + 63) / 64

/-- The rate of false answers that replaces a rate outside the open unit interval. -/
def standardRate : Float := 0.01

/-- The shape for a number of expected keys and a rate of false answers: `-1.44 * log₂ rate` bits a
key, at least 64 bits in all, and `ln 2` probes a bit of a key, at least one. -/
def shapeFor (rate : Float) (expected : Nat) : Shape :=
  let rate := if rate > 0.0 && rate < 1.0 then rate else standardRate
  let bitsPerKey := -1.44 * rate.log2
  { bits := max (expected.toFloat * bitsPerKey).ceil.toUInt64.toNat 64
    probes := max (bitsPerKey * (2.0 : Float).log).ceil.toUInt32.toNat 1
    bits_pos := by omega
    probes_pos := by omega }

/-- How filters are made: the two hashes of a key, and the shape for a number of expected keys. -/
structure Scheme where
  /-- The two hashes of a key. -/
  hashes : Bytes → UInt64 × UInt64
  /-- The shape for a number of expected keys. -/
  shape : Nat → Shape

/-- The scheme with the XXH3 hash and a given rate of false answers. -/
def Scheme.ofRate (rate : Float) : Scheme := ⟨XXH3.hash128, shapeFor rate⟩

/-- The scheme with the XXH3 hash and the standard rate. -/
def Scheme.standard : Scheme := .ofRate standardRate

instance : Inhabited Scheme := ⟨.standard⟩

/-! ## Bits -/

/-- The words of a filter. -/
abbrev Words (shape : Shape) := Vector UInt64 shape.wordCount

/-- The word of a position. -/
def wordIndex {shape : Shape} (p : Fin shape.bits) : Fin shape.wordCount :=
  ⟨p / 64, by unfold Shape.wordCount; omega⟩

/-- The bit of a position in its word. -/
def bitMask {n : Nat} (p : Fin n) : UInt64 := 1 <<< (p.val % 64).toUInt64

/-- Sets the bit of a position. -/
def setBit {shape : Shape} (w : Words shape) (p : Fin shape.bits) : Words shape :=
  w.set (wordIndex p) (w.get (wordIndex p) ||| bitMask p) (wordIndex p).isLt

/-- Whether the bit of a position is set. -/
def hasBit {shape : Shape} (w : Words shape) (p : Fin shape.bits) : Bool :=
  w.get (wordIndex p) &&& bitMask p != 0

/-- The position of the `i`-th probe. -/
def position (shape : Shape) (h : UInt64 × UInt64) (i : Nat) : Fin shape.bits :=
  ⟨(h.1 + i.toUInt64 * h.2).toNat % shape.bits, Nat.mod_lt _ shape.bits_pos⟩

/-- All positions of a key with the given hashes. -/
def positions (shape : Shape) (h : UInt64 × UInt64) : List (Fin shape.bits) :=
  (List.range shape.probes).map (position shape h)

end Filter

/-- A set of keys up to false positive answers. -/
structure Filter where
  /-- The size. -/
  shape : Filter.Shape
  /-- The bits. -/
  words : Filter.Words shape
  /-- The number of insertions. -/
  inserted : Nat
  /-- The number of expected keys. -/
  capacity : Nat
  deriving DecidableEq

namespace Filter

/-- The filter without keys for a number of expected keys, at least one. -/
def empty (scheme : Scheme) (expected : Nat) : Filter :=
  { shape := scheme.shape (max expected 1)
    words := Vector.replicate _ 0
    inserted := 0
    capacity := max expected 1 }

/-- Adds a key. -/
def insert (scheme : Scheme) (f : Filter) (key : Bytes) : Filter :=
  { f with
    words := (positions f.shape (scheme.hashes key)).foldl setBit f.words
    inserted := f.inserted + 1 }

/-- Whether a key may have been added; certain only when the answer is no. -/
def mayContain (scheme : Scheme) (f : Filter) (key : Bytes) : Bool :=
  (positions f.shape (scheme.hashes key)).all (hasBit f.words)

/-- Whether more keys were added than expected. -/
def isSaturated (f : Filter) : Bool := f.inserted > f.capacity

/-- The inspection text of the filter. -/
def inspect (f : Filter) : String :=
  Text.record "BloomFilter" [("num_bits", toString f.shape.bits),
    ("num_hashes", toString f.shape.probes), ("inserted", toString f.inserted),
    ("capacity", toString f.capacity)]

end Filter

end SnapshotStore
