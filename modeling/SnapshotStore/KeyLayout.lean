import SnapshotStore.KeyRange
import SnapshotStore.Text.Record

/-!
# Layouts of fixed-width keys

A layout cuts a key into a stem, a suffix and an extension of fixed widths.  The keys that share a
stem form one range: from the stem followed by zeros up to the successor of the stem followed by
zeros.  A stem of all `0xff` bytes (or an empty one) has no successor; its range ends at a key that
is longer than every key of the layout, all `0xff` and then one zero.
-/

namespace SnapshotStore

/-- The widths of the three parts of a key. -/
structure KeyLayout where
  /-- Bytes of the stem. -/
  stemLen : Nat
  /-- Bytes of the suffix. -/
  suffixLen : Nat
  /-- Bytes of the extension. -/
  extLen : Nat
  deriving DecidableEq, Repr

namespace KeyLayout

/-- A part of a key that is checked against its width. -/
inductive Part where
  | stem
  | suffix
  | key
  | tail
  deriving DecidableEq, Repr

/-- The name of a part in messages. -/
def Part.name : Part → String
  | .stem => "prefix"
  | .suffix => "suffix"
  | .key => "key"
  | .tail => "key tail"

/-- Why a layout refuses its arguments. -/
inductive Mismatch where
  /-- A part has another width than the layout gives it. -/
  | width (part : Part) (found expected : Nat)
  /-- A child asks for a longer suffix than the extension can give. -/
  | child (wanted available : Nat)
  /-- The two ends of a range came out reversed. -/
  | range (e : KeyRange.Reversed)
  deriving DecidableEq

/-- The text of a refusal. -/
def Mismatch.message : Mismatch → String
  | .width part found expected =>
    s!"{part.name} length {found} does not match layout width {expected}"
  | .child wanted available =>
    s!"child suffix length {wanted} exceeds extension length {available}"
  | .range e => e.message

/-! ## Widths -/

/-- The width of a whole key. -/
def keyLen (l : KeyLayout) : Nat := l.stemLen + l.suffixLen + l.extLen

/-- The width of a key without its stem. -/
def tailLen (l : KeyLayout) : Nat := l.suffixLen + l.extLen

/-- The layout below a suffix: stem and suffix become the stem, and `n` bytes of the extension
become the suffix. -/
def child (l : KeyLayout) (n : Nat) : Except Mismatch KeyLayout :=
  if n ≤ l.extLen then .ok ⟨l.stemLen + l.suffixLen, n, l.extLen - n⟩
  else .error (.child n l.extLen)

/-- Refuses a part of the wrong width. -/
def checkWidth (part : Part) (b : Bytes) (expected : Nat) : Except Mismatch Unit :=
  if b.length = expected then .ok () else .error (.width part b.length expected)

/-- Refuses a key of the wrong width. -/
def checkKey (l : KeyLayout) (key : Bytes) : Except Mismatch Unit :=
  checkWidth .key key l.keyLen

/-- Refuses a key tail of the wrong width. -/
def checkTail (l : KeyLayout) (tail : Bytes) : Except Mismatch Unit :=
  checkWidth .tail tail l.tailLen

/-! ## Bounds -/

/-- A byte string followed by `n` zeros. -/
def zeroExtend (b : Bytes) (n : Nat) : Bytes := b ++ List.replicate n 0

/-- The next byte string of the same length, read as a big-endian number; `none` after the last. -/
def successor? : Bytes → Option Bytes
  | [] => none
  | b :: rest =>
    match successor? rest with
    | some rest' => some (b :: rest')
    | none => if b = 0xff then none else some ((b + 1) :: List.replicate rest.length 0)

/-- A key above every key of width `n`: `n` bytes `0xff` and a zero. -/
def overflowKey (n : Nat) : Bytes := List.replicate n 0xff ++ [0]

/-- The least key of width `stem.length + zeros` above all keys that start with `stem`. -/
def boundAfter (stem : Bytes) (zeros : Nat) : Bytes :=
  match successor? stem with
  | some next => zeroExtend next zeros
  | none => overflowKey (stem.length + zeros)

/-- The first key with the given stem. -/
def firstKey (l : KeyLayout) (stem : Bytes) : Except Mismatch Bytes := do
  checkWidth .stem stem l.stemLen
  return zeroExtend stem l.tailLen

/-- The first key after those with the given stem. -/
def nextKey (l : KeyLayout) (stem : Bytes) : Except Mismatch Bytes := do
  checkWidth .stem stem l.stemLen
  return boundAfter stem l.tailLen

/-- The first key with the given stem and suffix. -/
def firstKeyOfSuffix (l : KeyLayout) (stem suffix : Bytes) : Except Mismatch Bytes := do
  checkWidth .stem stem l.stemLen
  checkWidth .suffix suffix l.suffixLen
  return zeroExtend (stem ++ suffix) l.extLen

/-- The first key after those with the given stem and suffix. -/
def nextKeyOfSuffix (l : KeyLayout) (stem suffix : Bytes) : Except Mismatch Bytes := do
  checkWidth .stem stem l.stemLen
  checkWidth .suffix suffix l.suffixLen
  return boundAfter (stem ++ suffix) l.extLen

/-- The range between two keys of a layout. -/
def spanning (lo hi : Bytes) : Except Mismatch KeyRange :=
  (KeyRange.between lo hi).mapError .range

/-- The range of the keys with the given stem. -/
def range (l : KeyLayout) (stem : Bytes) : Except Mismatch KeyRange := do
  spanning (← l.firstKey stem) (← l.nextKey stem)

/-- The range of the keys with the given stem and suffix. -/
def rangeOfSuffix (l : KeyLayout) (stem suffix : Bytes) : Except Mismatch KeyRange := do
  spanning (← l.firstKeyOfSuffix stem suffix) (← l.nextKeyOfSuffix stem suffix)

/-- The first key with a stem of any width, followed by a tail of the given widths. -/
def firstKeyFrom (stem : Bytes) (suffixLen extLen : Nat) : Bytes :=
  zeroExtend stem (suffixLen + extLen)

/-- The first key after those with a stem of any width, under a tail of the given widths. -/
def nextKeyFrom (stem : Bytes) (suffixLen extLen : Nat) : Bytes :=
  boundAfter stem (suffixLen + extLen)

/-- The inspection text of the layout. -/
def inspect (l : KeyLayout) : String :=
  Text.record "KeyLayout" [("prefix_len", toString l.stemLen),
    ("suffix_len", toString l.suffixLen), ("ext_len", toString l.extLen)]

end KeyLayout

end SnapshotStore
