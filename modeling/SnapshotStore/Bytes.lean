/-!
# Byte strings

Keys and values are finite sequences of bytes.  Their order is the lexicographic order of `List`
over unsigned bytes: the first differing byte decides, and a proper initial segment comes first.
`Bytes.label` is the short printed form used in messages.
-/

namespace SnapshotStore

/-- A key or a value. -/
abbrev Bytes := List UInt8

/-- An entry of a dictionary: a key with its value. -/
abbrev Entry := Bytes × Bytes

namespace Bytes

/-- The two lower-case hexadecimal digits of a byte. -/
def hexPair (b : UInt8) : List Char :=
  [Nat.digitChar (b.toNat / 16), Nat.digitChar (b.toNat % 16)]

/-- Lower-case hexadecimal text of a byte string, two digits a byte. -/
def hex (b : Bytes) : String :=
  String.ofList (b.flatMap hexPair)

/-- The value of a hexadecimal digit. -/
def hexDigit (c : Char) : Nat :=
  if c.isDigit then c.toNat - '0'.toNat
  else if 'a' ≤ c then c.toNat - 'a'.toNat + 10
  else c.toNat - 'A'.toNat + 10

/-- The bytes that pairs of hexadecimal digits spell; a last single digit is left out. -/
def ofHexPairs : List Char → Bytes
  | a :: b :: rest => (hexDigit a * 16 + hexDigit b).toUInt8 :: ofHexPairs rest
  | _ => []

/-- The bytes that a hexadecimal text spells. -/
def ofHex (s : String) : Bytes := ofHexPairs s.toList

/-- The number of bytes that a label spells out. -/
def labelLimit : Nat := 64

/-- The text of a key in messages: all of it in hexadecimal, or its first `labelLimit` bytes
followed by its length. -/
def label (b : Bytes) : String :=
  if b.length ≤ labelLimit then hex b
  else hex (b.take labelLimit) ++ s!"...({b.length} bytes)"

/-- Three-way comparison in the order of keys. -/
def order (a b : Bytes) : Ordering :=
  if a < b then .lt else if a = b then .eq else .gt

/-- The first `n` bytes, or all of them if there are fewer. -/
def stem (n : Nat) (b : Bytes) : Bytes := b.take n

end Bytes

end SnapshotStore
