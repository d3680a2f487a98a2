import SnapshotStore.Text.Hidden

/-!
# Quoted text

The inspection form of a string: between double quotes, with a backslash before a double quote and
before a backslash, short escapes for NUL, tab, line feed and carriage return, and the code point in
hexadecimal for every other character without a shape of its own.
-/

namespace SnapshotStore.Text

/-- Lower-case hexadecimal digits of a number, without leading zeros. -/
def hexNumber (n : Nat) : String := String.ofList (Nat.toDigits 16 n)

/-- The characters that stand for `c` between double quotes. -/
def escape (c : Char) : String :=
  if c = '"' then "\\\""
  else if c = '\\' then "\\\\"
  else if c.toNat = 0 then "\\0"
  else if c = '\t' then "\\t"
  else if c = '\n' then "\\n"
  else if c = '\r' then "\\r"
  else if isHidden c then "\\u\x7b" ++ hexNumber c.toNat ++ "\x7d"
  else c.toString

/-- The inspection form of a string. -/
def quote (s : String) : String :=
  "\"" ++ String.join (s.toList.map escape) ++ "\""

end SnapshotStore.Text
