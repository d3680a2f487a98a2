import SnapshotStore.Bytes
import SnapshotStore.Toml.Value

/-!
# Reading TOML

`Toml.read?` reads a document of TOML 1.0 and answers its table, or nothing if the text is not well
formed.  Readers consume characters from the front of a list; nested values are read with a fuel
that starts at the length of the text, and every nesting takes a character.
-/

namespace SnapshotStore.Toml

/-- Reads a value off the front of a text. -/
abbrev Reader (α : Type) := StateT (List Char) Option α

namespace Reader

/-! ## Characters -/

/-- Refuses the text. -/
def fail {α : Type} : Reader α := fun _ => none

/-- The next character, which stays. -/
def peek : Reader (Option Char) := fun cs => some (cs.head?, cs)

/-- Drops a character. -/
def skip : Reader Unit := fun cs => some ((), cs.tail)

/-- Takes the given text, if it is next. -/
def takeText (s : String) : Reader Bool := fun cs =>
  if s.toList.isPrefixOf cs then some (true, cs.drop s.length) else some (false, cs)

/-- Insists on the given text. -/
def expect (s : String) : Reader Unit := do
  unless ← takeText s do fail

/-- Takes one of the given characters, if one is next. -/
def takeOne (choices : List Char) : Reader Bool := fun cs =>
  match cs with
  | c :: rest => if c ∈ choices then some (true, rest) else some (false, cs)
  | [] => some (false, cs)

/-- Takes characters while they satisfy a condition. -/
def takeWhile (p : Char → Bool) : Reader (List Char) := fun cs =>
  some (cs.takeWhile p, cs.dropWhile p)

/-- Takes the second reading if the first one refuses the text. -/
def orElse {α : Type} (a b : Reader α) : Reader α := fun cs =>
  match a cs with
  | some r => some r
  | none => b cs

/-- Takes a reading, or nothing if it refuses the text. -/
def optional {α : Type} (a : Reader α) : Reader (Option α) := orElse (some <$> a) (pure none)

/-- A space or a tab. -/
def isBlank (c : Char) : Bool := c = ' ' || c = '\t'

/-- A character that may stand in a comment or a literal string. -/
def isPlain (c : Char) : Bool := c = '\t' || (0x20 ≤ c.toNat && c.toNat ≠ 0x7f)

/-- Skips spaces and tabs. -/
def blanks : Reader Unit := discard <| takeWhile isBlank

/-- Takes a line end, if it is next. -/
def lineEnd : Reader Bool := do
  if ← takeText "\n" then return true
  takeText "\r\n"

/-- Skips a comment, if it is next. -/
def comment : Reader Unit := do
  if ← takeText "#" then discard <| takeWhile isPlain

/-- Skips blanks and a comment and insists on the end of the line or of the text. -/
def restOfLine : Reader Unit := do
  blanks
  comment
  if (← peek).isSome then
    unless ← lineEnd do fail

/-- Skips blanks and line ends. -/
def blankLines : Nat → Reader Unit
  | 0 => pure ()
  | fuel + 1 => do
    blanks
    if ← lineEnd then blankLines fuel

/-- Skips blanks, comments and line ends. -/
def gaps : Nat → Reader Unit
  | 0 => pure ()
  | fuel + 1 => do
    blanks
    comment
    if ← lineEnd then gaps fuel

/-! ## Strings -/

/-- The character with a code point, if there is one. -/
def scalar? (n : Nat) : Option Char :=
  if h : n.isValidChar then some (Char.ofNatAux n h) else none

/-- A hexadecimal digit. -/
def isHexDigit (c : Char) : Bool := c.isDigit || ('a' ≤ c && c ≤ 'f') || ('A' ≤ c && c ≤ 'F')

/-- The value of digits in a base. -/
def number (base : Nat) (ds : List Char) : Nat :=
  ds.foldl (fun n d => n * base + Bytes.hexDigit d) 0

/-- The character of `n` hexadecimal digits. -/
def codePoint (n : Nat) : Reader Char := fun cs =>
  let ds := cs.take n
  if ds.length = n && ds.all isHexDigit then (scalar? (number 16 ds)).map (·, cs.drop n) else none

/-- The character after a backslash. -/
def escaped : Reader Char := do
  match ← peek with
  | some 'b' => skip; return '\x08'
  | some 't' => skip; return '\t'
  | some 'n' => skip; return '\n'
  | some 'f' => skip; return '\x0c'
  | some 'r' => skip; return '\r'
  | some '"' => skip; return '"'
  | some '\\' => skip; return '\\'
  | some 'u' => skip; codePoint 4
  | some 'U' => skip; codePoint 8
  | _ => fail

/-- The rest of a basic string in double quotes. -/
def basicRest : Nat → Reader (List Char)
  | 0 => fail
  | fuel + 1 => do
    match ← peek with
    | some '"' => skip; return []
    | some '\\' => skip; return (← escaped) :: (← basicRest fuel)
    | some c => if isPlain c then skip; return c :: (← basicRest fuel) else fail
    | none => fail

/-- The rest of a literal string, up to the given quote. -/
def literalRest (quote : Char) : Reader (List Char) := do
  let s ← takeWhile fun c => isPlain c && c ≠ quote
  expect quote.toString
  return s

/-- The closing quotes of a string of several lines, with at most two quotes that belong to it. -/
def closing (quote : Char) : Reader (Option (List Char)) := fun cs =>
  let n := (cs.takeWhile (· = quote)).length
  if n < 3 then some (none, cs)
  else some (some (List.replicate (min (n - 3) 2) quote), cs.drop (min n 5))

/-- The rest of a string of several lines; only a basic one has escapes. -/
def linesRest (quote : Char) (basic : Bool) : Nat → Reader (List Char)
  | 0 => fail
  | fuel + 1 => do
    if let some tail ← closing quote then return tail
    if ← lineEnd then return '\n' :: (← linesRest quote basic fuel)
    match ← peek with
    | some '\\' =>
      skip
      if basic then
        match ← optional (do blanks; unless ← lineEnd do fail) with
        | some _ =>
          blankLines (fuel + 1)
          linesRest quote basic fuel
        | none => return (← escaped) :: (← linesRest quote basic fuel)
      else return '\\' :: (← linesRest quote basic fuel)
    | some c => if isPlain c then skip; return c :: (← linesRest quote basic fuel) else fail
    | none => fail

/-- A string in any of its four forms. -/
def text (fuel : Nat) : Reader String := do
  let lines (quote : Char) (basic : Bool) : Reader (List Char) := do
    discard lineEnd
    linesRest quote basic fuel
  if ← takeText "\"\"\"" then return String.ofList (← lines '"' true)
  if ← takeText "\"" then return String.ofList (← basicRest fuel)
  if ← takeText "\x27\x27\x27" then return String.ofList (← lines '\x27' false)
  expect "\x27"
  return String.ofList (← literalRest '\x27')

/-! ## Keys -/

/-- A character of a bare key. -/
def isBare (c : Char) : Bool :=
  c.isAlphanum || c = '_' || c = '-'

/-- One part of a key. -/
def simpleKey (fuel : Nat) : Reader String := do
  match ← peek with
  | some '"' => skip; return String.ofList (← basicRest fuel)
  | some '\x27' => skip; return String.ofList (← literalRest '\x27')
  | _ =>
    let s ← takeWhile isBare
    if s.isEmpty then fail else return String.ofList s

/-- The parts of a key, separated by dots. -/
def keyParts : Nat → Reader (List String)
  | 0 => fail
  | fuel + 1 => do
    blanks
    let s ← simpleKey (fuel + 1)
    blanks
    if ← takeText "." then return s :: (← keyParts fuel) else return [s]

/-- The depth from which on brackets and dotted keys are refused. -/
def depthLimit : Nat := 80

/-- A key. -/
def key (fuel : Nat) : Reader (List String) := do
  let path ← keyParts fuel
  if path.length < depthLimit then return path else fail

/-! ## Numbers and times -/

/-- Digits of a base, where single underscores may stand between them. -/
def digits (isDigit : Char → Bool) : Reader (List Char) := do
  let s ← takeWhile fun c => isDigit c || c = '_'
  let wellPlaced := s.head?.all isDigit && s.getLast?.all isDigit &&
    (s.zip s.tail).all fun p => isDigit p.1 || isDigit p.2
  if s.isEmpty || !wellPlaced then fail else return s.filter (· ≠ '_')

/-- A sign, if one is next, and whether it is negative. -/
def sign : Reader Bool := do
  if ← takeText "-" then return true
  discard <| takeText "+"
  return false

/-- The decimal digits of an integer, without a leading zero. -/
def decimal : Reader Nat := do
  if ← takeText "0" then return 0
  return number 10 (← digits Char.isDigit)

/-- One more than the greatest integer of 64 bits with a sign. -/
def signLimit : Int := 0x8000000000000000

/-- An integer of the range of 64 bits with a sign. -/
def bounded (n : Int) : Reader Int :=
  if -signLimit ≤ n && n < signLimit then pure n else fail

/-- An integer in one of its four bases. -/
def integer : Reader Int := do
  if ← takeText "0x" then return ← bounded (number 16 (← digits isHexDigit))
  if ← takeText "0o" then return ← bounded (number 8 (← digits fun c => '0' ≤ c && c ≤ '7'))
  if ← takeText "0b" then return ← bounded (number 2 (← digits fun c => c = '0' || c = '1'))
  let negative ← sign
  let n ← decimal
  bounded (if negative then -n else n)

/-- The least number that rounds to infinity as a double-precision number: half a unit in the last
place above the greatest finite one. -/
def roundsToInfinity : Nat := Nat.pow 2 1024 - Nat.pow 2 970

/-- Whether `m * 10 ^ e` rounds to infinity.  The number of digits of `m` decides that, except where
the decimal point comes after the 309th digit. -/
def overflows (m : Nat) (e : Int) : Bool :=
  let point := (Nat.toDigits 10 m).length + e
  if m = 0 || point < 309 then false
  else if 309 < point then true
  else roundsToInfinity * Nat.pow 10 (-e).toNat ≤ m * Nat.pow 10 e.toNat

/-- The exponent of a floating-point number. -/
def exponent : Reader Int := do
  unless ← takeOne ['e', 'E'] do fail
  let negative ← sign
  let n := number 10 (← digits Char.isDigit)
  return if negative then -n else n

/-- A floating-point number; one that rounds to positive infinity is refused. -/
def float : Reader Unit := do
  let negative ← sign
  if ← takeText "inf" then return
  if ← takeText "nan" then return
  let whole ← decimal
  let (fraction, e) ← if ← takeText "." then do
      let ds ← digits Char.isDigit
      pure (ds, (← optional exponent).getD 0)
    else do
      pure ([], ← exponent)
  let m := whole * Nat.pow 10 fraction.length + number 10 fraction
  if !negative && overflows m (e - fraction.length) then fail

/-- A number of `n` decimal digits between two bounds. -/
def field (n lo hi : Nat) : Reader Nat := fun cs =>
  let ds := cs.take n
  let v := number 10 ds
  if ds.length = n && ds.all Char.isDigit && lo ≤ v && v ≤ hi then some (v, cs.drop n) else none

/-- The number of days of a month. -/
def daysOf (year month : Nat) : Nat :=
  let leap := year % 4 = 0 && (year % 100 ≠ 0 || year % 400 = 0)
  if month = 2 then (if leap then 29 else 28)
  else if month ∈ [4, 6, 9, 11] then 30
  else 31

/-- A day. -/
def date : Reader Unit := do
  let year ← field 4 0 9999
  expect "-"
  let month ← field 2 1 12
  expect "-"
  discard <| field 2 1 (daysOf year month)

/-- A time of day. -/
def time : Reader Unit := do
  discard <| field 2 0 23
  expect ":"
  discard <| field 2 0 59
  expect ":"
  discard <| field 2 0 60
  if ← takeText "." then
    if (← takeWhile Char.isDigit).isEmpty then fail

/-- The distance of a time from universal time. -/
def offset : Reader Unit := do
  if ← takeOne ['Z', 'z'] then return
  unless ← takeOne ['+', '-'] do fail
  discard <| field 2 0 23
  expect ":"
  discard <| field 2 0 59

/-- A day, a time of day, or both. -/
def moment : Reader Unit :=
  orElse (do
    date
    discard <| optional do
      unless ← takeOne ['T', 't', ' '] do fail
      time
      discard <| optional offset) time

/-! ## Values -/

mutual

/-- A value below some enclosing brackets. -/
def value : Nat → Nat → Reader Value
  | 0, _ => fail
  | fuel + 1, depth => do
    match ← peek with
    | some '"' | some '\x27' => return .text (← text (fuel + 1))
    | some '[' =>
      skip
      if depthLimit ≤ depth + 1 then fail
      return .list (← items fuel (depth + 1))
    | some '{' =>
      skip
      if depthLimit ≤ depth + 1 then fail
      blanks
      if ← takeText "\x7d" then return .table .inline []
      return .table .inline (← pairs fuel (depth + 1) [])
    | some 't' => expect "true"; return .boolean true
    | some 'f' => expect "false"; return .boolean false
    | _ =>
      orElse ((fun _ => .moment) <$> moment)
        (orElse ((fun _ => .float) <$> float) (.integer <$> integer))

/-- The rest of an array. -/
def items : Nat → Nat → Reader (List Value)
  | 0, _ => fail
  | fuel + 1, depth => do
    gaps (fuel + 1)
    if ← takeText "]" then return []
    let v ← value fuel depth
    gaps (fuel + 1)
    if ← takeText "," then return v :: (← items fuel depth)
    expect "]"
    return [v]

/-- The rest of an inline table that is not empty. -/
def pairs : Nat → Nat → Table → Reader Table
  | 0, _, _ => fail
  | fuel + 1, depth, t => do
    let path ← key (fuel + 1)
    expect "="
    blanks
    let v ← value fuel depth
    blanks
    let some last := path.getLast? | fail
    let some t := t.define .inline path.dropLast last v | fail
    if ← takeText "," then pairs fuel depth t
    else
      expect "\x7d"
      return t

end

/-! ## Documents -/

/-- A line of a document. -/
def line (fuel : Nat) (d : Document) : Reader Document := do
  blanks
  match ← peek with
  | none => return d
  | some '#' | some '\n' | some '\r' =>
    restOfLine
    return d
  | some '[' =>
    skip
    let isRow ← takeText "["
    let path ← key fuel
    expect (if isRow then "]]" else "]")
    let some d := if isRow then d.startRow path else d.startTable path | fail
    restOfLine
    return d
  | _ =>
    let path ← key fuel
    expect "="
    blanks
    let v ← value fuel 0
    restOfLine
    let some last := path.getLast? | fail
    let some d := d.define path.dropLast last v | fail
    return d

/-- The lines of a document. -/
def lines : Nat → Document → Reader Document
  | 0, d => pure d
  | fuel + 1, d => do
    if (← peek).isNone then return d
    lines fuel (← line (fuel + 1) d)

end Reader

/-- The table of a document, or nothing if it is not well formed. -/
def read? (s : String) : Option Table :=
  let cs := match s.toList with
    | '\ufeff' :: rest => rest
    | cs => cs
  match Reader.lines (cs.length + 1) .empty cs with
  | some (d, []) => d.close
  | _ => none

end SnapshotStore.Toml
