import SnapshotStore.Database
import SnapshotStore.KeyLayout

/-!
# Nested maps

A nested map is the part of a dictionary whose keys start with one stem of fixed width.  Its keys
are the tails after the stem, all of one width.  A child of a nested map fixes one suffix and takes
its own suffix from the extension.

* `SubMap.new`, `SubMap.child` — how nested maps are made.
* `SubMap.fullKey` — the key of a tail.
* `SubMap.entries`, `SubMap.keys`, `SubMap.childKeys` — streams of tails.
* `SubMap.setAll` — replaces the contents.
-/

namespace SnapshotStore

/-- A part of a dictionary under one stem. -/
structure SubMap where
  /-- The dictionary. -/
  dictionary : Dictionary
  /-- The stem of all keys. -/
  stem : Bytes
  /-- The widths of the parts of a key. -/
  layout : KeyLayout
  /-- The range of the keys. -/
  range : KeyRange

namespace SubMap

/-- A layout's refusal is a refused argument. -/
def refuse {α : Type} (r : Except KeyLayout.Mismatch α) : Except StoreError α :=
  r.mapError fun e => .invalidArgument e.message

/-- The nested map under a stem; without a stem it is the whole dictionary. -/
def new (dictionary : Dictionary) (stem : Bytes) (layout : KeyLayout) :
    Except StoreError SubMap := do
  if layout.stemLen = 0 then
    discard <| refuse (layout.firstKey stem)
    return { dictionary, stem, layout, range := .all }
  else
    let range ← refuse (layout.range stem)
    return { dictionary, stem, layout, range }

/-- The nested map that is the whole dictionary. -/
def root (dictionary : Dictionary) (suffixLen extLen : Nat) : Except StoreError SubMap :=
  new dictionary [] ⟨0, suffixLen, extLen⟩

variable (m : SubMap)

/-- The nested map below a suffix. -/
def child (suffix : Bytes) (suffixLen : Nat) : Except StoreError SubMap := do
  let layout ← refuse (m.layout.child suffixLen)
  discard <| refuse (m.layout.firstKeyOfSuffix m.stem suffix)
  new m.dictionary (m.stem ++ suffix) layout

/-- The key of a tail. -/
def fullKey (tail : Bytes) : Except StoreError Bytes := do
  refuse (m.layout.checkTail tail)
  return m.stem ++ tail

/-- The tail of a key. -/
def strip (key : Bytes) : Bytes := key.drop m.layout.stemLen

/-! ## Operations -/

/-- An operation on the key of a tail. -/
def onKey {α : Type} (tail : Bytes) (w : Bytes → Work Empty α) : Store.Op α := do
  let key ← ExceptT.mk (pure (m.fullKey tail))
  Store.submit m.dictionary (w key)

/-- The value of a tail, now or at a snapshot. -/
def get (token : Option Token) (tail : Bytes) : Store.Op (Option Bytes) :=
  m.onKey tail fun key => m.dictionary.get token key false

/-- Whether a tail has a value, now or at a snapshot. -/
def contains (token : Option Token) (tail : Bytes) : Store.Op Bool :=
  m.onKey tail fun key => m.dictionary.containsKey token key

/-- Gives a tail a value. -/
def put (tail value : Bytes) (result : ResultType) : Store.Op (Option Bytes) :=
  m.onKey tail fun key => m.dictionary.put key value result

/-- Removes a tail. -/
def remove (tail : Bytes) (result : ResultType) : Store.Op (Option Bytes) :=
  m.onKey tail fun key => m.dictionary.remove key result

/-- Replaces the value of a tail by what an updater makes of it. -/
def update (tail : Bytes) (f : Updater) : Store.Op (Delta Bytes) := do
  let key ← ExceptT.mk (pure (m.fullKey tail))
  Store.submitStep m.dictionary (m.dictionary.update key f false)

/-- The number of tails, now or at a snapshot. -/
def size (token : Option Token) (fast : Bool) : Store.Op Nat :=
  Store.size m.dictionary token m.range fast

/-- Whether there is no tail, now or at a snapshot. -/
def isEmpty (token : Option Token) : Store.Op Bool :=
  Store.isEmpty m.dictionary token m.range

/-- Removes every tail. -/
def clear : Store.Op Unit :=
  if m.range.isAll then Store.submit m.dictionary m.dictionary.clear
  else Store.setRange m.dictionary m.range []

/-- The keys of the entries up to the first malformed tail, and why that one is refused. -/
def fullEntries : List Entry → List Entry × Option StoreError
  | [] => ([], none)
  | (tail, value) :: rest =>
    match m.fullKey tail with
    | .ok key =>
      let (entries, refused) := fullEntries rest
      ((key, value) :: entries, refused)
    | .error e => ([], some e)

/-- Replaces the contents by the entries up to the first malformed tail, which then fails the
operation. -/
def setAll (entries : List Entry) : Store.Op Unit := do
  let (entries, refused) := m.fullEntries entries
  Store.setRange m.dictionary m.range entries
  if let some e := refused then throw e

/-! ## Streams -/

/-- The tails with their values, now or at a snapshot. -/
def entries (token : Option Token) : Stream Entry :=
  (m.dictionary.entries token m.range).map fun e => (m.strip e.1, e.2)

/-- The tails, now or at a snapshot. -/
def keys (token : Option Token) : Stream Bytes :=
  (m.dictionary.keys token m.range).map m.strip

/-- The suffixes that some tail starts with, each once. -/
def childKeys (token : Option Token) : Stream Bytes :=
  (m.dictionary.stems (m.layout.stemLen + m.layout.suffixLen) token m.range).map m.strip

/-- The inspection text of the nested map. -/
def inspect : String :=
  Text.record "SubMap" [("dictionary", Text.quote m.dictionary.name), ("prefix", m.stem.label),
    ("layout", m.layout.inspect)]

end SubMap

end SnapshotStore
