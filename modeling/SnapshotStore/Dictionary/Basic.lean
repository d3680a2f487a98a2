import SnapshotStore.Config
import SnapshotStore.Lock.Striped
import SnapshotStore.Modes
import SnapshotStore.Work.Basic

/-!
# Dictionaries: one key at a time

A dictionary is one column of the engine.  If it admits updates, every key belongs to a lock stripe:
reads of the newest state share it, writes have it alone.  Reads at a snapshot need no lock, since
what they see does not change.

* `Dictionary.read` — a point read without locks, which asks the filter first unless the key is
  almost certainly there.
* `Dictionary.get`, `Dictionary.containsKey`, `Dictionary.put`, `Dictionary.remove` — the
  operations, as work.
-/

namespace SnapshotStore

/-- A dictionary of a database. -/
structure Dictionary where
  /-- The name of the dictionary, which is also the name of its column. -/
  name : String
  /-- The name of the database. -/
  databaseName : String
  /-- The name of the engine. -/
  engineName : String
  /-- The column. -/
  column : Nat
  /-- Whether the dictionary admits updates. -/
  mode : UpdateMode
  /-- The stripes of the keys, if there are locks at all. -/
  striping : Option Striping
  /-- Whether ranges are deleted as one operation. -/
  deletesRanges : Bool
  /-- The choices of the database. -/
  config : Config

/-- The view of an optional snapshot. -/
def Work.view {ε : Type} (token : Option Token) : Work ε ReadView := do
  Work.ofExcept (← Work.effect (.resolve token))

namespace Dictionary

variable {ε : Type} (d : Dictionary)

/-- The stripes that a read of some keys shares. -/
def readStripes (view : ReadView) (keys : List Bytes) : List Nat :=
  match view, d.striping with
  | .latest, some s => s.indices keys
  | _, _ => []

/-- The stripes that a write of some keys needs alone. -/
def writeStripes (keys : List Bytes) : List Nat :=
  match d.striping with
  | some s => s.indices keys
  | none => []

/-- The value of a key in a view.  Unless the key is almost certainly there, the filter is asked
first, and its no is the answer. -/
def read (view : ReadView) (key : Bytes) (sure : Bool) : Work ε (Option Bytes) := do
  let possible ← if sure then pure true
    else Work.call "read" key.label (.mayContain d.column key)
  if possible then Work.call "read" key.label (.get d.column view key) else return none

/-- Writes a value. -/
def store (key value : Bytes) : Work ε Unit :=
  Work.call "write" key.label (.put d.column key value)

/-- Deletes a key. -/
def drop (key : Bytes) : Work ε Unit :=
  Work.call "delete" key.label (.delete d.column key)

/-- The value that a key held before a write, if the result needs it. -/
def previousFor (result : ResultType) (key : Bytes) : Work ε (Option Bytes) :=
  if result.needsPrevious then d.read .latest key false else pure none

/-- The value of a key, now or at a snapshot. -/
def get (token : Option Token) (key : Bytes) (sure : Bool) : Work ε (Option Bytes) := do
  let view ← Work.view token
  Work.holding .shared (d.readStripes view [key]) (d.read view key sure)

/-- Whether a key has a value, now or at a snapshot. -/
def containsKey (token : Option Token) (key : Bytes) : Work ε Bool := do
  return (← d.get token key false).isSome

/-- Gives a key a value. -/
def put (key value : Bytes) (result : ResultType) : Work ε (Option Bytes) :=
  Work.holding .exclusive (d.writeStripes [key]) do
    let previous ← d.previousFor result key
    d.store key value
    return result.project previous

/-- Removes a key. -/
def remove (key : Bytes) (result : ResultType) : Work ε (Option Bytes) :=
  Work.holding .exclusive (d.writeStripes [key]) do
    let previous ← d.previousFor result key
    d.drop key
    return result.project previous

/-- The inspection text of the dictionary. -/
def inspect : String :=
  Text.record "Dictionary" [("name", Text.quote d.name), ("database", Text.quote d.databaseName),
    ("column", s!"ColumnId({d.column})"), ("update_mode", d.mode.name)]

end Dictionary

end SnapshotStore
