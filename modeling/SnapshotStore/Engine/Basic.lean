import SnapshotStore.Engine.Column
import SnapshotStore.Error
import SnapshotStore.WriteBatch

/-!
# The storage engine

The engine holds columns of versioned values under one sequence counter.  Every write batch is one
step that takes the next sequence.  A pinned sequence stays readable until its last pin is gone; the
pins bound what writes and compaction may prune.

* `Engine.write` — applies a batch as one step; `Engine.put` and `Engine.delete` are batches of one.
* `Engine.get`, `Engine.mayContain`, `Engine.estimate` — reads.
* `Engine.snapshot`, `Engine.unpin` — pins.
* `Engine.compact` — drops what no reader can see.

A call either fails and leaves the engine as it was, or answers the engine after it.
-/

namespace SnapshotStore

/-- Choices that are fixed when an engine is made. -/
structure Engine.Options where
  /-- The number of keys that a column's filter expects at least. -/
  filterCapacity : Nat := 4096
  /-- The number of chains that a cursor visits at a time. -/
  cursorChunk : Nat := 128
  /-- Whether range deletions are taken as one operation. -/
  nativeDeleteRange : Bool := true
  /-- How the filters are made. -/
  scheme : Filter.Scheme := .standard

/-- An engine. -/
structure Engine where
  /-- The choices it was made with. -/
  options : Engine.Options
  /-- The columns, by number. -/
  columns : List Column
  /-- The sequence of the last write. -/
  sequence : Nat
  /-- The pinned sequences, one element a pin. -/
  pins : List Nat
  /-- Whether the engine no longer accepts calls. -/
  isClosed : Bool

namespace Engine

/-- The engine without columns. -/
def new (options : Options) : Engine :=
  { options, columns := [], sequence := 0, pins := [], isClosed := false }

/-- The name of this kind of engine. -/
def name : String := "memory"

/-! ## Columns -/

/-- Refuses every call after `close`. -/
def checkOpen (e : Engine) : Except EngineError Unit :=
  if e.isClosed then .error .closed else .ok ()

/-- The column with a number. -/
def column (e : Engine) (n : Nat) : Except EngineError Column := do
  e.checkOpen
  match e.columns[n]? with
  | some c => return c
  | none => throw (.unknownColumn n)

/-- The number of the column with a name, which is created if it is missing. -/
def createColumn (e : Engine) (name : String) : Except EngineError (Nat × Engine) := do
  e.checkOpen
  match e.columns.findIdx? (·.name == name) with
  | some n => return (n, e)
  | none =>
    let c := Column.empty e.options.scheme name e.options.filterCapacity
    return (e.columns.length, { e with columns := e.columns ++ [c] })

/-! ## Pins -/

/-- The number of pins of a sequence. -/
def pinCount (e : Engine) (s : Nat) : Nat := e.pins.count s

/-- The number of pinned sequences. -/
def pinnedCount (e : Engine) : Nat := e.pins.eraseDups.length

/-- Refuses a sequence that is not pinned. -/
def checkPinned (e : Engine) (s : Nat) : Except EngineError Unit :=
  if s ∈ e.pins then .ok () else .error (.snapshotReleased s)

/-- Adds a pin. -/
def pin (e : Engine) (s : Nat) : Engine := { e with pins := s :: e.pins }

/-- Takes one pin of a sequence away; nothing happens if it has none. -/
def unpin (e : Engine) (s : Nat) : Engine := { e with pins := e.pins.erase s }

/-- Pins the newest state and answers its sequence. -/
def snapshot (e : Engine) : Except EngineError (Nat × Engine) := do
  e.checkOpen
  return (e.sequence, e.pin e.sequence)

/-- The oldest sequence that a reader may still see: the oldest pinned one, or the newest. -/
def pruneThreshold (e : Engine) : Nat := e.pins.foldl min e.sequence

/-! ## Reads -/

/-- The value of a key in a view. -/
def get (e : Engine) (n : Nat) (view : ReadView) (key : Bytes) :
    Except EngineError (Option Bytes) := do
  let c ← e.column n
  if let .at s := view then e.checkPinned s
  return c.valueAt view key

/-- Whether a key may hold a value in some version; certain only when the answer is no. -/
def mayContain (e : Engine) (n : Nat) (key : Bytes) : Except EngineError Bool := do
  let c ← e.column n
  return c.filter.mayContain e.options.scheme key

/-- The number of live keys of a column. -/
def estimate (e : Engine) (n : Nat) : Except EngineError Nat := do
  let c ← e.column n
  return c.liveKeys

/-- The number of stored versions of a column. -/
def versionCount (e : Engine) (n : Nat) : Except EngineError Nat := do
  let c ← e.column n
  return c.versionCount

/-! ## Writes -/

/-- Applies one write operation to a column under a sequence. -/
def applyOp (scheme : Filter.Scheme) (threshold sequence : Nat) (c : Column) : WriteOp → Column
  | .put key value => c.push scheme threshold key ⟨sequence, some value⟩
  | .delete key => c.push scheme threshold key ⟨sequence, none⟩
  | .deleteRange range =>
    (c.liveKeysIn range).foldl (fun c key => c.push scheme threshold key ⟨sequence, none⟩) c

/-- Applies a batch to a column; a filter with more keys than it expects is made anew. -/
def applyBatch (options : Options) (threshold sequence : Nat) (c : Column) (batch : WriteBatch) :
    Column :=
  let c := batch.foldl (applyOp options.scheme threshold sequence) c
  if c.filter.isSaturated then c.rebuildFilter options.scheme options.filterCapacity else c

/-- Applies a batch as one step; an empty batch takes no sequence. -/
def write (e : Engine) (n : Nat) (batch : WriteBatch) : Except EngineError Engine := do
  if batch.isEmpty then
    e.checkOpen
    return e
  let c ← e.column n
  let c := applyBatch e.options e.pruneThreshold (e.sequence + 1) c batch
  return { e with columns := e.columns.set n c, sequence := e.sequence + 1 }

/-- Writes one value. -/
def put (e : Engine) (n : Nat) (key value : Bytes) : Except EngineError Engine :=
  e.write n [.put key value]

/-- Deletes one key. -/
def delete (e : Engine) (n : Nat) (key : Bytes) : Except EngineError Engine :=
  e.write n [.delete key]

/-- Drops what no reader of a column can see. -/
def compact (e : Engine) (n : Nat) : Except EngineError Engine := do
  let c ← e.column n
  let c := c.compact e.options.scheme e.pruneThreshold e.options.filterCapacity
  return { e with columns := e.columns.set n c }

/-- Makes earlier writes durable, which needs no work in memory. -/
def flush (e : Engine) : Except EngineError Unit := e.checkOpen

/-- Stops accepting calls. -/
def close (e : Engine) : Engine := { e with isClosed := true }

/-- The inspection text of the engine. -/
def inspect (e : Engine) : String :=
  Text.record "MemoryEngine" [("columns", toString e.columns.length),
    ("sequence", toString e.sequence), ("pinned", toString e.pinnedCount)]

end Engine

end SnapshotStore
