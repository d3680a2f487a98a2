import SnapshotStore.Work.Basic

/-!
# Capped write batches

A capped batch collects write operations and writes them as soon as they reach a number of
operations or a number of bytes.  Operations count as written when they are handed to the engine.

* `CappedBatch.push` — queues one operation, and writes if a cap is reached.
* `CappedBatch.flush` — writes what is queued.
* `CappedBatch.complete` — writes what is queued and answers how many operations were written.
-/

namespace SnapshotStore

/-- Write operations that are written in batches of bounded size. -/
structure CappedBatch where
  /-- The column that is written to. -/
  column : Nat
  /-- The number of operations at which they are written. -/
  maxOps : Nat
  /-- The number of bytes at which they are written. -/
  maxBytes : Nat
  /-- The operations that are not written yet. -/
  pending : WriteBatch
  /-- The number of operations handed to the engine. -/
  written : Nat

namespace CappedBatch

variable {ε : Type}

/-- The batch without operations; both caps are at least one. -/
def new (column maxOps maxBytes : Nat) : CappedBatch :=
  { column, maxOps := max maxOps 1, maxBytes := max maxBytes 1, pending := [], written := 0 }

/-- Whether a cap is reached. -/
def isFull (b : CappedBatch) : Bool :=
  b.maxOps ≤ b.pending.length || b.maxBytes ≤ WriteBatch.byteSize b.pending

/-- The batch after its operations were handed to the engine. -/
def emptied (b : CappedBatch) : CappedBatch :=
  { b with pending := [], written := b.written + b.pending.length }

/-- Writes the queued operations, if there are any. -/
def flush (b : CappedBatch) : Work ε (Except EngineError Unit × CappedBatch) :=
  if b.pending.isEmpty then pure (.ok (), b)
  else do
    let r ← Work.attempt (.write b.column b.pending)
    return (r, b.emptied)

/-- Queues an operation, and writes if a cap is reached. -/
def push (b : CappedBatch) (op : WriteOp) : Work ε (Except EngineError Unit × CappedBatch) :=
  let b := { b with pending := b.pending ++ [op] }
  if b.isFull then b.flush else pure (.ok (), b)

/-- Writes the queued operations and answers the number of all written ones. -/
def complete (b : CappedBatch) : Work ε (Except EngineError Nat) := do
  let (r, b) ← b.flush
  return r.map fun _ => b.written

end CappedBatch

end SnapshotStore
