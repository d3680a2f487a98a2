import SnapshotStore.KeyRange

/-!
# Write batches

A batch is a list of write operations that the engine applies in order as one step.  Its size in
bytes counts what the operations carry: key and value of a put, the key of a deletion, the bounds of
a range deletion.
-/

namespace SnapshotStore

/-- One write of a batch. -/
inductive WriteOp where
  | put (key value : Bytes)
  | delete (key : Bytes)
  | deleteRange (range : KeyRange)
  deriving DecidableEq

/-- The bytes that an operation carries. -/
def WriteOp.byteSize : WriteOp → Nat
  | .put key value => key.length + value.length
  | .delete key => key.length
  | .deleteRange range => (range.lower.getD []).length + (range.upper.getD []).length

/-- Write operations in the order of their application. -/
abbrev WriteBatch := List WriteOp

/-- The bytes that a batch carries. -/
def WriteBatch.byteSize (batch : WriteBatch) : Nat :=
  batch.foldr (fun op n => op.byteSize + n) 0

end SnapshotStore
