import SnapshotStore.Batching
import SnapshotStore.Dictionary.Basic
import SnapshotStore.Windows

/-!
# Dictionaries: windows of keys

Operations on many keys work window by window.  A window holds the stripes of all its keys at once
while it is read or written.

* `Dictionary.getWindow` — the values of the keys of a window.
* `Dictionary.putWindow` — writes the entries of a window, and tells what their keys held.
* `Dictionary.keyWindows`, `Dictionary.entryWindows` — how inputs are cut.
-/

namespace SnapshotStore.Dictionary

variable {ε : Type} (d : Dictionary)

/-- The windows of a list of keys. -/
def keyWindows (keys : List Bytes) : List (List Bytes) :=
  windows (.ofNats d.config.multiGetWindow d.config.windowMaxBytes List.length) keys

/-- The windows of a list of entries. -/
def entryWindows (entries : List Entry) : List (List Entry) :=
  windows (.ofNats d.config.multiGetWindow d.config.windowMaxBytes fun e => e.1.length + e.2.length)
    entries

/-- The batch that writes of the dictionary go through. -/
def batch : CappedBatch :=
  .new d.column d.config.writeBatchCap d.config.maxWriteBatchBytes

/-- Reads keys one after the other. -/
def readEach (view : ReadView) (sure : Bool) : List Bytes → Work ε (List (Bytes × Option Bytes))
  | [] => pure []
  | key :: rest => do
    let value ← d.read view key sure
    return (key, value) :: (← readEach view sure rest)

/-- The values of the keys of a window, in their order. -/
def getWindow (token : Option Token) (keys : List Bytes) (sure : Bool) :
    Work ε (List (Bytes × Option Bytes)) := do
  let view ← Work.view token
  Work.holding .shared (d.readStripes view keys) (d.readEach view sure keys)

/-- What the keys of some entries hold just before each entry is written, when the entries of
`written`, newest first, are written before. -/
def previousValues (written : List Entry) : List Entry → Work ε (List (Option Bytes))
  | [] => pure []
  | (key, value) :: rest => do
    let previous ← match written.lookup key with
      | some shadow => pure (some shadow)
      | none => d.read .latest key false
    return previous :: (← previousValues ((key, value) :: written) rest)

/-- Queues writes in a batch; the first failure stops it. -/
def pushAll (context : String) (b : CappedBatch) : List WriteOp → Work ε CappedBatch
  | [] => pure b
  | op :: rest => do
    let (r, b) ← b.push op
    Work.orFail "write" context r
    pushAll context b rest

/-- Writes the entries of a window, and answers what their keys held if that is wanted. -/
def putWindow (entries : List Entry) (wantsPrevious : Bool) : Work ε (List (Option Bytes)) :=
  Work.holding .exclusive (d.writeStripes (entries.map (·.1))) do
    let previous ← if wantsPrevious then d.previousValues [] entries
      else pure (entries.map fun _ => none)
    let context := Bytes.label ((entries.head?.map (·.1)).getD [])
    let b ← pushAll context d.batch (entries.map fun e => .put e.1 e.2)
    discard <| Work.orFail "write" context (← b.complete)
    return previous

end SnapshotStore.Dictionary
