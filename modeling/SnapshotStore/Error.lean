import SnapshotStore.Bytes

/-!
# Errors

Three layers of errors, each a list of causes with one function for the wording.

* `EngineError` — what the storage engine answers.
* `StoreError` — what an operation of a database or a dictionary answers.  An engine failure is
  wrapped with the operation and its context (`StoreError.ofEngine`); a closed engine under an
  operation means that the store is closed.
* `FacadeError` — what the outermost interface answers, coarser than a store error.
-/

namespace SnapshotStore

/-! ## Engine -/

/-- A failure of the storage engine. -/
inductive EngineError where
  /-- The engine no longer accepts calls. -/
  | closed
  /-- There is no column with this number. -/
  | unknownColumn (column : Nat)
  /-- Nothing pins the sequence that was to be read. -/
  | snapshotReleased (sequence : Nat)
  /-- The stored data is damaged. -/
  | corruption (text : String)
  /-- The medium failed. -/
  | io (text : String)
  deriving DecidableEq, Repr

namespace EngineError

/-- The name of the kind of an engine failure. -/
def kind : EngineError → String
  | .closed => "Closed"
  | .unknownColumn _ => "UnknownColumn"
  | .snapshotReleased _ => "SnapshotReleased"
  | .corruption _ => "Corruption"
  | .io _ => "Io"

/-- The text of an engine failure. -/
def message : EngineError → String
  | .closed => "engine is closed"
  | .unknownColumn n => s!"unknown column {n}"
  | .snapshotReleased s => s!"snapshot at sequence {s} is not pinned"
  | .corruption t => s!"corruption: {t}"
  | .io t => s!"I/O error: {t}"

end EngineError

/-! ## Store -/

/-- A failure of an operation on a database or a dictionary. -/
inductive StoreError where
  /-- The engine failed under the named operation in the given context. -/
  | io (operation context : String) (source : EngineError)
  /-- The dictionary does not admit the operation. -/
  | unsupported (what : String)
  /-- No live snapshot has this number. -/
  | snapshotNotFound (id : Nat)
  /-- The caller's arguments are refused. -/
  | invalidArgument (reason : String)
  /-- The store is closed. -/
  | closed
  /-- The work of the operation broke down. -/
  | internal (reason : String)
  deriving DecidableEq, Repr

namespace StoreError

/-- An engine failure under an operation; a closed engine makes it a closed store. -/
def ofEngine (operation context : String) : EngineError → StoreError
  | .closed => .closed
  | source => .io operation context source

/-- The name of the kind of a store failure. -/
def kind : StoreError → String
  | .io .. => "Io"
  | .unsupported _ => "Unsupported"
  | .snapshotNotFound _ => "NotFound"
  | .invalidArgument _ => "InvalidArgument"
  | .closed => "Closed"
  | .internal _ => "Internal"

/-- The text of a store failure. -/
def message : StoreError → String
  | .io operation context source => s!"Failed to {operation} {context}: {source.message}"
  | .unsupported what => s!"unsupported operation: {what}"
  | .snapshotNotFound id => s!"Snapshot {id} not found!"
  | .invalidArgument reason => s!"invalid argument: {reason}"
  | .closed => "store is closed"
  | .internal reason => s!"internal error: {reason}"

/-- Whether the failure is a snapshot that is not there. -/
def isNotFound : StoreError → Bool
  | .snapshotNotFound _ => true
  | _ => false

/-- Whether the failure is an operation that is not admitted. -/
def isUnsupported : StoreError → Bool
  | .unsupported _ => true
  | _ => false

/-- The engine failure behind a store failure. -/
def source? : StoreError → Option EngineError
  | .io _ _ source => some source
  | _ => none

end StoreError

/-! ## Facade -/

/-- A failure as the outermost interface reports it. -/
inductive FacadeError where
  /-- Something that was named does not exist. -/
  | notFound (what : String)
  /-- The operation is not admitted. -/
  | unsupported (what : String)
  /-- The caller's arguments are refused. -/
  | invalidArgument (reason : String)
  /-- The storage failed. -/
  | storage (text : String)
  /-- The store is closed. -/
  | closed
  /-- The work of the operation broke down. -/
  | internal (reason : String)
  deriving DecidableEq, Repr

namespace FacadeError

/-- The facade's view of a store failure. -/
def ofStore : StoreError → FacadeError
  | .io operation context source => .storage (StoreError.io operation context source).message
  | .unsupported what => .unsupported what
  | .snapshotNotFound id => .notFound s!"snapshot {id}"
  | .invalidArgument reason => .invalidArgument reason
  | .closed => .closed
  | .internal reason => .internal reason

/-- The name of the kind of a facade failure. -/
def kind : FacadeError → String
  | .notFound _ => "NotFound"
  | .unsupported _ => "Unsupported"
  | .invalidArgument _ => "InvalidArgument"
  | .storage _ => "Storage"
  | .closed => "Closed"
  | .internal _ => "Internal"

/-- The text of a facade failure. -/
def message : FacadeError → String
  | .notFound what => s!"not found: {what}"
  | .unsupported what => s!"unsupported: {what}"
  | .invalidArgument reason => s!"invalid argument: {reason}"
  | .storage text => s!"storage error: {text}"
  | .closed => "closed"
  | .internal reason => s!"internal error: {reason}"

/-- Whether something that was named does not exist. -/
def isNotFound : FacadeError → Bool
  | .notFound _ => true
  | _ => false

/-- Whether the operation is not admitted. -/
def isUnsupported : FacadeError → Bool
  | .unsupported _ => true
  | _ => false

/-- Whether the store is closed. -/
def isClosed : FacadeError → Bool
  | .closed => true
  | _ => false

/-- Whether the failure is the store's own and not the caller's. -/
def isSerious : FacadeError → Bool
  | .internal _ | .storage _ => true
  | _ => false

end FacadeError

end SnapshotStore
