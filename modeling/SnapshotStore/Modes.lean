import SnapshotStore.Bytes

/-!
# Modes of dictionaries and operations

* `UpdateMode` — whether a dictionary admits read-modify-write updates.
* `ResultType` — what a put or a removal answers about the value it replaced.
* `ReturnMode` — which side of an update is answered.
* `Delta`, `UpdateAction` — the two sides of an update and what it has to do to the store.
-/

namespace SnapshotStore

/-- A numeric code without a meaning. -/
structure UnknownCode where
  /-- The kind of mode that was asked for. -/
  what : String
  /-- The code. -/
  code : Nat
  deriving DecidableEq

/-- The text that refuses an unknown code. -/
def UnknownCode.message (e : UnknownCode) : String := s!"unknown {e.what} {e.code}"

/-! ## Update mode -/

/-- Whether a dictionary admits updates; fixed when it is first opened. -/
inductive UpdateMode where
  | disallow
  | allow
  deriving DecidableEq, Repr, Inhabited

namespace UpdateMode

/-- The name of the mode in messages. -/
def name : UpdateMode → String
  | .disallow => "Disallow"
  | .allow => "Allow"

/-- The name of the mode in data. -/
def tag : UpdateMode → String
  | .disallow => "disallow"
  | .allow => "allow"

/-- The mode with the given data name. -/
def ofTag? (s : String) : Option UpdateMode :=
  [disallow, allow].find? fun m => m.tag == s

/-- The mode of a dictionary that does not choose one. -/
def standard : UpdateMode := .allow

end UpdateMode

/-! ## Result type -/

/-- What a put or a removal answers about the value that the key held before. -/
inductive ResultType where
  | void
  | previousValue
  | previousValueExistence
  deriving DecidableEq, Repr, Inhabited

namespace ResultType

/-- The name of the result type in messages. -/
def name : ResultType → String
  | .void => "Void"
  | .previousValue => "PreviousValue"
  | .previousValueExistence => "PreviousValueExistence"

/-- The name of the result type in data. -/
def tag : ResultType → String
  | .void => "void"
  | .previousValue => "previous_value"
  | .previousValueExistence => "previous_value_existence"

/-- The result type with the given data name. -/
def ofTag? (s : String) : Option ResultType :=
  [void, previousValue, previousValueExistence].find? fun m => m.tag == s

/-- The result type with the given code. -/
def ofCode : Nat → Except UnknownCode ResultType
  | 0 => .ok .void
  | 1 => .ok .previousValue
  | 2 => .ok .previousValueExistence
  | n => .error ⟨"result type", n⟩

/-- The result type of an operation that does not choose one. -/
def standard : ResultType := .void

/-- Whether the previous value has to be read at all. -/
def needsPrevious (t : ResultType) : Bool := t != .void

/-- The answer about a previous value; existence is answered as the byte 1 or 0. -/
def project : ResultType → Option Bytes → Option Bytes
  | .void, _ => none
  | .previousValue, previous => previous
  | .previousValueExistence, previous => some [if previous.isSome then 1 else 0]

end ResultType

/-! ## Return mode of updates -/

/-- Which side of an update is answered. -/
inductive ReturnMode where
  | oldValue
  | newValue
  | nothing
  deriving DecidableEq, Repr, Inhabited

namespace ReturnMode

/-- The name of the return mode in messages. -/
def name : ReturnMode → String
  | .oldValue => "OldValue"
  | .newValue => "NewValue"
  | .nothing => "Nothing"

/-- The name of the return mode in data. -/
def tag : ReturnMode → String
  | .oldValue => "old_value"
  | .newValue => "new_value"
  | .nothing => "nothing"

/-- The return mode with the given data name. -/
def ofTag? (s : String) : Option ReturnMode :=
  [oldValue, newValue, nothing].find? fun m => m.tag == s

/-- The return mode with the given code. -/
def ofCode : Nat → Except UnknownCode ReturnMode
  | 0 => .ok .oldValue
  | 1 => .ok .newValue
  | 2 => .ok .nothing
  | n => .error ⟨"update return mode", n⟩

/-- The return mode of an update that does not choose one. -/
def standard : ReturnMode := .newValue

end ReturnMode

/-! ## Deltas -/

/-- A value before and after a change; `none` is absence. -/
structure Delta (α : Type) where
  /-- The value before the change. -/
  previous : Option α
  /-- The value after the change. -/
  current : Option α
  deriving DecidableEq, Repr

namespace Delta

/-- Whether the two sides differ. -/
def isModified {α : Type} [DecidableEq α] (d : Delta α) : Bool := d.previous ≠ d.current

/-- Applies a function to both sides. -/
def map {α β : Type} (f : α → β) (d : Delta α) : Delta β := ⟨d.previous.map f, d.current.map f⟩

/-- The side that a return mode asks for. -/
def project {α : Type} (d : Delta α) : ReturnMode → Option α
  | .oldValue => d.previous
  | .newValue => d.current
  | .nothing => none

end Delta

/-- What an update has to do to the store. -/
inductive UpdateAction where
  | noOp
  | write (value : Bytes)
  | delete
  deriving DecidableEq, Repr

namespace UpdateAction

/-- The action that takes the store from one side of a delta to the other. -/
def ofDelta (d : Delta Bytes) : UpdateAction :=
  match d.previous, d.current with
  | some _, none => .delete
  | none, some new => .write new
  | some old, some new => if old = new then .noOp else .write new
  | none, none => .noOp

/-- The name of the action. -/
def name : UpdateAction → String
  | .noOp => "NoOp"
  | .write _ => "Write"
  | .delete => "Delete"

end UpdateAction

end SnapshotStore
