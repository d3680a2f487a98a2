import SnapshotStore.Engine.Column
import SnapshotStore.Error

/-!
# The register of snapshots

A register gives every snapshot a number of its own, from 1 on and never twice, and remembers the
engine sequence that the snapshot pins while it is live.
-/

namespace SnapshotStore

/-- A snapshot of a database, by its number. -/
abbrev Token := Nat

/-- The text of a token. -/
def Token.display (t : Token) : String := s!"snapshot#{t}"

/-- The snapshots of a database. -/
structure Snapshots where
  /-- The number of the next snapshot. -/
  nextId : Token
  /-- The live snapshots with their sequences. -/
  live : List (Token × Nat)
  deriving DecidableEq, Repr

namespace Snapshots

/-- The register without snapshots. -/
def empty : Snapshots := ⟨1, []⟩

/-- The sequence of a live snapshot. -/
def sequence? (r : Snapshots) (t : Token) : Option Nat := r.live.lookup t

/-- Gives a sequence the next number. -/
def register (r : Snapshots) (sequence : Nat) : Token × Snapshots :=
  (r.nextId, ⟨r.nextId + 1, r.live ++ [(r.nextId, sequence)]⟩)

/-- Forgets a snapshot. -/
def forget (r : Snapshots) (t : Token) : Snapshots :=
  { r with live := r.live.filter (·.1 ≠ t) }

/-- The view of an optional snapshot: its sequence, or the newest state without a snapshot. -/
def resolve (r : Snapshots) : Option Token → Except StoreError ReadView
  | none => .ok .latest
  | some t =>
    match r.sequence? t with
    | some s => .ok (.at s)
    | none => .error (.snapshotNotFound t)

/-- The inspection text of the register. -/
def inspect (r : Snapshots) : String :=
  Text.record "SnapshotRegistry" [("live", toString r.live.length),
    ("next_id", toString r.nextId)]

end Snapshots

end SnapshotStore
