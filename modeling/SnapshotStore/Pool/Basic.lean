import SnapshotStore.Error
import SnapshotStore.Text.Record

/-!
# The storage pool

A pool bounds the operations and the range producers that run at the same time by two separate
budgets of permits.  A closed pool starts nothing new; what already has a permit runs on and gives
it back as usual.
-/

namespace SnapshotStore

/-- Permits of one kind. -/
structure Budget where
  /-- All permits. -/
  limit : Nat
  /-- The permits that nobody has. -/
  available : Nat
  deriving DecidableEq, Repr

namespace Budget

/-- A budget of at least one permit, all available. -/
def full (limit : Nat) : Budget := ⟨max limit 1, max limit 1⟩

/-- Takes a permit, if one is available. -/
def take? (b : Budget) : Option Budget :=
  if 0 < b.available then some { b with available := b.available - 1 } else none

/-- Gives a permit back. -/
def giveBack (b : Budget) : Budget := { b with available := b.available + 1 }

end Budget

/-- A pool. -/
structure Pool where
  /-- The name of the pool. -/
  name : String
  /-- The permits of operations. -/
  ops : Budget
  /-- The permits of range producers. -/
  scans : Budget
  /-- Whether the pool starts nothing new. -/
  isClosed : Bool
  deriving DecidableEq, Repr

namespace Pool

/-- An open pool with at least one permit of each kind. -/
def new (name : String) (ops scans : Nat) : Pool := ⟨name, .full ops, .full scans, false⟩

/-- Starts nothing new from now on. -/
def close (p : Pool) : Pool := { p with isClosed := true }

/-- The inspection text of the pool. -/
def inspect (p : Pool) : String :=
  Text.record "StoragePool" [("name", Text.quote p.name), ("max_ops", toString p.ops.limit),
    ("max_scans", toString p.scans.limit), ("closed", Text.flag p.isClosed)]

end Pool

end SnapshotStore
