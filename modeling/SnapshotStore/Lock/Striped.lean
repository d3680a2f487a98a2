import SnapshotStore.Hash.XXH3
import SnapshotStore.Lock.Stamped
import SnapshotStore.Text.Record

/-!
# Striped locks

A fixed number of stamped locks guards arbitrarily many keys: every key belongs to the stripe that
its hash chooses.  An operation on several keys takes the stripes of all of them, each once and in
ascending order.

* `Striping` — which stripe a key belongs to.
* `Stripes` — the states of the locks.
-/

namespace SnapshotStore

/-- The assignment of keys to stripes. -/
structure Striping where
  /-- The number of stripes. -/
  count : Nat
  /-- The hash of a key. -/
  hash : Bytes → UInt64
  /-- There is a stripe. -/
  count_pos : 0 < count

namespace Striping

/-- The number of stripes if none is chosen. -/
def standardCount : Nat := 512

/-- The assignment by the XXH3 hash to `n` stripes, at least one. -/
def ofCount (n : Nat) : Striping := ⟨max n 1, XXH3.hash64, by omega⟩

/-- The stripe of a key. -/
def index (s : Striping) (key : Bytes) : Nat := (s.hash key).toNat % s.count

/-- The stripes of some keys, ascending and each once. -/
def indices (s : Striping) (keys : List Bytes) : List Nat :=
  let chosen := keys.map s.index
  (List.range s.count).filter (chosen.contains ·)

/-- The inspection text of the locks of an assignment. -/
def inspect (s : Striping) : String :=
  Text.record "StripedLocks" [("stripes", toString s.count)]

end Striping

/-- The states of the locks of an assignment, by stripe. -/
abbrev Stripes := List StampedLock

namespace Stripes

/-- Idle locks. -/
def idle (s : Striping) : Stripes := List.replicate s.count .idle

/-- The lock of a stripe. -/
def lock (l : Stripes) (i : Nat) : StampedLock := l[i]?.getD .idle

/-- Takes one stripe if nobody is in the way; the announcement of a writer is part of it. -/
def take? (l : Stripes) (hold : Hold) (i : Nat) : Option Stripes :=
  let asked := match hold with
    | .shared => l.lock i
    | .exclusive => (l.lock i).announce
  (asked.enter? hold).map (List.set l i)

/-- Takes several stripes in order if nobody is in the way. -/
def takeAll? (l : Stripes) (hold : Hold) (is : List Nat) : Option Stripes :=
  is.foldlM (fun l i => l.take? hold i) l

/-- Gives one stripe back. -/
def release (l : Stripes) (hold : Hold) (i : Nat) : Stripes :=
  List.set l i ((l.lock i).release hold)

end Stripes

end SnapshotStore
