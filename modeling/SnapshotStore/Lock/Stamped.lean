/-!
# Stamped locks

A stamped lock is held by any number of readers or by one writer.  A writer first announces itself;
from then on no new reader is let in.  The only reader can become the writer at once, even past
announced writers.

This module holds the state of a lock and its atomic transitions.  A transition that has to wait
answers nothing; who waits and who wakes whom is in `Lock.Room`.
-/

namespace SnapshotStore

/-- How a lock is held. -/
inductive Hold where
  | shared
  | exclusive
  deriving DecidableEq, Repr

/-- The state of a stamped lock. -/
structure StampedLock where
  /-- The number of readers that hold the lock. -/
  readers : Nat
  /-- Whether a writer holds the lock. -/
  hasWriter : Bool
  /-- The number of writers that announced themselves and are not in yet. -/
  waiting : Nat
  deriving DecidableEq, Repr

namespace StampedLock

/-- The lock that nobody holds or waits for. -/
def idle : StampedLock := ⟨0, false, 0⟩

instance : Inhabited StampedLock := ⟨idle⟩

/-- Whether a new reader is let in. -/
def admitsReader (l : StampedLock) : Bool := !l.hasWriter && l.waiting = 0

/-- Whether an announced writer is let in. -/
def admitsWriter (l : StampedLock) : Bool := !l.hasWriter && l.readers = 0

/-- Whether nobody holds the lock. -/
def isFree (l : StampedLock) : Bool := !l.hasWriter && l.readers = 0

/-- A writer announces itself. -/
def announce (l : StampedLock) : StampedLock := { l with waiting := l.waiting + 1 }

/-- A new reader, or an announced writer, goes in; nothing if it has to wait. -/
def enter? (l : StampedLock) : Hold → Option StampedLock
  | .shared => if l.admitsReader then some { l with readers := l.readers + 1 } else none
  | .exclusive =>
    if l.admitsWriter then some { l with hasWriter := true, waiting := l.waiting - 1 } else none

/-- The only reader becomes the writer; nothing if it is not the only one. -/
def upgrade? (l : StampedLock) : Option StampedLock :=
  if l.readers = 1 && !l.hasWriter then some { l with readers := 0, hasWriter := true } else none

/-- A holder goes out. -/
def release (l : StampedLock) : Hold → StampedLock
  | .shared => { l with readers := l.readers - 1 }
  | .exclusive => { l with hasWriter := false }

end StampedLock

end SnapshotStore
