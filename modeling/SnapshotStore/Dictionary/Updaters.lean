import SnapshotStore.Work.Basic

/-!
# Updaters

The usual functions for updates.  Each takes the present value of a key, if there is one, to the
value that the key is to have.
-/

namespace SnapshotStore.Updater

/-- Gives the key a value. -/
def set (value : Bytes) : Updater := fun _ => some (some value)

/-- Removes the key. -/
def delete : Updater := fun _ => some none

/-- Leaves the key as it is. -/
def keep : Updater := fun current => some current

/-- Appends to the value; absence counts as the empty value. -/
def append (suffix : Bytes) : Updater := fun current => some (some (current.getD [] ++ suffix))

/-- Appends to the value, if there is one. -/
def appendIfPresent (suffix : Bytes) : Updater := fun current => some (current.map (· ++ suffix))

/-- Gives the key a value, unless it has one. -/
def setIfAbsent (value : Bytes) : Updater := fun current => some (some (current.getD value))

/-- Adds one to the first byte, modulo 256; absence and the empty value become the byte 1. -/
def increment : Updater
  | some (b :: rest) => some (some ((b + 1) :: rest))
  | _ => some (some [1])

/-- Breaks down. -/
def broken : Updater := fun _ => none

end SnapshotStore.Updater
