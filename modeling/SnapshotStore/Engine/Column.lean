import SnapshotStore.Engine.KeyMap
import SnapshotStore.Filter

/-!
# Columns of versioned values

A column keeps for every key the chain of its versions, newest first; a version without a value is a
tombstone.  A reader at a sequence sees the newest version that is not newer than that sequence.
Versions that no reader from a threshold on can see are pruned when the chain is written to and when
the column is compacted.

* `Chain.visible` — what a reader sees.
* `Chain.prune`, `Chain.isRemovable` — what may be dropped.
* `Column.push` — writes one version.
* `Column.compact` — prunes every chain.
-/

namespace SnapshotStore

/-- The state that a read refers to. -/
inductive ReadView where
  /-- The newest state. -/
  | latest
  /-- The state at a sequence. -/
  | at (sequence : Nat)
  deriving DecidableEq, Repr

/-- One version of a key's value. -/
structure Version where
  /-- The sequence that wrote it. -/
  sequence : Nat
  /-- The value; none for a tombstone. -/
  value : Option Bytes
  deriving DecidableEq, Repr

/-- The versions of one key, newest first. -/
abbrev Chain := List Version

namespace Chain

/-- The version that a reader sees. -/
def visible (chain : Chain) : ReadView → Option Version
  | .latest => chain.head?
  | .at s => chain.find? (·.sequence ≤ s)

/-- The value that a reader sees. -/
def valueAt (chain : Chain) (view : ReadView) : Option Bytes :=
  (chain.visible view).bind (·.value)

/-- Whether the newest version is a value. -/
def isLive (chain : Chain) : Bool := (chain.valueAt .latest).isSome

/-- Drops what no reader from `threshold` on can see: everything behind the newest version that is
not newer than `threshold`. -/
def prune (threshold : Nat) : Chain → Chain
  | [] => []
  | v :: rest => if v.sequence ≤ threshold then [v] else v :: prune threshold rest

/-- Whether no reader from `threshold` on misses the chain: it is one tombstone that all of them
see. -/
def isRemovable (threshold : Nat) : Chain → Bool
  | [v] => v.value.isNone && v.sequence ≤ threshold
  | _ => false

/-- The pruned chain, or nothing if it can go altogether. -/
def collect (threshold : Nat) (chain : Chain) : Option Chain :=
  let chain := chain.prune threshold
  if chain.isRemovable threshold then none else some chain

end Chain

/-- The entries of a map of chains that a reader sees. -/
def KeyMap.visibleEntries (chains : KeyMap Chain) (view : ReadView) : List Entry :=
  chains.filterMap fun e => (e.2.valueAt view).map (e.1, ·)

/-- A column. -/
structure Column where
  /-- The name that the column was created under. -/
  name : String
  /-- The versions of every key. -/
  chains : KeyMap Chain
  /-- The keys that may hold a value. -/
  filter : Filter
  /-- The number of keys whose newest version is a value. -/
  liveKeys : Nat
  deriving DecidableEq

namespace Column

/-- The column without keys. -/
def empty (scheme : Filter.Scheme) (name : String) (capacity : Nat) : Column :=
  { name, chains := [], filter := .empty scheme capacity, liveKeys := 0 }

/-- The chain of a key, empty if there is none. -/
def chain (c : Column) (key : Bytes) : Chain := (c.chains.get? key).getD []

/-- The value of a key in a view. -/
def valueAt (c : Column) (view : ReadView) (key : Bytes) : Option Bytes :=
  (c.chain key).valueAt view

/-- Writes a version in front of a key's chain and prunes the chain.  A tombstone for a key that is
not live changes nothing. -/
def push (scheme : Filter.Scheme) (threshold : Nat) (c : Column) (key : Bytes)
    (version : Version) : Column :=
  let wasLive := (c.chain key).isLive
  if version.value.isSome then
    { c with
      filter := c.filter.insert scheme key
      chains := c.chains.alter key fun old => Chain.collect threshold (version :: old.getD [])
      liveKeys := if wasLive then c.liveKeys else c.liveKeys + 1 }
  else if wasLive then
    { c with
      chains := c.chains.alter key fun old => Chain.collect threshold (version :: old.getD [])
      liveKeys := c.liveKeys - 1 }
  else c

/-- The live keys of a range, in ascending order. -/
def liveKeysIn (c : Column) (range : KeyRange) : List Bytes :=
  ((c.chains.within range.lowerBound range.upperBound).filter (·.2.isLive)).map (·.1)

/-- Makes the filter anew, from the keys that hold a value in some version, with room for twice the
live keys. -/
def rebuildFilter (scheme : Filter.Scheme) (leastCapacity : Nat) (c : Column) : Column :=
  let keys := (c.chains.filter (·.2.any (·.value.isSome))).map (·.1)
  let start := Filter.empty scheme (max (c.liveKeys * 2) leastCapacity)
  { c with filter := keys.foldl (Filter.insert scheme) start }

/-- Prunes every chain and makes the filter anew. -/
def compact (scheme : Filter.Scheme) (threshold leastCapacity : Nat) (c : Column) : Column :=
  rebuildFilter scheme leastCapacity
    { c with chains := c.chains.filterMap fun e => (e.2.collect threshold).map (e.1, ·) }

/-- The number of stored versions, tombstones included. -/
def versionCount (c : Column) : Nat := (c.chains.flatMap (·.2)).length

end Column

end SnapshotStore
