import Mathlib.Logic.Function.Basic
import SnapshotStore.Database
import SnapshotStore.Proofs.Dictionary.Deletion
import SnapshotStore.Proofs.Stream

/-!
# Plain maps with frozen copies

What a database has to do is said without an engine, locks, windows of work and caps.  A plain store
has one ordered map for every name.  A snapshot is a copy of all maps, which stays as it is until it
is given up; its number is never used again.

Every operation of a dictionary and of the database has its counterpart here, with the same answers
and the same refusals.  The configuration matters in three places.  It cuts inputs of many keys into
windows, and a consumer that goes away early leaves the windows behind unwritten; it says how far
the removal of a range is ahead of its consumer; and it caps quick sizes of snapshots.
-/

namespace SnapshotStore

/-! ## Plain maps -/

/-- An ordered map from keys to values. -/
structure PlainMap where
  /-- The entries in ascending key order. -/
  entries : KeyMap Bytes
  /-- The keys ascend strictly. -/
  sorted : entries.Sorted

namespace PlainMap

/-- The map without keys. -/
def empty : PlainMap := ⟨[], KeyMap.sorted_nil⟩

/-- The values of the keys. -/
def get (m : PlainMap) : Contents := m.entries.get?

/-- What an operation makes of a map. -/
def apply (m : PlainMap) : WriteOp → PlainMap
  | .put key value => ⟨m.entries.alter key fun _ => some value, m.sorted.alter key _⟩
  | .delete key => ⟨m.entries.alter key fun _ => none, m.sorted.alter key _⟩
  | .deleteRange range => ⟨m.entries.filter fun e => !range.contains e.1, m.sorted.filter _⟩

/-- The map after some entries were put. -/
def puts (m : PlainMap) (entries : List Entry) : PlainMap :=
  entries.foldl (fun m e => m.apply (.put e.1 e.2)) m

/-- The map after the keys of some entries were deleted. -/
def without (m : PlainMap) (entries : List Entry) : PlainMap :=
  entries.foldl (fun m e => m.apply (.delete e.1)) m

/-- The entries of a range. -/
def within (m : PlainMap) (range : KeyRange) : List Entry :=
  m.entries.filter fun e => range.contains e.1

/-- The keys of a range. -/
def keysWithin (m : PlainMap) (range : KeyRange) : List Bytes := (m.within range).map Prod.fst

/-- The entries of a range in groups of neighbours whose keys share a stem. -/
def groupsWithin (m : PlainMap) (range : KeyRange) (stemLen : Nat) : List (List Entry) :=
  (m.within range).splitBy (Dictionary.sharesStem stemLen)

/-- The stems of the keys of a range, without repetitions. -/
def stemsWithin (m : PlainMap) (range : KeyRange) (stemLen : Nat) : List Bytes :=
  ((m.within range).map (·.1.stem stemLen)).destutter (· ≠ ·)

/-- The number of entries of a range; a quick answer to the number of all entries of a snapshot
stops at a cap. -/
def size (m : PlainMap) (cap : Nat) (token : Option Token) (range : KeyRange) (fast : Bool) : Nat :=
  if range.isAll && fast && token.isSome then min (m.within range).length (max cap 1)
  else (m.within range).length

@[simp] theorem get_apply (m : PlainMap) (op : WriteOp) : (m.apply op).get = m.get.apply op := by
  funext k
  cases op with
  | put key value => exact KeyMap.get?_alter m.sorted key _ k
  | delete key => exact KeyMap.get?_alter m.sorted key _ k
  | deleteRange range =>
    ext v
    simp only [get, apply, Contents.apply]
    rw [KeyMap.get?_eq_some_iff (m.sorted.filter _), List.mem_filter]
    by_cases hk : range.contains k
    · simp [hk]
    · simp [hk, KeyMap.get?_eq_some_iff m.sorted]

@[simp] theorem get_puts (m : PlainMap) (entries : List Entry) :
    (m.puts entries).get = m.get.applyAll (Contents.puts entries) := by
  induction entries generalizing m with
  | nil => rfl
  | cons e rest ih =>
    refine (ih (m.apply (.put e.1 e.2))).trans ?_
    rw [get_apply]
    rfl

@[simp] theorem get_without (m : PlainMap) (entries : List Entry) :
    (m.without entries).get = m.get.applyAll (Contents.deletions entries) := by
  induction entries generalizing m with
  | nil => rfl
  | cons e rest ih =>
    refine (ih (m.apply (.delete e.1))).trans ?_
    rw [get_apply]
    rfl

/-- The entries of a range are what the map lists there. -/
theorem lists_within (m : PlainMap) (range : KeyRange) : m.get.Lists range (m.within range) where
  sorted := m.sorted.filter _
  mem_iff key value := by
    rw [within, List.mem_filter, get, KeyMap.get?_eq_some_iff m.sorted, and_comm]

end PlainMap

/-! ## Plain stores -/

/-- One map for every name, with the copies that live snapshots hold. -/
structure PlainStore where
  /-- The choices of the database. -/
  config : Config
  /-- The open dictionaries with their modes. -/
  modes : List (String × UpdateMode)
  /-- The maps as they are now. -/
  now : String → PlainMap
  /-- The copies of the live snapshots. -/
  frozen : List (Token × (String → PlainMap))
  /-- The number of the next snapshot. -/
  nextId : Token

namespace PlainStore

/-- A store without dictionaries and snapshots. -/
def empty (config : Config) : PlainStore := ⟨config, [], fun _ => .empty, [], 1⟩

variable (p : PlainStore) (name : String)

/-- The maps that an optional snapshot shows. -/
def shown : Option Token → Except StoreError (String → PlainMap)
  | none => .ok p.now
  | some t =>
    match p.frozen.lookup t with
    | some maps => .ok maps
    | none => .error (.snapshotNotFound t)

/-- The store with another map for one name. -/
def set (m : PlainMap) : PlainStore := { p with now := Function.update p.now name m }

/-- The mode of an open dictionary. -/
def mode? : Option UpdateMode := p.modes.lookup name

end PlainStore

end SnapshotStore
