import SnapshotStore.KeyRange

/-!
# Ordered maps with byte keys

A map is the list of its bindings in strictly ascending key order.  `KeyMap.alter` changes the
binding of one key and keeps the order; `KeyMap.within` cuts out an interval given by two bounds,
each absent, included or excluded.
-/

namespace SnapshotStore

/-- One end of an interval of keys. -/
inductive Bound where
  | unbounded
  | included (key : Bytes)
  | excluded (key : Bytes)
  deriving DecidableEq

namespace Bound

/-- Whether a key lies on the inner side of a lower end. -/
def admitsAbove : Bound → Bytes → Bool
  | unbounded, _ => true
  | included lo, key => lo ≤ key
  | excluded lo, key => lo < key

/-- Whether a key lies on the inner side of an upper end. -/
def admitsBelow : Bound → Bytes → Bool
  | unbounded, _ => true
  | included hi, key => key ≤ hi
  | excluded hi, key => key < hi

theorem admitsAbove_excluded (lo key : Bytes) : (excluded lo).admitsAbove key = decide (lo < key) := rfl

/-- Everything above an admitted key is admitted by a lower end. -/
theorem admitsAbove_of_lt {b : Bound} {key key' : Bytes} (h : b.admitsAbove key = true)
    (hlt : key < key') : b.admitsAbove key' = true := by
  cases b with
  | unbounded => rfl
  | included lo =>
    simp only [admitsAbove, decide_eq_true_eq] at h ⊢
    exact List.le_of_lt (Std.lt_of_le_of_lt h hlt)
  | excluded lo =>
    simp only [admitsAbove, decide_eq_true_eq] at h ⊢
    exact List.lt_trans h hlt

end Bound

namespace KeyRange

/-- The lower end of a range. -/
def lowerBound (r : KeyRange) : Bound :=
  match r.lower with
  | some lo => .included lo
  | none => .unbounded

/-- The upper end of a range, which belongs to it only if the range is a single key. -/
def upperBound (r : KeyRange) : Bound :=
  match r.singleKey?, r.upper with
  | some key, _ => .included key
  | none, some hi => .excluded hi
  | none, none => .unbounded

end KeyRange

/-- Bindings of keys in strictly ascending key order. -/
abbrev KeyMap (α : Type) := List (Bytes × α)

namespace KeyMap

variable {α : Type}

/-- The binding of a key. -/
def get? : KeyMap α → Bytes → Option α
  | [], _ => none
  | (k, v) :: rest, key => if k = key then some v else get? rest key

/-- Replaces the binding of a key by what `f` makes of it. -/
def alter (key : Bytes) (f : Option α → Option α) : KeyMap α → KeyMap α
  | [] => (f none).toList.map (key, ·)
  | (k, v) :: rest =>
    if key < k then (f none).toList.map (key, ·) ++ (k, v) :: rest
    else if key = k then (f (some v)).toList.map (key, ·) ++ rest
    else (k, v) :: alter key f rest

/-- The bindings between two ends. -/
def within (m : KeyMap α) (lo hi : Bound) : KeyMap α :=
  m.filter fun e => lo.admitsAbove e.1 && hi.admitsBelow e.1

end KeyMap

end SnapshotStore
