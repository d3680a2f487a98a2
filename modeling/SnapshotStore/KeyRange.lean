import SnapshotStore.Bytes

/-!
# Ranges of keys

A range has an optional lower bound, which belongs to it, and an optional upper bound, which does
not.  Equal bounds are the one exception: they denote the range that holds exactly that key.  The
bounds of a range are always in order, so `KeyRange.ofBounds` is the only way to a range that can
fail.
-/

namespace SnapshotStore

/-- A range of keys with ordered optional bounds. -/
structure KeyRange where
  /-- The least key of the range, if it is bounded below. -/
  lower : Option Bytes
  /-- The first key after the range, if it is bounded above; the only key if it equals `lower`. -/
  upper : Option Bytes
  /-- The bounds are in order. -/
  ordered : ∀ lo ∈ lower, ∀ hi ∈ upper, lo ≤ hi
  deriving DecidableEq

namespace KeyRange

/-- Two bounds in the wrong order. -/
structure Reversed where
  /-- The lower bound asked for. -/
  lo : Bytes
  /-- The upper bound asked for, which lies below `lo`. -/
  hi : Bytes
  deriving DecidableEq

/-- The text that refuses reversed bounds. -/
def Reversed.message (e : Reversed) : String :=
  s!"range min {e.lo.label} is greater than max {e.hi.label}"

/-! ## Construction -/

/-- The range without bounds. -/
def all : KeyRange := ⟨none, none, by simp⟩

/-- The range that holds one key. -/
def single (key : Bytes) : KeyRange := ⟨some key, some key, by simp⟩

/-- The keys from `lo` on. -/
def atLeast (lo : Bytes) : KeyRange := ⟨some lo, none, by simp⟩

/-- The keys below `hi`. -/
def below (hi : Bytes) : KeyRange := ⟨none, some hi, by simp⟩

/-- The range between two bounds, refused when they are reversed. -/
def between (lo hi : Bytes) : Except Reversed KeyRange :=
  if h : lo ≤ hi then .ok ⟨some lo, some hi, by simpa using h⟩ else .error ⟨lo, hi⟩

/-- The range with the given optional bounds, refused when both are present and reversed. -/
def ofBounds : Option Bytes → Option Bytes → Except Reversed KeyRange
  | none, none => .ok all
  | some lo, none => .ok (atLeast lo)
  | none, some hi => .ok (below hi)
  | some lo, some hi => between lo hi

instance : Inhabited KeyRange := ⟨all⟩

/-! ## Questions -/

/-- Whether the range has no bounds. -/
def isAll (r : KeyRange) : Bool := r.lower.isNone && r.upper.isNone

/-- The key of a range that holds exactly one key by its bounds. -/
def singleKey? (r : KeyRange) : Option Bytes :=
  match r.lower, r.upper with
  | some lo, some hi => if lo = hi then some lo else none
  | _, _ => none

/-- Whether the bounds are equal. -/
def isSingle (r : KeyRange) : Bool := r.singleKey?.isSome

/-- Whether a key lies in the range. -/
def contains (r : KeyRange) (key : Bytes) : Bool :=
  match r.singleKey? with
  | some k => key = k
  | none => r.lower.all (· ≤ key) && r.upper.all (key < ·)

/-- Whether a key lies above every key of the range. -/
def isPastEnd (r : KeyRange) (key : Bytes) : Bool :=
  match r.singleKey? with
  | some k => k < key
  | none => r.upper.any (· ≤ key)

/-! ## Texts -/

/-- The range in interval notation. -/
def display (r : KeyRange) : String :=
  match r.singleKey? with
  | some k => s!"[{k.label}]"
  | none =>
    (match r.lower with
      | some lo => s!"[{lo.label}"
      | none => "(-inf") ++
    (match r.upper with
      | some hi => s!", {hi.label})"
      | none => ", +inf)")

/-- The inspection text of the range. -/
def inspect (r : KeyRange) : String := "KeyRange" ++ r.display

end KeyRange

end SnapshotStore
