/-!
# Windows

Long inputs are worked on in windows.  A window takes items until it has the greatest number of
items or at least a number of bytes, but always at least one item; so a window without its last item
stays below both bounds.

* `WindowBounds.ofWords`, `WindowBounds.ofNats` — bounds that count bytes in machine words, and
  bounds that count them exactly.
* `Feed` — an input and whether its end was seen.
* `Feed.next?` — the next window.
* `windows` — all windows of a list.
-/

namespace SnapshotStore

variable {α : Type}

/-- What is left of an input. -/
inductive Feed (α : Type) where
  /-- The end was not seen yet. -/
  | more (items : List α)
  /-- The end was seen; the input is not asked again. -/
  | ended
  deriving DecidableEq, Repr

/-- The bounds of a window. -/
structure WindowBounds (α : Type) where
  /-- The greatest number of items. -/
  maxItems : Nat
  /-- The number of bytes at which the window is full. -/
  maxBytes : Nat
  /-- The bytes of an item. -/
  size : α → Nat
  /-- The bytes of a window when those of one more item are added. -/
  add : Nat → Nat → Nat

namespace WindowBounds

/-- Bounds that count bytes in machine words: a sum that no word holds begins again at zero. -/
def ofWords (maxItems : Nat) (maxBytes : UInt64) (size : α → UInt64) : WindowBounds α where
  maxItems := maxItems
  maxBytes := maxBytes.toNat
  size x := (size x).toNat
  add m n := (UInt64.ofNat m + UInt64.ofNat n).toNat

/-- Bounds that count bytes exactly.  They are for byte strings: the lengths of what memory holds do
not add up to more than a word holds, so machine words would count the same. -/
def ofNats (maxItems maxBytes : Nat) (size : α → Nat) : WindowBounds α where
  maxItems := maxItems
  maxBytes := maxBytes
  size := size
  add := (· + ·)

/-- Whether a window with some items and bytes takes one more. -/
def wants (b : WindowBounds α) (items bytes : Nat) : Bool :=
  items = 0 || (items < max b.maxItems 1 && bytes < b.maxBytes)

/-- Takes items into a window that already has some: the new items and what is left. -/
def fill (b : WindowBounds α) (items bytes : Nat) : List α → List α × Feed α
  | [] => if b.wants items bytes then ([], .ended) else ([], .more [])
  | x :: rest =>
    if b.wants items bytes then
      let (window, left) := b.fill (items + 1) (b.add bytes (b.size x)) rest
      (x :: window, left)
    else ([], .more (x :: rest))

end WindowBounds

/-- The next window of an input, unless nothing is left. -/
def Feed.next? (b : WindowBounds α) : Feed α → Option (List α × Feed α)
  | .ended => none
  | .more items =>
    match b.fill 0 0 items with
    | ([], _) => none
    | (window, left) => some (window, left)

/-- The windows of an input, with as much fuel as it may have windows. -/
def Feed.windows (b : WindowBounds α) : Nat → Feed α → List (List α)
  | 0, _ => []
  | fuel + 1, feed =>
    match feed.next? b with
    | none => []
    | some (window, left) => window :: windows b fuel left

/-- The windows of a list. -/
def windows (b : WindowBounds α) (items : List α) : List (List α) :=
  Feed.windows b items.length (.more items)

end SnapshotStore
