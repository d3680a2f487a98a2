import SnapshotStore.Error

/-!
# Bounded channels

A channel carries items, or failures, in order from one producer to one consumer.  A send waits
while the channel is full, and finds out when nobody listens any more.
-/

namespace SnapshotStore

/-- A channel of items of type `ε`. -/
structure Channel (ε : Type) where
  /-- The number of items that the channel holds at most. -/
  capacity : Nat
  /-- The items on their way, oldest first. -/
  items : List (Except StoreError ε)
  /-- Whether the consumer is still there. -/
  isOpen : Bool

namespace Channel

variable {ε : Type}

/-- The channel without items for at least one item. -/
def new (capacity : Nat) : Channel ε := ⟨max capacity 1, [], true⟩

/-- A channel that nobody listens to. -/
def deserted : Channel ε := ⟨1, [], false⟩

/-- Sends an item, unless the channel is full; answers whether somebody listens. -/
def send? (c : Channel ε) (item : Except StoreError ε) : Option (Bool × Channel ε) :=
  if !c.isOpen then some (false, c)
  else if c.items.length < c.capacity then some (true, { c with items := c.items ++ [item] })
  else none

/-- Takes the oldest item. -/
def receive? (c : Channel ε) : Option (Except StoreError ε × Channel ε) :=
  match c.items with
  | [] => none
  | item :: rest => some (item, { c with items := rest })

/-- The consumer goes away, and with it the items on their way. -/
def desert (c : Channel ε) : Channel ε := { c with items := [], isOpen := false }

end Channel

end SnapshotStore
