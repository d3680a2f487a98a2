import SnapshotStore.Dictionary.Range
import SnapshotStore.Stream

/-!
# Dictionaries: streams and replacement

* `Dictionary.entries`, `Dictionary.keys`, `Dictionary.groups`, `Dictionary.keyGroups`,
  `Dictionary.stems` — streams over a range.
* `Dictionary.getMany`, `Dictionary.putMany` — streams over windows of keys.
* `Dictionary.writeSteps` — the steps that write entries which have to lie in a range.
* `Dictionary.replaced` — the stream that removes the entries of a range, hands them out, and at
  its end writes new ones.
-/

namespace SnapshotStore.Dictionary

variable (d : Dictionary)

/-! ## Streams over a range -/

/-- A stream whose producer is ahead by the buffer of the dictionary. -/
def producing {ε : Type} (w : Work ε Unit) : Stream ε := .produced (.idle d.config.streamBuffer w)

/-- The entries of a range. -/
def entries (token : Option Token) (range : KeyRange) : Stream Entry :=
  d.producing (d.streamEntries id token range)

/-- The keys of a range. -/
def keys (token : Option Token) (range : KeyRange) : Stream Bytes :=
  d.producing (d.streamEntries Prod.fst token range)

/-- The entries of a range in groups of keys with a common stem. -/
def groups (stemLen : Nat) (token : Option Token) (range : KeyRange) : Stream (List Entry) :=
  d.producing (d.streamGroups id stemLen token range)

/-- The keys of a range in groups with a common stem. -/
def keyGroups (stemLen : Nat) (token : Option Token) (range : KeyRange) : Stream (List Bytes) :=
  d.producing (d.streamGroups Prod.fst stemLen token range)

/-- The stems of the keys of a range, each once. -/
def stems (stemLen : Nat) (token : Option Token) (range : KeyRange) : Stream Bytes :=
  d.producing (d.streamStems stemLen token range)

/-! ## Streams over windows -/

/-- The values of keys, in the order of the keys. -/
def getMany (token : Option Token) (keys : List Bytes) (sure : Bool) :
    Stream (Bytes × Option Bytes) :=
  .windowed [] ((d.keyWindows keys).map fun window => d.getWindow token window sure)

/-- Writes entries, and hands out what each key held just before if that is wanted. -/
def putMany (entries : List Entry) (wantsPrevious : Bool) : Stream (Option Bytes) :=
  .windowed [] ((d.entryWindows entries).map fun window => d.putWindow window wantsPrevious)

/-! ## Replacement -/

/-- The step that writes a window, refused if one of its keys lies outside a range. -/
def writeStep (range : KeyRange) (window : List Entry) : Step Unit :=
  match window.find? fun e => !range.contains e.1 with
  | some (key, _) =>
    .error (.invalidArgument s!"key {key.label} is outside range {range.display}")
  | none => .ok (discard <| d.putWindow window false)

/-- The steps that write entries into a range, window by window. -/
def writeSteps (range : KeyRange) (entries : List Entry) : List (Step Unit) :=
  (d.entryWindows entries).map (d.writeStep range)

/-- The steps that replace the entries of a range. -/
def replaceSteps (range : KeyRange) (entries : List Entry) : List (Step Unit) :=
  .ok (d.deleteRange range) :: d.writeSteps range entries

/-- Removes the entries of a range, hands them out, and writes new entries when the end is asked
for. -/
def replaced (range : KeyRange) (entries : List Entry) : Stream Entry :=
  .followed (.idle d.config.streamBuffer (d.drain range)) false (d.writeSteps range entries)

end SnapshotStore.Dictionary
