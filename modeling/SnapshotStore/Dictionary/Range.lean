import SnapshotStore.Dictionary.Multi

/-!
# Dictionaries: ranges of keys

A range is walked with a cursor, which sees the state at its own sequence whatever is written
meanwhile.  A range of a single key is a point read under the key's stripe instead.

* `Dictionary.visit` — the walk; a visitor with a state decides after each entry whether to go on.
* `Dictionary.firstEntry`, `Dictionary.count` — walks that answer one value.
* `Dictionary.deleteRange`, `Dictionary.drain` — deletions, the latter handing out every entry.
* `Dictionary.removeFirst` — removes the first entry.
* `Dictionary.streamEntries`, `Dictionary.streamGroups`, `Dictionary.streamStems` — producers.
-/

namespace SnapshotStore.Dictionary

variable {ε γ σ : Type} (d : Dictionary)

/-! ## Walking -/

/-- Visits what a cursor still has.  The fuel is the budget of the cursor, which exceeds the number
of its entries. -/
def walk (context : String) (visitor : σ → Entry → Work ε (Bool × σ)) :
    Nat → Cursor → σ → Work ε σ
  | 0, _, s => pure s
  | fuel + 1, cursor, s => do
    match ← Work.call "iterate" context (.next cursor) with
    | (none, _) => return s
    | (some entry, cursor) =>
      let (goesOn, s) ← visitor s entry
      if goesOn then walk context visitor fuel cursor s else return s

/-- Visits the entries of a range in ascending key order until the visitor stops. -/
def visit (view : ReadView) (range : KeyRange) (visitor : σ → Entry → Work ε (Bool × σ)) (s : σ) :
    Work ε σ :=
  match range.singleKey? with
  | some key =>
    Work.holding .shared (d.readStripes view [key]) do
      match ← d.read view key false with
      | some value => return (← visitor s (key, value)).2
      | none => return s
  | none => do
    let cursor ← Work.call "iterate" range.display (.scan d.column view range)
    (walk range.display visitor cursor.budget cursor s).ensuring
      (Work.effect (.unpin cursor.sequence))

/-- The first entry of a range. -/
def firstEntry (view : ReadView) (range : KeyRange) : Work ε (Option Entry) :=
  d.visit view range (fun _ entry => pure (false, some entry)) none

/-- The first entry of a range, now or at a snapshot. -/
def getFirst (token : Option Token) (range : KeyRange) : Work ε (Option Entry) := do
  d.firstEntry (← Work.view token) range

/-- The number of entries of a range, counted up to a cap if there is one. -/
def count (view : ReadView) (range : KeyRange) (cap : Option Nat) : Work ε Nat :=
  d.visit view range (fun n _ => pure (cap.all (n + 1 < ·), n + 1)) 0

/-! ## Deleting -/

/-- A batch, and how its last write went. -/
abbrev Deletions := CappedBatch × Except EngineError Unit

/-- Queues the deletion of a key. -/
def queueDelete (s : Deletions) (key : Bytes) : Work ε (Bool × Deletions) := do
  let (r, b) ← s.1.push (.delete key)
  return (r.isOk, (b, r))

/-- Writes what is queued; an earlier failure ends the work first. -/
def completeDeletes (context : String) (s : Deletions) : Work ε Unit := do
  Work.orFail "delete" context s.2
  discard <| Work.orFail "delete" context (← s.1.complete)

/-- Deletes the keys of a range: one by one if the range is a single key, as one operation if the
dictionary can do that, and else key by key along a walk. -/
def deleteRange (range : KeyRange) : Work ε Unit :=
  match range.singleKey? with
  | some key => Work.holding .exclusive (d.writeStripes [key]) (d.drop key)
  | none => do
    let s ← if d.deletesRanges then do
        let (r, b) ← d.batch.push (.deleteRange range)
        pure (b, r)
      else
        d.visit .latest range (fun s entry => queueDelete s entry.1) (d.batch, .ok ())
    completeDeletes range.display s

/-- Deletes the keys of a range along a walk, and sends every entry before its deletion is written.
The walk stops when nobody listens; the entry that was not taken is not deleted. -/
def drain (range : KeyRange) : Work Entry Unit := do
  let s ← d.visit .latest range (fun s entry => do
    if ← Work.emit entry then queueDelete s entry.1 else return (false, s)) (d.batch, .ok ())
  completeDeletes range.display s

/-- Removes and answers the first entry of a range.  Somebody else may remove it between the walk
and the write; then the walk starts over, at most as often as there are attempts. -/
def removeFirst (range : KeyRange) : Nat → Work ε (Option Entry)
  | 0 => Work.fail (.internal "every attempt was overtaken")
  | attempts + 1 => do
    match ← d.firstEntry .latest range with
    | none => return none
    | some (key, _) =>
      let taken ← Work.holding .exclusive (d.writeStripes [key]) do
        match ← d.read .latest key true with
        | some value =>
          d.drop key
          return some (key, value)
        | none => return none
      if taken.isSome then return taken else removeFirst range attempts

/-- Deletes every key, and then drops the versions that nobody can see. -/
def clear : Work ε Unit := do
  d.deleteRange .all
  Work.call "compact" d.name (.compact d.column)
  Work.call "flush" d.name .flush

/-! ## Producing -/

/-- Sends a part of every entry of a range. -/
def streamEntries (part : Entry → γ) (token : Option Token) (range : KeyRange) : Work γ Unit := do
  let view ← Work.view token
  d.visit view range (fun _ entry => do return (← Work.emit (part entry), ())) ()

/-- A group that is being collected: the stem of its keys and its items, and whether somebody still
listens. -/
structure Group (γ : Type) where
  /-- The common stem of the keys; none before the first. -/
  stem : Option Bytes
  /-- The items so far. -/
  items : List γ
  /-- Whether somebody listens. -/
  isHeard : Bool

/-- Adds an entry to its group; an entry with another stem first sends the group and starts the
next one. -/
def collect (part : Entry → γ) (stemLen : Nat) (g : Group γ) (entry : Entry) :
    Work (List γ) (Bool × Group γ) := do
  let stem := entry.1.stem stemLen
  if g.stem.all (· = stem) then
    return (g.isHeard, { g with stem := some stem, items := g.items ++ [part entry] })
  else
    let isHeard ← Work.emit g.items
    return (isHeard, ⟨some stem, [part entry], isHeard⟩)

/-- Sends a part of every entry of a range, in groups of entries whose keys share a stem. -/
def streamGroups (part : Entry → γ) (stemLen : Nat) (token : Option Token) (range : KeyRange) :
    Work (List γ) Unit := do
  let view ← Work.view token
  let g ← d.visit view range (collect part stemLen) ⟨none, [], true⟩
  if g.isHeard && !g.items.isEmpty then discard <| Work.emit g.items

/-- Sends every stem of the keys of a range once. -/
def streamStems (stemLen : Nat) (token : Option Token) (range : KeyRange) : Work Bytes Unit := do
  let view ← Work.view token
  discard <| d.visit view range (fun (last : Option Bytes) entry => do
    let stem := entry.1.stem stemLen
    if last = some stem then return (true, last)
    else return (← Work.emit stem, some stem)) none

/-! ## Parts of the key space -/

/-- Disjoint ranges by first byte that cover all keys, between one and 256 of them. -/
def shards (n : Nat) : List KeyRange :=
  let n := max 1 (min n 256)
  let bound (i : Nat) : Option Bytes :=
    if 0 < i && i < n then some [(i * 256 / n).toUInt8] else none
  (List.range n).map fun i =>
    match KeyRange.ofBounds (bound i) (bound (i + 1)) with
    | .ok r => r
    | .error _ => .all

end SnapshotStore.Dictionary
