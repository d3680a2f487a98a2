import SnapshotStore.Lock.Striped
import SnapshotStore.Work.Basic
import SnapshotStore.Work.Channel

/-!
# Running work

A backend is the shared state that work acts on: the engine, the snapshots of a database and the
stripes of a dictionary.  `Backend.answer?` is one atomic step of it; entering a stripe that does
not let anybody in is the only step that has to wait.

* `Work.advance` — runs work alone until it ends or has to wait.
* `Work.advanceTo` — runs work alone until it is about to perform a chosen effect.
* `Work.run` — the answer of work that nobody listens to.
-/

namespace SnapshotStore

/-- The shared state that work acts on. -/
structure Backend where
  /-- The engine. -/
  engine : FaultyEngine
  /-- The snapshots of the database. -/
  snapshots : Snapshots
  /-- The locks of the dictionary. -/
  stripes : Stripes

namespace Backend

/-- A new engine without snapshots and stripes. -/
def fresh (options : Engine.Options) : Backend := ⟨.reliable (.new options), .empty, []⟩

/-- Changes the lock of a stripe. -/
def setLock (b : Backend) (i : Nat) (l : StampedLock) : Backend :=
  { b with stripes := List.set b.stripes i l }

/-- One atomic step: its answer and the state after it, or nothing if it has to wait. -/
def answer? (b : Backend) : (q : Effect) → Option (q.Answer × Backend)
  | .ask c =>
    let (r, engine) := b.engine.answer c
    some (r, { b with engine })
  | .unpin s => some ((), { b with engine := b.engine.modify (·.unpin s) })
  | .resolve token => some (b.snapshots.resolve token, b)
  | .register s =>
    let (token, snapshots) := b.snapshots.register s
    some (token, { b with snapshots })
  | .forget token =>
    some (b.snapshots.sequence? token, { b with snapshots := b.snapshots.forget token })
  | .announce i => some ((), b.setLock i (b.stripes.lock i).announce)
  | .enter hold i => ((b.stripes.lock i).enter? hold).map fun l => ((), b.setLock i l)
  | .upgrade i =>
    match (b.stripes.lock i).upgrade? with
    | some l => some (true, b.setLock i l)
    | none => some (false, b)
  | .leave hold i => some ((), b.setLock i ((b.stripes.lock i).release hold))
  | .consult f current => some (f current, b)

/-- Unpins every live snapshot. -/
def releaseAll (b : Backend) : Backend :=
  { b with
    engine := b.engine.modify fun e => b.snapshots.live.foldl (fun e x => e.unpin x.2) e
    snapshots := { b.snapshots with live := [] } }

end Backend

/-- How far work came. -/
inductive Progress (ε α : Type) where
  | ended (r : Outcome α)
  /-- The rest of the work, whose next step has to wait. -/
  | waits (rest : Work ε α)

namespace Outcome

/-- The answer of an operation whose work ended; a breakdown is an internal failure. -/
def toExcept {α : Type} : Outcome α → Except StoreError α
  | done a => .ok a
  | failed e => .error e
  | panicked => .error (.internal "storage task failed:")

end Outcome

namespace Work

variable {ε α : Type}

/-- Runs work until it ends, has to wait, or is about to perform a chosen effect. -/
def advanceTo (stop : Effect → Bool) :
    Work ε α → Backend → Channel ε → Progress ε α × Backend × Channel ε
  | finish r, b, c => (.ended r, b, c)
  | perform q next, b, c =>
    if stop q then (.waits (perform q next), b, c)
    else
      match b.answer? q with
      | some (a, b') => (next a).advanceTo stop b' c
      | none => (.waits (perform q next), b, c)
  | send item next, b, c =>
    match c.send? item with
    | some (heard, c') => (next heard).advanceTo stop b c'
    | none => (.waits (send item next), b, c)

/-- Runs work until it ends or has to wait. -/
def advance (w : Work ε α) (b : Backend) (c : Channel ε) : Progress ε α × Backend × Channel ε :=
  w.advanceTo (fun _ => false) b c

/-- Runs work that nobody listens to.  Run alone it never has to wait; if it did, the answer would
never come. -/
def run (w : Work ε α) (b : Backend) : Except StoreError α × Backend :=
  match w.advance b .deserted with
  | (.ended r, b, _) => (r.toExcept, b)
  | (.waits _, b, _) => (.error (.internal "operation waits for ever"), b)

end Work

end SnapshotStore
