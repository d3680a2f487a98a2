import SnapshotStore.Database

/-!
# Databases that share engines

A host has several engines and several databases, each on one of the engines.  Databases on the
same engine see each other's writes, pins and closing.
-/

namespace SnapshotStore

/-- Engines and the databases on them. -/
structure Host where
  /-- The engines. -/
  engines : List FaultyEngine
  /-- The databases, each with the number of its engine. -/
  databases : List (Nat × Database)

namespace Host

/-- The engine of a database. -/
def engine? (h : Host) (i : Nat) : Option FaultyEngine := do
  let (n, _) ← h.databases[i]?
  h.engines[n]?

/-- Applies an operation to a database and its engine; nothing happens if there is no such
database. -/
def on {α : Type} (i : Nat) (op : StateM Store α) : StateM Host (Option α) := fun h =>
  match h.databases[i]? with
  | none => (none, h)
  | some (n, database) =>
    match h.engines[n]? with
    | none => (none, h)
    | some engine =>
      let (a, s) := op.run ⟨engine, database⟩
      (some a, ⟨h.engines.set n s.engine, h.databases.set i (n, s.database)⟩)

end Host

end SnapshotStore
