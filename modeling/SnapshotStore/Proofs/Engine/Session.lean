import SnapshotStore.Engine.Call
import SnapshotStore.Proofs.Engine.History

/-!
# Sessions with an engine

A session is an engine together with what its clients know: the ledger of what they committed, the
snapshots that they took and did not release, and the cursors that they opened with every answer so
far.  An act is one call of a client; a run is any finite list of acts.

The ledger is kept without looking at the engine.  It says which columns exist, which batches were
committed and whether the engine was closed, and so it is what the answers of the engine are
measured against.

A cursor is asked for its next entry in one act (`Act.advance`) or turn by turn (`Act.turn`), where
a turn is one pass through the loop that looks for an entry; between two turns other clients may
act.
-/

namespace SnapshotStore

/-! ## The ledger -/

/-- What was committed, said without an engine. -/
structure Ledger where
  /-- The names of the columns, by number. -/
  names : List String
  /-- The committed batches. -/
  history : History
  /-- Whether calls are still accepted. -/
  isOpen : Bool

namespace Ledger

/-- The ledger of a new engine. -/
def empty : Ledger := ⟨[], [], true⟩

/-- A batch is committed if it has operations and its column exists. -/
def commit (l : Ledger) (column : Nat) (batch : WriteBatch) : Ledger :=
  if l.isOpen ∧ column < l.names.length ∧ batch ≠ [] then
    { l with history := l.history ++ [(column, batch)] }
  else l

/-- What a call commits. -/
def call (l : Ledger) : EngineCall → Ledger
  | .createColumn name =>
    if l.isOpen ∧ name ∉ l.names then { l with names := l.names ++ [name] } else l
  | .put column key value => l.commit column [.put key value]
  | .delete column key => l.commit column [.delete key]
  | .write column batch => l.commit column batch
  | _ => l

/-- No call is accepted any more. -/
def close (l : Ledger) : Ledger := { l with isOpen := false }

/-- The sequence that a view refers to. -/
def sequenceOf (l : Ledger) : ReadView → Nat
  | .latest => l.history.length
  | .at s => s

end Ledger

/-! ## Cursors of clients -/

/-- A cursor with what its client knows of it. -/
structure Reader where
  /-- The column that it was opened on. -/
  column : Nat
  /-- The range that it was opened with. -/
  range : KeyRange
  /-- The sequence of the view that it was opened at. -/
  sequence : Nat
  /-- The cursor. -/
  cursor : Cursor
  /-- Its answers so far, oldest first. -/
  answers : List (Except EngineError (Option Entry))
  /-- Whether it was not dropped yet. -/
  isOpen : Bool

namespace Reader

/-- The reader after one more answer. -/
def answered (r : Reader) (answer : Except EngineError (Option Entry)) (cursor : Cursor) : Reader :=
  { r with cursor, answers := r.answers ++ [answer] }

/-- The reader after it was asked for its next entry. -/
def advance (r : Reader) (e : Engine) : Reader :=
  match e.next r.cursor with
  | .ok (entry, cursor) => r.answered (.ok entry) cursor
  | .error failure => r.answered (.error failure) r.cursor

/-- The reader after one pass through the loop that looks for its next entry: an answer, or one more
chunk. -/
def turn (r : Reader) (e : Engine) : Reader :=
  match r.cursor.buffer with
  | entry :: rest => r.answered (.ok (some entry)) { r.cursor with buffer := rest }
  | [] =>
    if r.cursor.isExhausted then r.answered (.ok none) r.cursor
    else
      match e.refill r.cursor with
      | .ok cursor => { r with cursor }
      | .error failure => r.answered (.error failure) r.cursor

end Reader

/-! ## Acts and runs -/

/-- An engine with what its clients know. -/
structure Session where
  /-- The engine. -/
  engine : Engine
  /-- What was committed. -/
  ledger : Ledger
  /-- The sequences of the snapshots that were taken and not released. -/
  snapshots : List Nat
  /-- The cursors in the order in which they were opened. -/
  readers : List Reader

namespace Session

/-- One call of a client. -/
inductive Act where
  /-- A call that can fail; a cursor that it opens is kept. -/
  | call (c : EngineCall)
  /-- The release of a snapshot. -/
  | release (sequence : Nat)
  /-- A cursor is asked for its next entry. -/
  | advance (reader : Nat)
  /-- A cursor that was asked for its next entry takes one turn. -/
  | turn (reader : Nat)
  /-- A cursor is dropped. -/
  | drop (reader : Nat)
  /-- The engine is closed. -/
  | close

/-- The session with a new engine. -/
def start (options : Engine.Options) : Session := ⟨.new options, .empty, [], []⟩

/-- The snapshot that a call takes. -/
def takenBy : (c : EngineCall) → Except EngineError c.Answer → List Nat
  | .snapshot, .ok s => [s]
  | _, _ => []

/-- The cursor that a call opens. -/
def openedBy (l : Ledger) : (c : EngineCall) → Except EngineError c.Answer → List Reader
  | .scan column view range, .ok cursor =>
    [{ column, range, cursor, sequence := l.sequenceOf view, answers := [], isOpen := true }]
  | _, _ => []

/-- The session after something happened to an open reader. -/
def onReader (s : Session) (i : Nat) (f : Reader → Session) : Session :=
  match s.readers[i]? with
  | some r => if r.isOpen then f r else s
  | none => s

/-- The session after an act. -/
def step (s : Session) : Act → Session
  | .call c =>
    { engine := (s.engine.answer c).2
      ledger := s.ledger.call c
      snapshots := s.snapshots ++ takenBy c (s.engine.answer c).1
      readers := s.readers ++ openedBy s.ledger c (s.engine.answer c).1 }
  | .release q => { s with engine := s.engine.unpin q, snapshots := s.snapshots.erase q }
  | .advance i => s.onReader i fun r => { s with readers := s.readers.set i (r.advance s.engine) }
  | .turn i => s.onReader i fun r => { s with readers := s.readers.set i (r.turn s.engine) }
  | .drop i => s.onReader i fun r =>
    { s with
      engine := s.engine.unpin r.cursor.sequence
      readers := s.readers.set i { r with isOpen := false } }
  | .close => { s with engine := s.engine.close, ledger := s.ledger.close }

/-- The session after some acts. -/
def after (s : Session) (acts : List Act) : Session := acts.foldl step s

/-- The session with a new engine after some acts. -/
def run (options : Engine.Options) (acts : List Act) : Session := (start options).after acts

/-- Without acts nothing changes. -/
@[simp] theorem after_nil (s : Session) : s.after [] = s := rfl

/-- The first act comes first. -/
@[simp] theorem after_cons (s : Session) (a : Act) (acts : List Act) :
    s.after (a :: acts) = (s.step a).after acts := rfl

/-- A snapshot is released only if it was taken, and once. -/
def Permits (s : Session) : Act → Prop
  | .release q => q ∈ s.snapshots
  | _ => True

/-- Every snapshot that some acts release was taken before and is released once. -/
def Matched (s : Session) : List Act → Prop
  | [] => True
  | a :: acts => s.Permits a ∧ (s.step a).Matched acts

/-- An invariant of all steps holds after every run. -/
theorem run_induction {P : Session → Prop} {options : Engine.Options} (hstart : P (start options))
    (hstep : ∀ s a, P s → P (s.step a)) (acts : List Act) : P (run options acts) := by
  have hafter : ∀ acts s, P s → P (s.after acts) := by
    intro acts
    induction acts with
    | nil => exact fun s hs => hs
    | cons a acts ih => exact fun s hs => ih _ (hstep s a hs)
  exact hafter acts _ hstart

/-- An invariant of the permitted steps holds after every run with matched releases. -/
theorem matched_induction {P : Session → Prop} {options : Engine.Options}
    (hstart : P (start options)) (hstep : ∀ s a, P s → s.Permits a → P (s.step a))
    (acts : List Act) (hmatched : (start options).Matched acts) : P (run options acts) := by
  have hafter : ∀ acts s, P s → s.Matched acts → P (s.after acts) := by
    intro acts
    induction acts with
    | nil => exact fun s hs _ => hs
    | cons a acts ih => exact fun s hs hm => ih _ (hstep s a hs hm.1) hm.2
  exact hafter acts _ hstart hmatched

end Session

end SnapshotStore
