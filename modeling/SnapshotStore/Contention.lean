import SnapshotStore.Database

/-!
# An update under contention

One update is stopped just before the first run of its updater.  Meanwhile somebody may write to the
engine without any lock, and a second update of the same key, which changes nothing, may hold the
stripe shared all the while, until the first one has to wait for it.

* `Intrusion` — what is written without a lock.
* `Work.record` — runs work and records what its updater is shown.
* `Store.contend` — the scenario.
-/

namespace SnapshotStore

/-- A write to a key by somebody who holds no lock. -/
inductive Intrusion where
  | put (value : Bytes)
  | delete
  deriving DecidableEq, Repr

/-- The call that an intruder makes. -/
def Intrusion.call (column : Nat) (key : Bytes) : Intrusion → EngineCall
  | put value => .put column key value
  | delete => .delete column key

/-- The engine after an intrusion, if there is one.  The intruder does not look at the answer. -/
def FaultyEngine.intrude (e : FaultyEngine) (column : Nat) (key : Bytes) :
    Option Intrusion → FaultyEngine
  | some i => (e.answer (i.call column key)).2
  | none => e

/-- Whether an effect runs an updater. -/
def Effect.isConsult : Effect → Bool
  | consult .. => true
  | _ => false

/-- Runs work until it ends or has to wait, and records the values that its updater is shown, at
most as many as the fuel. -/
def Work.record {ε α : Type} : Nat → Work ε α → Backend → Channel ε →
    List (Option Bytes) × Progress ε α × Backend × Channel ε
  | 0, w, b, c => ([], w.advance b c)
  | fuel + 1, w, b, c =>
    match w.advanceTo Effect.isConsult b c with
    | (.waits (.perform (.consult f current) next), b, c) =>
      let (seen, r) := (next (f current)).record fuel b c
      (current :: seen, r)
    | r => ([], r)

/-- Goes on with work that was stopped. -/
def Progress.record {ε α : Type} (fuel : Nat) (p : Progress ε α) (b : Backend) (c : Channel ε) :
    List (Option Bytes) × Progress ε α × Backend × Channel ε :=
  match p with
  | .ended r => ([], .ended r, b, c)
  | .waits w => w.record fuel b c

namespace Store

/-- The values that the first update was shown, and its answer. -/
structure Contended where
  /-- What the updater was shown, run by run. -/
  seen : List (Option Bytes)
  /-- The answer of the update. -/
  answer : Except StoreError (Delta Bytes)

/-- Runs a first update against an intruder and, if the stripe is to be shared, a second update that
holds it.  The second one trusts that the key exists, so it does not ask the filter.  If the first
one ends before its updater runs, there is no moment for the intruder. -/
def race (d : Dictionary) (column : Nat) (key : Bytes) (f : Updater) (sure isShared : Bool)
    (meanwhile : Option Intrusion) : StateM Store Contended :=
  onBackend d fun p b =>
    match d.update key f sure, d.update key some true, p.isClosed with
    | .error e, _, _ | _, .error e, _ => (⟨[], .error e⟩, p, b)
    | _, _, true => (⟨[], .error .closed⟩, p, b)
    | .ok first, .ok second, false =>
      let nobody : Channel Empty := .deserted
      let (second, b, _) :=
        if isShared then second.advanceTo Effect.isConsult b nobody
        else (.ended .panicked, b, nobody)
      let (first, b, _) := first.advanceTo Effect.isConsult b nobody
      let b := match first with
        | .waits _ => { b with engine := b.engine.intrude column key meanwhile }
        | .ended _ => b
      let (seen, first, b, _) := first.record 2 b nobody
      let (_, _, b, _) := second.record 2 b nobody
      let (seenLater, first, b, _) := first.record 2 b nobody
      let answer := match first with
        | .ended r => r.toExcept
        | .waits _ => .error (.internal "operation waits for ever")
      (⟨seen ++ seenLater, answer⟩, p, b)

/-- Runs the scenario.  The intruder finds its way by the name of the dictionary; if the engine does
not know it, nothing else happens. -/
def contend (d : Dictionary) (key : Bytes) (f : Updater) (sure isShared : Bool)
    (meanwhile : Option Intrusion) : ExceptT EngineError (StateM Store) Contended := do
  let column ← ExceptT.mk fun s =>
    let (r, engine) := s.engine.answer (.createColumn d.name)
    (r, { s with engine })
  race d column key f sure isShared meanwhile

end Store

end SnapshotStore
