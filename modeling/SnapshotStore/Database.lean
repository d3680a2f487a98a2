import SnapshotStore.Dictionary.Streams
import SnapshotStore.Dictionary.Update

/-!
# Databases

A database opens dictionaries on one engine, registers snapshots of all of them, and runs the work
of its dictionaries on a pool.  Several databases may share an engine, and a database may run on a
pool that it did not make; closing it then leaves the pool open.

* `Store` — a database together with its engine.
* `Store.Op` — operations that change a store and may fail.
* `Store.submit` — runs work of a dictionary.

After `Store.close` every operation that needs the pool of the database or its engine fails.
-/

namespace SnapshotStore

/-- A database. -/
structure Database where
  /-- The name of the database. -/
  name : String
  /-- The name of the engine. -/
  engineName : String
  /-- The choices of the database. -/
  config : Config
  /-- The pool that runs its work. -/
  pool : Pool
  /-- Whether closing the database closes the pool. -/
  ownsPool : Bool
  /-- The snapshots. -/
  snapshots : Snapshots
  /-- The open dictionaries with their locks. -/
  dictionaries : List (Dictionary × Stripes)
  /-- Whether the database is closed. -/
  isClosed : Bool

namespace Database

/-- The name of a database that does not choose one. -/
def standardName : String := "keyspan"

/-- The engine choices of a database that makes its own engine. -/
def engineOptions (config : Config) : Engine.Options :=
  { filterCapacity := config.bloomCapacity
    cursorChunk := config.cursorChunk
    nativeDeleteRange := config.nativeDeleteRange }

/-- A database without dictionaries, on a given pool or on one of its own. -/
def create (name engineName : String) (config : Config) (pool : Option Pool) :
    Except StoreError Database := do
  config.check.mapError ConfigError.toStore
  return {
    name, engineName, config
    pool := pool.getD (.new s!"{name}-storage" config.maxConcurrentOps config.maxConcurrentScans)
    ownsPool := pool.isNone
    snapshots := .empty
    dictionaries := []
    isClosed := false }

/-- The names of the open dictionaries, in order. -/
def dictionaryNames (db : Database) : List String :=
  (db.dictionaries.map (·.1.name)).mergeSort (· ≤ ·)

/-- The open dictionary with a name. -/
def find? (db : Database) (name : String) : Option Dictionary :=
  (db.dictionaries.find? (·.1.name == name)).map (·.1)

/-- The locks of a dictionary. -/
def stripes (db : Database) (d : Dictionary) : Stripes :=
  ((db.dictionaries.find? (·.1.name == d.name)).map (·.2)).getD []

/-- Replaces the locks of a dictionary. -/
def setStripes (db : Database) (d : Dictionary) (l : Stripes) : Database :=
  { db with
    dictionaries := db.dictionaries.map fun e => if e.1.name == d.name then (e.1, l) else e }

/-- The inspection text of the database. -/
def inspect (db : Database) : String :=
  Text.record "Database" [("name", Text.quote db.name), ("engine", Text.quote db.engineName),
    ("dictionaries", toString db.dictionaries.length),
    ("snapshots", toString db.snapshots.live.length), ("closed", Text.flag db.isClosed)]

end Database

/-- A database with its engine. -/
structure Store where
  /-- The engine. -/
  engine : FaultyEngine
  /-- The database. -/
  database : Database

namespace Store

/-- An operation on a store; what it changed stays changed if it fails. -/
abbrev Op (α : Type) := ExceptT StoreError (StateM Store) α

/-! ## Running work -/

/-- What the work of a dictionary acts on. -/
def backend (s : Store) (d : Dictionary) : Backend :=
  ⟨s.engine, s.database.snapshots, s.database.stripes d⟩

/-- The store after work of a dictionary. -/
def absorb (s : Store) (d : Dictionary) (pool : Pool) (b : Backend) : Store :=
  ⟨b.engine, { s.database with pool, snapshots := b.snapshots }.setStripes d b.stripes⟩

/-- Applies a function of the pool and of what a dictionary acts on. -/
def onBackend {α : Type} (d : Dictionary) (f : Pool → Backend → α × Pool × Backend) :
    StateM Store α := fun s =>
  let (a, pool, b) := f s.database.pool (s.backend d)
  (a, s.absorb d pool b)

/-- Runs work of a dictionary on the pool. -/
def submit {α : Type} (d : Dictionary) (w : Work Empty α) : Op α :=
  ExceptT.mk <| onBackend d fun p b =>
    let (r, b) := p.run w b
    (r, p, b)

/-- Runs a step of a dictionary. -/
def submitStep {α : Type} (d : Dictionary) : Step α → Op α
  | .ok w => submit d w
  | .error e => throw e

/-- Runs steps of a dictionary up to the first failure. -/
def runSteps (d : Dictionary) (steps : List (Step Unit)) : Op Unit :=
  ExceptT.mk <| onBackend d fun p b =>
    let (r, b) := p.runSteps steps b
    (r, p, b)

/-- Runs work that belongs to no dictionary on the pool. -/
def submitPlain {α : Type} (w : Work Empty α) : Op α :=
  ExceptT.mk fun s =>
    let (r, b) := s.database.pool.run w ⟨s.engine, s.database.snapshots, []⟩
    (r, ⟨b.engine, { s.database with snapshots := b.snapshots }⟩)

/-- Asks a stream for at most `n` items. -/
def pollMany {ε : Type} (d : Dictionary) (n : Nat) (x : Stream ε) :
    StateM Store (List (Except StoreError ε) × Bool × Stream ε) :=
  onBackend d (x.pollMany n)

/-- Drops a stream. -/
def drop {ε : Type} (d : Dictionary) (x : Stream ε) : StateM Store Unit :=
  onBackend d fun p b => ((), x.drop p b)

/-! ## The database -/

/-- Refuses operations after `close`. -/
def checkOpen : Op Unit := do
  if (← get).database.isClosed then throw .closed

/-- Calls the engine outside the pool. -/
def callEngine (operation context : String) (c : EngineCall) : Op c.Answer :=
  ExceptT.mk fun s =>
    let (r, engine) := s.engine.answer c
    (r.mapError (.ofEngine operation context), { s with engine })

/-- The dictionary with a name, which is opened if it is not open yet.  Its mode is fixed when it is
first opened. -/
def dictionary (name : String) (mode : UpdateMode) : Op Dictionary := do
  checkOpen
  let db := (← get).database
  match db.find? name with
  | some d =>
    if d.mode = mode then return d
    else throw (.invalidArgument
      s!"dictionary {name} is already open with update mode {d.mode.name}")
  | none =>
    let column ← callEngine "open column" name (.createColumn name)
    let striping := match mode with
      | .allow => some (Striping.ofCount db.config.stripes)
      | .disallow => none
    let d : Dictionary := {
      name, column, mode, striping
      databaseName := db.name
      engineName := db.engineName
      deletesRanges :=
        (← get).engine.engine.options.nativeDeleteRange && db.config.nativeDeleteRange
      config := db.config }
    let locks := (striping.map Stripes.idle).getD []
    modify fun s =>
      let dictionaries := s.database.dictionaries ++ [(d, locks)]
      { s with database := { s.database with dictionaries } }
    return d

/-- Pins the newest state of all dictionaries under a new token. -/
def takeSnapshot : Op Token := do
  checkOpen
  submitPlain (Work.takeSnapshot (← get).database.engineName)

/-- Unpins a snapshot, which has to be live. -/
def releaseSnapshot (token : Token) : Op Unit := submitPlain (Work.releaseSnapshot token)

/-- Unpins every live snapshot. -/
def releaseAll (s : Store) : Store :=
  let b := (Backend.mk s.engine s.database.snapshots []).releaseAll
  ⟨b.engine, { s.database with snapshots := b.snapshots }⟩

/-- Makes earlier writes durable. -/
def flush : Op Unit := do
  checkOpen
  callEngine "flush" (← get).database.name .flush

/-- Closes the database: its pool if it owns it, its snapshots, and the engine.  Closing it again
does nothing. -/
def close : Op Unit := do
  let s ← get
  if s.database.isClosed then return
  let pool := if s.database.ownsPool then s.database.pool.close else s.database.pool
  set { s with database := { s.database with isClosed := true, pool } }.releaseAll
  let flushed ← observing (callEngine "flush" s.database.name .flush)
  modify fun s => { s with engine := s.engine.modify Engine.close }
  ofExcept flushed
where
  /-- The result of an operation, as a value. -/
  observing {α : Type} (op : Op α) : Op (Except StoreError α) := ExceptT.mk (.ok <$> op.run)
  /-- The operation with a given result. -/
  ofExcept {α : Type} (r : Except StoreError α) : Op α := ExceptT.mk (pure r)

/-! ## Dictionaries -/

/-- Replaces the entries of a range. -/
def setRange (d : Dictionary) (range : KeyRange) (entries : List Entry) : Op Unit :=
  runSteps d (d.replaceSteps range entries)

/-- The first key of a range, now or at a snapshot. -/
def getFirstKey (d : Dictionary) (token : Option Token) (range : KeyRange) : Op (Option Bytes) := do
  return (← submit d (d.getFirst token range)).map Prod.fst

/-- Whether a range is empty, now or at a snapshot. -/
def isEmpty (d : Dictionary) (token : Option Token) (range : KeyRange) : Op Bool := do
  return (← submit d (d.getFirst token range)).isNone

/-- Runs several pieces of work, and answers all their values or the first failure. -/
def submitAll {α : Type} (d : Dictionary) (ws : List (Work Empty α)) : Op (List α) :=
  ExceptT.mk do
    let rs ← ws.mapM fun w => (submit d w).run
    return rs.mapM id

/-- The number of keys of a view, counted shard by shard. -/
def countShards (d : Dictionary) (view : ReadView) : Op Nat := do
  let counts ← submitAll d
    ((Dictionary.shards d.config.exactSizeShards).map fun r => d.count view r none)
  return counts.foldr (· + ·) 0

/-- The number of all keys of a view; the newest state is pinned while it is counted. -/
def exactSize (d : Dictionary) : ReadView → Op Nat
  | .at s => countShards d (.at s)
  | .latest => do
    let sequence ← submit d (Work.call "snapshot" d.engineName .snapshot)
    ExceptT.mk do
      let r ← (countShards d (.at sequence)).run
      modify fun s => { s with engine := s.engine.modify (·.unpin sequence) }
      return r

/-- A quick answer to the number of all keys: what the engine says of the newest state, and a count
up to a cap at a snapshot. -/
def fastSize (d : Dictionary) : ReadView → Op Nat
  | .latest => submit d (Work.call "estimate" d.name (.estimate d.column))
  | .at s => submit d (d.count (.at s) .all (some (max d.config.fastSizeScanCap 1)))

/-- The number of keys of a range, now or at a snapshot. -/
def size (d : Dictionary) (token : Option Token) (range : KeyRange) (fast : Bool) : Op Nat := do
  let view ← ExceptT.mk (pure ((← get).database.snapshots.resolve token))
  if range.isAll then
    if fast then fastSize d view else exactSize d view
  else submit d (d.count view range none)

/-- Removes and answers the first entry of a range.  Nobody else writes meanwhile, so one attempt is
enough. -/
def removeFirst (d : Dictionary) (range : KeyRange) : Op (Option Entry) :=
  submit d (d.removeFirst range 1)

end Store

end SnapshotStore
