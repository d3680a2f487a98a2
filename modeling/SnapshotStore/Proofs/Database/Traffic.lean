import SnapshotStore.Host
import SnapshotStore.Proofs.Database.Request

/-!
# Traffic of databases that share engines

Callers send requests to several databases on several engines, and keep streams and counts of sizes
open while other requests run.  What they saw is kept as a log.  The numbers of the snapshots that
were taken and released are read off that log.
-/

namespace SnapshotStore

/-! ## What goes on -/

/-- A stream in the hands of a caller. -/
structure Flight : Type 1 where
  /-- The database. -/
  database : Nat
  /-- The number of its engine. -/
  engine : Nat
  /-- The stream. -/
  stream : OpenStream

/-- A size that is being counted at a sequence that is pinned for it. -/
structure Count where
  /-- The database. -/
  database : Nat
  /-- The number of its engine. -/
  engine : Nat
  /-- The dictionary. -/
  dictionary : Dictionary
  /-- The pinned sequence. -/
  sequence : Nat

/-- What a caller saw. -/
inductive Event where
  /-- A request of a database was answered. -/
  | answered (database : Nat) (request : Request) (reply : Reply)
  /-- A stream or a count showed failures. -/
  | showed (failures : List StoreError)

/-- The snapshot of a database that an event says was taken. -/
def Event.issued? (i : Nat) : Event → Option Token
  | answered j request reply => if j = i then request.issued? reply else none
  | showed _ => none

/-- The snapshot of a database that an event says was released. -/
def Event.released? (i : Nat) : Event → Option Token
  | answered j request reply => if j = i then request.released? reply else none
  | showed _ => none

/-- The failures that an event shows. -/
def Event.failures : Event → List StoreError
  | answered _ _ reply => reply.failures
  | showed failures => failures

/-- Databases with what their callers have open, and what the callers saw. -/
structure Traffic : Type 1 where
  /-- The engines and databases. -/
  host : Host
  /-- The streams in the hands of callers. -/
  streams : List Flight
  /-- The sizes that are being counted. -/
  counts : List Count
  /-- What callers saw, oldest first. -/
  log : List Event

/-- What can happen next. -/
inductive Command where
  /-- A database is created on an engine. -/
  | create (engine : Nat) (name engineName : String) (config : Config) (pool : Option Pool)
  /-- A request is answered. -/
  | ask (database : Nat) (request : Request)
  /-- A caller gets the stream that a request asks for. -/
  | take (database : Nat) (request : Request)
  /-- A caller asks a stream for at most `n` items. -/
  | poll (stream n : Nat)
  /-- A caller drops a stream. -/
  | drop (stream : Nat)
  /-- The newest state is pinned to count the entries of an open dictionary. -/
  | startCount (database : Nat) (name : String)
  /-- The entries of a range are counted. -/
  | count (count : Nat) (range : KeyRange)
  /-- A count is complete or given up. -/
  | endCount (count : Nat)
  /-- The owner of a pool that a database shares closes it. -/
  | closePool (database : Nat)
  /-- An engine compacts a column. -/
  | compact (engine column : Nat)
  /-- A failure of an engine is scheduled. -/
  | schedule (engine : Nat) (fault : Fault)

namespace Traffic

/-- Engines without databases. -/
def start (options : List Engine.Options) : Traffic :=
  ⟨⟨options.map fun o => .reliable (.new o), []⟩, [], [], []⟩

/-- The state after a command.  A command that names something that is not there does nothing. -/
def step (x : Traffic) : Command → Traffic
  | .create n name engineName config pool =>
    match Database.create name engineName config pool with
    | .ok db => { x with host.databases := x.host.databases ++ [(n, db)] }
    | .error _ => x
  | .ask i request =>
    match Host.on i request.run x.host with
    | (some reply, host) => { x with host, log := x.log ++ [.answered i request reply] }
    | (none, _) => x
  | .take i request =>
    match x.host.databases[i]? with
    | some (n, db) =>
      match request.stream? db with
      | some stream => { x with streams := x.streams ++ [⟨i, n, stream⟩] }
      | none => x
    | none => x
  | .poll k n =>
    match x.streams[k]? with
    | some f =>
      match Host.on f.database (Store.pollMany f.stream.dictionary n f.stream.stream) x.host with
      | (some (items, _, stream), host) =>
        { x with
          host
          streams := x.streams.set k { f with stream := ⟨f.stream.dictionary, _, stream⟩ }
          log := x.log ++ [.showed (items.filterMap failure?)] }
      | (none, _) => x
    | none => x
  | .drop k =>
    match x.streams[k]? with
    | some f =>
      match Host.on f.database (Store.drop f.stream.dictionary f.stream.stream) x.host with
      | (some (), host) => { x with host, streams := x.streams.eraseIdx k }
      | (none, _) => x
    | none => x
  | .startCount i name =>
    match x.host.databases[i]? with
    | some (n, db) =>
      match db.find? name with
      | some d =>
        match Host.on i (Store.submit d (Work.call "snapshot" d.engineName .snapshot)).run x.host with
        | (some (.ok q), host) => { x with host, counts := x.counts ++ [⟨i, n, d, q⟩] }
        | (some (.error e), host) => { x with host, log := x.log ++ [.showed [e]] }
        | (none, _) => x
      | none => x
    | none => x
  | .count k range =>
    match x.counts[k]? with
    | some c =>
      match Host.on c.database
          (Store.submit c.dictionary (c.dictionary.count (.at c.sequence) range none)).run x.host with
      | (some r, host) => { x with host, log := x.log ++ [.showed (failure? r).toList] }
      | (none, _) => x
    | none => x
  | .endCount k =>
    match x.counts[k]? with
    | some c =>
      match Host.on c.database (fun s => ((), { s with engine := s.engine.modify (·.unpin c.sequence) }))
          x.host with
      | (some (), host) => { x with host, counts := x.counts.eraseIdx k }
      | (none, _) => x
    | none => x
  | .closePool i =>
    match Host.on i (fun s => ((), { s with database.pool := s.database.pool.close })) x.host with
    | (some (), host) => { x with host }
    | (none, _) => x
  | .compact n column =>
    { x with host.engines := x.host.engines.modify n fun e => (e.answer (.compact column)).2 }
  | .schedule n fault => { x with host.engines := x.host.engines.modify n (·.schedule fault) }

/-- The state after several commands. -/
def run (x : Traffic) (commands : List Command) : Traffic := commands.foldl step x

/-! ## What callers saw -/

/-- The numbers of the snapshots of a database that were taken, oldest first. -/
def issued (x : Traffic) (i : Nat) : List Token := x.log.filterMap (·.issued? i)

/-- The numbers of the snapshots of a database that were released, oldest first. -/
def released (x : Traffic) (i : Nat) : List Token := x.log.filterMap (·.released? i)

/-- The failures that callers saw. -/
def failures (x : Traffic) : List StoreError := x.log.flatMap Event.failures

end Traffic

end SnapshotStore
