import SnapshotStore.Proofs.Database.Script
import SnapshotStore.SubMap

/-!
# Requests

A request is whatever a caller may ask of one database: an operation of a script, an operation of a
nested map, or closing.  Requests for streams are answered in one go here, with at most `limit`
items (`Request.run`); the same stream can also be handed to the caller, who asks for its items
later (`Request.stream?`).
-/

namespace SnapshotStore

/-- The failure that an item of a stream may be. -/
def failure? {ε : Type} : Except StoreError ε → Option StoreError
  | .ok _ => none
  | .error e => some e

/-- The failures that a reply shows. -/
def Reply.failures : Reply → List StoreError
  | values items _ => items.filterMap failure?
  | previous items _ => items.filterMap failure?
  | entries items _ => items.filterMap failure?
  | keys items _ => items.filterMap failure?
  | groups items _ => items.filterMap failure?
  | keyGroups items _ => items.filterMap failure?
  | updated r _ => (failure? r).toList
  | refused e => [e]
  | _ => []

/-- An operation of a nested map.  The consumer of a stream asks for at most `limit` items and then
goes away. -/
inductive SubMapOp where
  | get (token : Option Token) (tail : Bytes)
  | put (tail value : Bytes) (result : ResultType)
  | remove (tail : Bytes) (result : ResultType)
  | update (tail : Bytes) (f : Updater)
  | size (token : Option Token) (fast : Bool)
  | isEmpty (token : Option Token)
  | clear
  | setAll (entries : List Entry)
  | getEntries (token : Option Token) (limit : Nat)
  | getKeys (token : Option Token) (limit : Nat)
  | getChildKeys (token : Option Token) (limit : Nat)

/-- What a caller asks of a database. -/
inductive Request where
  /-- An operation of a script. -/
  | act (a : Act)
  /-- An operation of the nested map under a stem of the open dictionary with a name. -/
  | nested (name : String) (stem : Bytes) (layout : KeyLayout) (op : SubMapOp)
  | close

/-! ## Answers -/

/-- The operation on a store. -/
def SubMapOp.run (m : SubMap) : SubMapOp → StateM Store Reply
  | get token tail => Store.answer .value (m.get token tail)
  | put tail value result => Store.answer .value (m.put tail value result)
  | remove tail result => Store.answer .value (m.remove tail result)
  | update tail f => fun s =>
    let (r, s') := (m.update tail f).run s
    (.updated r (s'.engine.engine.sequence - s.engine.engine.sequence), s')
  | size token fast => Store.answer .count (m.size token fast)
  | isEmpty token => Store.answer .truth (m.isEmpty token)
  | clear => Store.answer (fun _ => .done) m.clear
  | setAll entries => Store.answer (fun _ => .done) (m.setAll entries)
  | getEntries token limit => Store.collect m.dictionary .entries limit (m.entries token)
  | getKeys token limit => Store.collect m.dictionary .keys limit (m.keys token)
  | getChildKeys token limit => Store.collect m.dictionary .keys limit (m.childKeys token)

/-- The nested map under a stem of an open dictionary, if there is one. -/
def Database.nested? (db : Database) (name : String) (stem : Bytes) (layout : KeyLayout) :
    Option (Except StoreError SubMap) :=
  (db.find? name).map fun d => SubMap.new d stem layout

/-- The request on a store. -/
def Request.run : Request → StateM Store Reply
  | act a => a.run
  | nested name stem layout op => fun s =>
    match s.database.nested? name stem layout with
    | some (.ok m) => op.run m s
    | some (.error e) => (.refused e, s)
    | none => (.notOpen, s)
  | close => Store.answer (fun _ => .done) Store.close

/-! ## Snapshots -/

/-- The snapshot that a reply says was taken. -/
def Request.issued? : Request → Reply → Option Token
  | act .takeSnapshot, .token t => some t
  | _, _ => none

/-- The snapshot that a reply says was released. -/
def Request.released? : Request → Reply → Option Token
  | act (.releaseSnapshot t), .done => some t
  | _, _ => none

/-! ## Streams in the hands of a caller -/

/-- A stream of a dictionary, whatever its items are. -/
structure OpenStream : Type 1 where
  /-- The dictionary. -/
  dictionary : Dictionary
  /-- What its items are. -/
  Item : Type
  /-- The stream. -/
  stream : Stream Item

/-- The stream that an operation of a dictionary asks for. -/
def DictionaryOp.stream? (d : Dictionary) : DictionaryOp → Option OpenStream
  | getMany token keys sure _ => some ⟨d, _, d.getMany token keys sure⟩
  | getEntries token range _ => some ⟨d, _, d.entries token range⟩
  | getKeys token range _ => some ⟨d, _, d.keys token range⟩
  | getGroups stemLen token range _ => some ⟨d, _, d.groups stemLen token range⟩
  | getKeyGroups stemLen token range _ => some ⟨d, _, d.keyGroups stemLen token range⟩
  | getStems stemLen token range _ => some ⟨d, _, d.stems stemLen token range⟩
  | putMany entries wantsPrevious _ => some ⟨d, _, d.putMany entries wantsPrevious⟩
  | replaceRange range entries _ => some ⟨d, _, d.replaced range entries⟩
  | _ => none

/-- The stream that an operation of a nested map asks for. -/
def SubMapOp.stream? (m : SubMap) : SubMapOp → Option OpenStream
  | getEntries token _ => some ⟨m.dictionary, _, m.entries token⟩
  | getKeys token _ => some ⟨m.dictionary, _, m.keys token⟩
  | getChildKeys token _ => some ⟨m.dictionary, _, m.childKeys token⟩
  | _ => none

/-- The stream that a request asks for. -/
def Request.stream? (db : Database) : Request → Option OpenStream
  | act (.on name op) => (db.find? name).bind fun d => op.stream? d
  | nested name stem layout op =>
    match db.nested? name stem layout with
    | some (.ok m) => op.stream? m
    | _ => none
  | _ => none

end SnapshotStore
