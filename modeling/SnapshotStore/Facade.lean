import SnapshotStore.SubMap

/-!
# The facade

The outermost interface to a database: the same operations, with failures as a caller of the whole
library sees them.
-/

namespace SnapshotStore.Facade

/-- An operation that reports failures of the facade. -/
abbrev Op (α : Type) := ExceptT FacadeError (StateM Store) α

/-- A store operation with its failures as the facade reports them. -/
def lift {α : Type} (op : Store.Op α) : Op α :=
  ExceptT.mk do return (← op.run).mapError .ofStore

/-- A database of a configuration file with the given content. -/
def configOfFile (processors : Nat) (content : Option ByteArray) : Except FacadeError Config :=
  (Config.ofFile processors content).mapError ConfigError.toFacade

/-- Opens a database. -/
def openDatabase (name engineName : String) (config : Config) (pool : Option Pool) :
    Except FacadeError Database :=
  (Database.create name engineName config pool).mapError .ofStore

/-- Opens a dictionary. -/
def dictionary (name : String) (mode : UpdateMode) : Op Dictionary :=
  lift (Store.dictionary name mode)

/-- Opens a nested map of a dictionary that admits updates. -/
def nestedMap (name : String) (stem : Bytes) (layout : KeyLayout) : Op SubMap :=
  lift do
    let d ← Store.dictionary name .allow
    ExceptT.mk (pure (SubMap.new d stem layout))

/-- Takes a snapshot. -/
def takeSnapshot : Op Token := lift Store.takeSnapshot

/-- Releases a snapshot. -/
def releaseSnapshot (token : Token) : Op Unit := lift (Store.releaseSnapshot token)

/-- Makes earlier writes durable. -/
def flush : Op Unit := lift Store.flush

/-- Closes the database. -/
def close : Op Unit := lift Store.close

/-- The inspection text of the facade. -/
def inspect (db : Database) : String := Text.record "Keyspan" [("database", db.inspect)]

end SnapshotStore.Facade
