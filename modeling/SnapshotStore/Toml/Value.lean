/-!
# TOML documents as values

A document is a table.  Every table remembers how it came to be, because that decides what later
lines may still add to it: a table with a header of its own is complete when the next header starts,
one that a longer header implied may still get its own header, one that a dotted key implied may
only grow by dotted keys, and an inline table never grows.

* `Toml.Table.descend` — the change of the table at the end of a path.
* `Toml.Table.define` — a key/value line, possibly with a dotted key.
* `Toml.Document` — the table so far, and the table under the last header.
-/

namespace SnapshotStore.Toml

/-- How a table came to be. -/
inductive Origin where
  | header
  | impliedByHeader
  | impliedByKey
  | inline
  deriving DecidableEq, Repr

/-- A TOML value. -/
inductive Value where
  | text (s : String)
  | integer (n : Int)
  | float
  | boolean (b : Bool)
  | moment
  | list (items : List Value)
  | table (origin : Origin) (entries : List (String × Value))
  /-- The tables of an array of tables; the last one may still grow. -/
  | rows (tables : List (List (String × Value)))

/-- The entries of a table. -/
abbrev Table := List (String × Value)

namespace Table

/-- The value of a key. -/
def get? (t : Table) (key : String) : Option Value := t.lookup key

/-- Gives a key a value, in its old place if it has one. -/
def set (t : Table) (key : String) (v : Value) : Table :=
  match t with
  | [] => [(key, v)]
  | (k, old) :: rest => if k = key then (k, v) :: rest else (k, old) :: set rest key v

/-- Removes a key. -/
def erase (t : Table) (key : String) : Table := t.filter (·.1 ≠ key)

/-- Changes the table at the end of a path, and makes the missing tables on the way.  A path made of
dotted keys may not pass a table with a header. -/
def descend (f : Origin → Table → Option Table) (dotted : Bool) :
    List String → Origin → Table → Option Table
  | [], origin, t => f origin t
  | key :: path, _, t => do
    match t.get? key with
    | none =>
      let origin := if dotted then Origin.impliedByKey else .impliedByHeader
      return t.set key (.table origin (← descend f dotted path origin []))
    | some (.table origin entries) =>
      if origin = .inline || (dotted && origin = .header) then none
      else return t.set key (.table origin (← descend f dotted path origin entries))
    | some (.rows tables) =>
      let last ← tables.getLast?
      return t.set key (.rows (tables.dropLast ++ [← descend f dotted path .header last]))
    | some _ => none

/-- Adds a key/value line.  A dotted key only grows tables that dotted keys made, and a key is
defined once. -/
def define (origin : Origin) (path : List String) (key : String) (v : Value) (t : Table) :
    Option Table :=
  descend (fun o t =>
    if !path.isEmpty && o ≠ .impliedByKey then none
    else if (t.get? key).isSome then none
    else some (t.set key v)) true path origin t

end Table

/-- The state of reading a document. -/
structure Document where
  /-- The table of the whole document, without the table under the last header. -/
  root : Table
  /-- The table under the last header. -/
  current : Table
  /-- The path of the last header; empty before the first. -/
  path : List String
  /-- Whether the last header belongs to an array of tables. -/
  isRow : Bool

namespace Document

/-- The document without lines. -/
def empty : Document := ⟨[], [], [], false⟩

/-- Puts the table under the last header into its place. -/
def close (d : Document) : Option Table :=
  match d.path.getLast? with
  | none => some d.current
  | some key =>
    Table.descend (fun _ t =>
      match t.get? key with
      | none =>
        some (t.set key (if d.isRow then .rows [d.current] else .table .header d.current))
      | some (.rows tables) =>
        if d.isRow then some (t.set key (.rows (tables ++ [d.current]))) else none
      | some _ => none) false d.path.dropLast .header d.root

/-- The entries of the table at a path, none if there is no table. -/
def entriesAt (t : Table) : List String → Table
  | [] => t
  | key :: path =>
    match t.get? key with
    | some (.table _ entries) => entriesAt entries path
    | some (.rows tables) => entriesAt (tables.getLast?.getD []) path
    | _ => []

/-- Starts the table of a header: a new one, or one that a longer header implied. -/
def startTable (d : Document) (path : List String) : Option Document := do
  let root ← d.close
  let key ← path.getLast?
  let rest ← Table.descend (fun _ t =>
    match t.get? key with
    | none => some t
    | some (.table .impliedByHeader _) => some (t.erase key)
    | some _ => none) false path.dropLast .header root
  return ⟨rest, entriesAt root path, path, false⟩

/-- Starts one more table of an array of tables. -/
def startRow (d : Document) (path : List String) : Option Document := do
  let root ← d.close
  let key ← path.getLast?
  let root ← Table.descend (fun _ t =>
    match t.get? key with
    | none => some t
    | some (.rows _) => some t
    | some _ => none) false path.dropLast .header root
  return ⟨root, [], path, true⟩

/-- Adds a key/value line to the table under the last header. -/
def define (d : Document) (path : List String) (key : String) (v : Value) : Option Document :=
  (d.current.define .header path key v).map fun t => { d with current := t }

end Document

end SnapshotStore.Toml
