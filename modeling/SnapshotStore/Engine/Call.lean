import SnapshotStore.Engine.Cursor

/-!
# Calls to an engine, and scheduled failures

Operations talk to the engine through calls.  `Engine.answer` is what a working engine answers.  A
`FaultyEngine` carries a schedule of failures beside the engine: a fault lets some calls of its
method through and then makes one of them fail instead of reaching the engine.
-/

namespace SnapshotStore

/-- A call that can fail. -/
inductive EngineCall where
  | createColumn (name : String)
  | get (column : Nat) (view : ReadView) (key : Bytes)
  | mayContain (column : Nat) (key : Bytes)
  | put (column : Nat) (key value : Bytes)
  | delete (column : Nat) (key : Bytes)
  | write (column : Nat) (batch : WriteBatch)
  | scan (column : Nat) (view : ReadView) (range : KeyRange)
  | next (cursor : Cursor)
  | estimate (column : Nat)
  | snapshot
  | compact (column : Nat)
  | flush

namespace EngineCall

/-- What a call answers when it succeeds. -/
abbrev Answer : EngineCall → Type
  | createColumn _ => Nat
  | get .. => Option Bytes
  | mayContain .. => Bool
  | put .. => Unit
  | delete .. => Unit
  | write .. => Unit
  | scan .. => Cursor
  | next _ => Option Entry × Cursor
  | estimate _ => Nat
  | snapshot => Nat
  | compact _ => Unit
  | flush => Unit

/-- The methods of an engine. -/
inductive Method where
  | createColumn | get | mayContain | put | delete | write
  | scan | next | estimate | snapshot | compact | flush
  deriving DecidableEq, Repr

/-- The method that a call belongs to. -/
def method : EngineCall → Method
  | createColumn _ => .createColumn
  | get .. => .get
  | mayContain .. => .mayContain
  | put .. => .put
  | delete .. => .delete
  | write .. => .write
  | scan .. => .scan
  | next _ => .next
  | estimate _ => .estimate
  | snapshot => .snapshot
  | compact _ => .compact
  | flush => .flush

/-- The name of a method. -/
def Method.name : Method → String
  | createColumn => "create_column"
  | get => "get"
  | mayContain => "may_contain"
  | put => "put"
  | delete => "delete"
  | write => "write"
  | scan => "scan"
  | next => "next"
  | estimate => "estimate"
  | snapshot => "snapshot"
  | compact => "compact"
  | flush => "flush"

/-- The method with a name. -/
def Method.ofName? (s : String) : Option Method :=
  [createColumn, get, mayContain, put, delete, write, scan, next, estimate, snapshot, compact,
    flush].find? (·.name == s)

end EngineCall

namespace Engine

/-- The answer of a call that leaves the engine as it is. -/
def reading {α : Type} (e : Engine) (r : Except EngineError α) : Except EngineError α × Engine :=
  (r, e)

/-- The answer of a call that only changes the engine. -/
def writing (e : Engine) : Except EngineError Engine → Except EngineError Unit × Engine
  | .ok e' => (.ok (), e')
  | .error err => (.error err, e)

/-- The answer of a call that changes the engine and answers something. -/
def both {α : Type} (e : Engine) :
    Except EngineError (α × Engine) → Except EngineError α × Engine
  | .ok (a, e') => (.ok a, e')
  | .error err => (.error err, e)

/-- What a working engine answers to a call. -/
def answer (e : Engine) : (c : EngineCall) → Except EngineError c.Answer × Engine
  | .createColumn name => e.both (e.createColumn name)
  | .get n view key => e.reading (e.get n view key)
  | .mayContain n key => e.reading (e.mayContain n key)
  | .put n key value => e.writing (e.put n key value)
  | .delete n key => e.writing (e.delete n key)
  | .write n batch => e.writing (e.write n batch)
  | .scan n view range => e.both (e.scan n view range)
  | .next cursor => e.reading (e.next cursor)
  | .estimate n => e.reading (e.estimate n)
  | .snapshot => e.both e.snapshot
  | .compact n => e.writing (e.compact n)
  | .flush => e.reading e.flush

end Engine

/-- A scheduled failure. -/
structure Fault where
  /-- The method that fails. -/
  method : EngineCall.Method
  /-- The number of calls that still go through. -/
  after : Nat
  /-- The failure. -/
  error : EngineError
  deriving DecidableEq, Repr

/-- What a schedule of failures does to the next call of a method: the oldest fault of the method
counts, either down or against the call. -/
def Fault.strike (method : EngineCall.Method) : List Fault → Option EngineError × List Fault
  | [] => (none, [])
  | f :: rest =>
    if f.method = method then
      if f.after = 0 then (some f.error, rest) else (none, { f with after := f.after - 1 } :: rest)
    else
      let (e, rest) := strike method rest
      (e, f :: rest)

/-- An engine with a schedule of failures. -/
structure FaultyEngine where
  /-- The engine that answers the calls that get through. -/
  engine : Engine
  /-- The failures to come, oldest first. -/
  faults : List Fault

namespace FaultyEngine

/-- An engine without scheduled failures. -/
def reliable (engine : Engine) : FaultyEngine := ⟨engine, []⟩

/-- Changes the engine behind the schedule. -/
def modify (f : FaultyEngine) (g : Engine → Engine) : FaultyEngine :=
  { f with engine := g f.engine }

/-- Schedules one more failure. -/
def schedule (f : FaultyEngine) (fault : Fault) : FaultyEngine :=
  { f with faults := f.faults ++ [fault] }

/-- What the engine answers to a call. -/
def answer (f : FaultyEngine) (c : EngineCall) : Except EngineError c.Answer × FaultyEngine :=
  match Fault.strike c.method f.faults with
  | (some err, faults) => (.error err, { f with faults })
  | (none, faults) =>
    let (r, engine) := f.engine.answer c
    (r, ⟨engine, faults⟩)

/-- Calls to an engine one after the other, up to the first that fails. -/
abbrev Calls (α : Type) := ExceptT EngineError (StateM FaultyEngine) α

/-- One call. -/
def call (c : EngineCall) : Calls c.Answer := ExceptT.mk (answer · c)

/-- Puts a value straight into the column with a name, which is created if it is not there. -/
def putNamed (name : String) (key value : Bytes) : Calls Unit := do
  let column ← call (.createColumn name)
  call (.put column key value)

end FaultyEngine

end SnapshotStore
