import SnapshotStore.Engine.Call
import SnapshotStore.Lock.Stamped
import SnapshotStore.Snapshots

/-!
# Units of work

The work of an operation is a tree: it ends, or it performs an effect and goes on with the answer,
or it sends an item to the consumer of its stream and goes on with whether somebody still listens.
An effect is one atomic step against shared state: a call of the engine, one transition of a lock,
one access to the register of snapshots, or one run of a caller's updater.  The same tree is run
alone by `Work.advance` and can be interleaved with others at every node.

* `Work.attempt`, `Work.call` — engine calls, with failures as values or as the end of the work.
* `Work.ensuring` — work with a last part that runs however the work ends.
-/

namespace SnapshotStore

/-- A caller's function from the present value of a key to its new one; no answer at all means that
the function broke down. -/
abbrev Updater := Option Bytes → Option (Option Bytes)

/-- One atomic step against shared state. -/
inductive Effect where
  /-- A call of the engine. -/
  | ask (c : EngineCall)
  /-- Takes a pin of a sequence away. -/
  | unpin (sequence : Nat)
  /-- Looks a snapshot up. -/
  | resolve (token : Option Token)
  /-- Gives a sequence a snapshot number. -/
  | register (sequence : Nat)
  /-- Forgets a snapshot and answers its sequence. -/
  | forget (token : Token)
  /-- Announces a writer at a stripe. -/
  | announce (stripe : Nat)
  /-- Goes into a stripe; has to wait until it is let in. -/
  | enter (hold : Hold) (stripe : Nat)
  /-- Tries to become the writer of a stripe from being its reader. -/
  | upgrade (stripe : Nat)
  /-- Goes out of a stripe. -/
  | leave (hold : Hold) (stripe : Nat)
  /-- Runs an updater. -/
  | consult (f : Updater) (current : Option Bytes)

/-- What an effect answers. -/
abbrev Effect.Answer : Effect → Type
  | ask c => Except EngineError c.Answer
  | unpin _ => Unit
  | resolve _ => Except StoreError ReadView
  | register _ => Token
  | forget _ => Option Nat
  | announce _ => Unit
  | enter .. => Unit
  | upgrade _ => Bool
  | leave .. => Unit
  | consult .. => Option (Option Bytes)

/-- How work ends. -/
inductive Outcome (α : Type) where
  | done (a : α)
  | failed (e : StoreError)
  /-- The work broke down. -/
  | panicked

/-- Work that sends items of type `ε` and ends with a value of type `α`. -/
inductive Work (ε α : Type) where
  | finish (r : Outcome α)
  | perform (q : Effect) (next : q.Answer → Work ε α)
  | send (item : Except StoreError ε) (next : Bool → Work ε α)

/-- A step of an operation: refused outright, or work for the pool. -/
abbrev Step (α : Type) := Except StoreError (Work Empty α)

namespace Work

variable {ε α β : Type}

/-- Goes on with the value of some work, if it ends with one. -/
def bind : Work ε α → (α → Work ε β) → Work ε β
  | finish (.done a), f => f a
  | finish (.failed e), _ => finish (.failed e)
  | finish .panicked, _ => finish .panicked
  | perform q next, f => perform q fun a => (next a).bind f
  | send item next, f => send item fun b => (next b).bind f

instance : Monad (Work ε) where
  pure a := .finish (.done a)
  bind := Work.bind

/-- Ends with a failure. -/
def fail (e : StoreError) : Work ε α := finish (.failed e)

/-- Breaks down. -/
def panic : Work ε α := finish .panicked

/-- Ends with a value or a failure. -/
def ofExcept : Except StoreError α → Work ε α
  | .ok a => pure a
  | .error e => fail e

/-- Performs an effect. -/
def effect (q : Effect) : Work ε q.Answer := perform q fun a => finish (.done a)

/-- Calls the engine and takes a failure as a value. -/
def attempt (c : EngineCall) : Work ε (Except EngineError c.Answer) := effect (.ask c)

/-- Ends with a value, or with an engine failure in its context. -/
def orFail (operation context : String) : Except EngineError α → Work ε α
  | .ok a => pure a
  | .error e => fail (.ofEngine operation context e)

/-- Calls the engine; a failure ends the work. -/
def call (operation context : String) (c : EngineCall) : Work ε c.Answer := do
  orFail operation context (← attempt c)

/-- Sends an item; answers whether somebody still listens. -/
def emit (item : ε) : Work ε Bool := send (.ok item) fun b => pure b

/-- The work with a last part that runs however the work ends. -/
def ensuring : Work ε α → Work ε Unit → Work ε α
  | finish r, last => last.bind fun _ => finish r
  | perform q next, last => perform q fun a => (next a).ensuring last
  | send item next, last => send item fun b => (next b).ensuring last

/-! ## Snapshots -/

/-- Pins the newest state of an engine under a new token. -/
def takeSnapshot (engineName : String) : Work ε Token := do
  let sequence ← call "snapshot" engineName .snapshot
  effect (.register sequence)

/-- Unpins a snapshot, which has to be live. -/
def releaseSnapshot (token : Token) : Work ε Unit := do
  match ← effect (.forget token) with
  | some sequence => effect (.unpin sequence)
  | none => fail (.snapshotNotFound token)

/-! ## Holding stripes -/

/-- Takes a stripe; a writer announces itself first. -/
def lock (hold : Hold) (stripe : Nat) : Work ε Unit := do
  if hold = .exclusive then effect (.announce stripe)
  effect (.enter hold stripe)

/-- Gives a stripe back. -/
def unlock (hold : Hold) (stripe : Nat) : Work ε Unit := effect (.leave hold stripe)

/-- The work under stripes that are taken in order and given back however it ends. -/
def holding (hold : Hold) : List Nat → Work ε α → Work ε α
  | [], w => w
  | i :: is, w => do
    lock hold i
    (holding hold is w).ensuring (unlock hold i)

end Work

end SnapshotStore
