import SnapshotStore.Dictionary.Basic

/-!
# Updates

An update replaces the value of a key by what the caller's updater makes of it.  It reads and runs
the updater under a shared hold of the key's stripe.  If something is to be written, it tries to
turn the shared hold into the exclusive one; if other readers are in the way, it gives the hold
back, waits for the exclusive one and starts over, and this second attempt needs no upgrade any
more.  So the updater runs at most twice.
-/

namespace SnapshotStore

namespace Work

variable {ε α : Type}

/-- The work with a last part that runs unless it ends with a value. -/
def onFailure : Work ε α → Work ε Unit → Work ε α
  | finish (.done a), _ => finish (.done a)
  | finish r, last => last.bind fun _ => finish r
  | perform q next, last => perform q fun a => (next a).onFailure last
  | send item next, last => send item fun b => (next b).onFailure last

end Work

namespace Dictionary

variable {ε : Type} (d : Dictionary)

/-- Reads the key and runs the updater: both sides of the change. -/
def propose (key : Bytes) (f : Updater) (sure : Bool) : Work ε (Delta Bytes) := do
  let previous ← d.read .latest key sure
  match ← Work.effect (.consult f previous) with
  | some current => return ⟨previous, current⟩
  | none => Work.panic

/-- Carries an action out. -/
def carryOut (key : Bytes) : UpdateAction → Work ε Unit
  | .noOp => pure ()
  | .write value => d.store key value
  | .delete => d.drop key

/-- The second part of an update, under the exclusive hold. -/
def conclude (stripe : Nat) (w : Work ε (Delta Bytes)) : Work ε (Delta Bytes) :=
  w.ensuring (Work.unlock .exclusive stripe)

/-- An update of a key of the given stripe. -/
def updateAt (stripe : Nat) (key : Bytes) (f : Updater) (sure : Bool) : Work ε (Delta Bytes) := do
  Work.lock .shared stripe
  let delta ← (d.propose key f sure).onFailure (Work.unlock .shared stripe)
  if UpdateAction.ofDelta delta = .noOp then
    Work.unlock .shared stripe
    return delta
  if ← Work.effect (.upgrade stripe) then
    conclude stripe do
      d.carryOut key (.ofDelta delta)
      return delta
  else
    Work.unlock .shared stripe
    Work.lock .exclusive stripe
    conclude stripe do
      let delta ← d.propose key f sure
      d.carryOut key (.ofDelta delta)
      return delta

/-- Replaces the value of a key by what an updater makes of it, and answers both sides.  A
dictionary that admits no updates refuses before any work starts. -/
def update (key : Bytes) (f : Updater) (sure : Bool) : Step (Delta Bytes) :=
  match d.mode, d.striping with
  | .allow, some s => .ok (d.updateAt (s.index key) key f sure)
  | _, _ => .error (.unsupported s!"update on dictionary {d.name} with update mode {d.mode.name}")

end Dictionary

end SnapshotStore
