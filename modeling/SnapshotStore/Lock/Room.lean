import SnapshotStore.Lock.Stamped

/-!
# Threads at a stamped lock

A room is a stamped lock with the threads that use it.  A thread that cannot go in parks; a release
wakes one parked writer if writers wait, and otherwise, after a writer, all parked readers; a woken
thread looks again before it goes in or parks anew.  Which of several parked writers is woken is
left open: every step takes a number that chooses it.  A reader that wants to become the writer goes
out in one step and asks again in another, and others may act between the two.

A thread that keeps several holds at once counts as several threads.

* `Room.step?` — one action of one thread.
* `Room.run` — any interleaving of actions.
* `Room.settle` — every thread that was woken, or is on its way back, goes on.
* `Room.perform` — a step of a scripted session, in which at most one thread waits as a writer.
-/

namespace SnapshotStore

/-- What a thread at the lock is doing. -/
inductive Seat where
  /-- It neither holds nor wants the lock. -/
  | away
  /-- It holds the lock. -/
  | holding (hold : Hold)
  /-- It gave a shared hold back for the exclusive one, and has not asked for that yet. -/
  | returning
  /-- It sleeps until it is woken. -/
  | parked (wish : Hold)
  /-- It was woken and has not looked again yet. -/
  | woken (wish : Hold)
  deriving DecidableEq, Repr

/-- A lock and the threads at it. -/
structure Room where
  /-- The lock. -/
  lock : StampedLock
  /-- The threads, by number. -/
  seats : List Seat
  deriving DecidableEq, Repr

namespace Room

/-- An idle lock with `n` threads that are away. -/
def vacant (n : Nat) : Room := ⟨.idle, List.replicate n .away⟩

/-- What a thread is doing; a thread without a seat is away. -/
def seat (r : Room) (i : Nat) : Seat := r.seats[i]?.getD .away

/-- Seats a thread. -/
def place (r : Room) (i : Nat) (s : Seat) : Room := { r with seats := r.seats.set i s }

/-- The threads that sleep with a wish. -/
def parkedFor (r : Room) (wish : Hold) : List Nat :=
  (List.range r.seats.length).filter fun i => r.seat i = .parked wish

/-- Whether some thread waits to be the writer. -/
def hasWaitingWriter (r : Room) : Bool :=
  r.seats.any fun s => s = .parked .exclusive || s = .woken .exclusive

/-- Wakes one of the parked writers, the `pick`-th in a circle. -/
def wakeWriter (r : Room) (pick : Nat) : Room :=
  let sleepers := r.parkedFor .exclusive
  match sleepers[pick % sleepers.length]? with
  | some i => r.place i (.woken .exclusive)
  | none => r

/-- Wakes all parked readers. -/
def wakeReaders (r : Room) : Room :=
  { r with seats := r.seats.map fun s => if s = .parked .shared then .woken .shared else s }

/-- A thread looks whether it is let in, and parks if it is not. -/
def look (r : Room) (i : Nat) (wish : Hold) : Room :=
  match r.lock.enter? wish with
  | some lock => { r with lock }.place i (.holding wish)
  | none => r.place i (.parked wish)

/-- A thread asks for the lock. -/
def request (r : Room) (i : Nat) : Hold → Room
  | .shared => r.look i .shared
  | .exclusive => { r with lock := r.lock.announce }.look i .exclusive

/-- A thread gives its hold back and wakes those whose turn it may be. -/
def leave (r : Room) (i : Nat) (hold : Hold) (pick : Nat) : Room :=
  let lock := r.lock.release hold
  let r := { r with lock }.place i .away
  match hold with
  | .shared => if lock.readers = 0 && 0 < lock.waiting then r.wakeWriter pick else r
  | .exclusive => if 0 < lock.waiting then r.wakeWriter pick else r.wakeReaders

/-- What a thread can do. -/
inductive Action where
  /-- Ask for the lock and wait for it. -/
  | acquire (hold : Hold)
  /-- Ask for a shared hold and go away if it is not let in. -/
  | tryShare
  /-- Turn a shared hold into the exclusive one if it is the only hold. -/
  | upgrade
  /-- Give a shared hold back and wait for the exclusive one. -/
  | reacquire
  /-- Give the hold back. -/
  | drop
  /-- Look again after being woken, or ask for the exclusive hold after giving the shared one
  back. -/
  | resume
  deriving DecidableEq, Repr

/-- One action of one thread, if the thread can take it now; `pick` chooses among parked writers. -/
def step? (r : Room) (i : Nat) (a : Action) (pick : Nat) : Option Room :=
  match a, r.seats[i]? with
  | .acquire hold, some .away => some (r.request i hold)
  | .tryShare, some .away =>
    match r.lock.enter? .shared with
    | some lock => some ({ r with lock }.place i (.holding .shared))
    | none => some r
  | .upgrade, some (.holding .shared) =>
    match r.lock.upgrade? with
    | some lock => some ({ r with lock }.place i (.holding .exclusive))
    | none => some r
  | .upgrade, some (.holding .exclusive) => some r
  | .reacquire, some (.holding .shared) => some ((r.leave i .shared pick).place i .returning)
  | .reacquire, some (.holding .exclusive) => some r
  | .drop, some (.holding hold) => some (r.leave i hold pick)
  | .resume, some .returning => some (r.request i .exclusive)
  | .resume, some (.woken wish) => some (r.look i wish)
  | _, _ => none

/-- An action of a thread, and the number that chooses whom it wakes. -/
structure Move where
  /-- The thread. -/
  thread : Nat
  /-- What it does. -/
  action : Action
  /-- The choice among parked writers. -/
  pick : Nat
  deriving DecidableEq, Repr

/-- The room after an action; a thread that cannot take the action does nothing. -/
def move (r : Room) (m : Move) : Room := (r.step? m.thread m.action m.pick).getD r

/-- The room after actions of any threads in any order. -/
def run (r : Room) (moves : List Move) : Room := moves.foldl move r

/-- Lets every thread that was woken, or is on its way back, go on, in the order of their
numbers. -/
def settle (r : Room) : Room :=
  r.run ((List.range r.seats.length).map fun i => ⟨i, .resume, 0⟩)

/-! ## Scripted sessions -/

/-- A request of a session. -/
inductive Request where
  | act (a : Action)
  /-- Ask how the thread holds the lock. -/
  | mode
  deriving DecidableEq, Repr

/-- What a session answers to a request. -/
inductive Reply where
  /-- The thread still waits. -/
  | parked
  /-- Another thread already waits to be the writer. -/
  | refused
  /-- The thread already holds the lock. -/
  | held
  /-- How the thread holds the lock now, if it does. -/
  | holds (hold : Option Hold)
  /-- The thread has to wait. -/
  | waiting
  /-- Whether the attempt succeeded. -/
  | success (ok : Bool)
  /-- The thread gave back what it held. -/
  | released
  deriving DecidableEq, Repr

/-- Whether a reply means that nothing was done. -/
def Reply.isRefusal : Reply → Bool
  | .parked | .refused | .held => true
  | _ => false

/-- The reason for which a session does nothing, if there is one: the thread still waits; it would
be a second waiting writer; it asks for a hold although it has one. -/
def refusal? (r : Room) (i : Nat) (q : Request) : Option Reply :=
  match r.seat i with
  | .parked _ | .woken _ | .returning => some .parked
  | s =>
    if q ∈ [.act (.acquire .exclusive), .act .reacquire] && r.hasWaitingWriter then some .refused
    else if q ∈ [.act (.acquire .shared), .act (.acquire .exclusive), .act .tryShare] && s ≠ .away
    then some .held
    else none

/-- What a thread sees of itself after asking for a hold. -/
def standing (r : Room) (i : Nat) : Reply :=
  match r.seat i with
  | .holding hold => .holds (some hold)
  | .away => .holds none
  | _ => .waiting

/-- The reply to a request that was carried out, in the room after it. -/
def reply (before after : Room) (i : Nat) : Request → Reply
  | .mode => after.standing i
  | .act (.acquire _) => after.standing i
  | .act .reacquire => after.standing i
  | .act .tryShare => .success (after.seat i = .holding .shared)
  | .act .upgrade =>
    if before.seat i = .away then .holds none else .success (after.seat i = .holding .exclusive)
  | .act .drop => .released
  | .act .resume => .released

/-- A request of a session: its reply, the threads whose wait it ended, and the room after every
woken thread has looked again. -/
def perform (r : Room) (i : Nat) (q : Request) : Reply × List Nat × Room :=
  match r.refusal? i q with
  | some refusal => (refusal, [], r)
  | none =>
    let after := match q with
      | .act a => ((r.step? i a 0).getD r).settle
      | .mode => r
    let entered := (List.range r.seats.length).filter fun j =>
      j ≠ i && r.seat j matches .parked _ && after.seat j matches .holding _
    (r.reply after i q, entered, after)

end Room

end SnapshotStore
