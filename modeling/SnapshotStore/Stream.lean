import SnapshotStore.Pool.Basic
import SnapshotStore.Work.Backend

/-!
# Streams

A stream hands items to a consumer that asks for them one at a time.

* `Producer` — work that runs ahead of the consumer by what a bounded channel holds.  It starts when
  the first item is asked for, and when the consumer goes away it learns so from its next send.
* `Stream` — a producer; or windows of work, each of which runs when the first of its items is asked
  for; or a producer followed by steps that run when its end is asked for.
-/

namespace SnapshotStore

/-! ## Producers -/

namespace Work

variable {ε ζ α : Type}

/-- The work of a producer: a failure is sent as its last item. -/
def supervised : Work ε Unit → Work ε Unit
  | finish (.done _) => finish (.done ())
  | finish (.failed e) => send (.error e) fun _ => finish (.done ())
  | finish .panicked =>
    send (.error (.internal "range producer failed:")) fun _ => finish (.done ())
  | perform q next => perform q fun a => (next a).supervised
  | send item next => send item fun b => (next b).supervised

/-- Sends items until nobody listens, and then ends in the given way. -/
def emitAll (r : Outcome Unit) : List ε → Work ε Unit
  | [] => finish r
  | item :: rest => do
    if ← emit item then emitAll r rest

/-- The work with every item changed on its way. -/
def mapItems (f : ε → ζ) : Work ε α → Work ζ α
  | finish r => finish r
  | perform q next => perform q fun a => (next a).mapItems f
  | send item next => send (item.map f) fun b => (next b).mapItems f

end Work

/-- A producer of items. -/
inductive Producer (ε : Type) where
  /-- Nothing was asked for yet. -/
  | idle (capacity : Nat) (work : Work ε Unit)
  /-- The work waits for room in the channel. -/
  | running (rest : Work ε Unit) (channel : Channel ε)
  /-- The work ended; its last items may be on their way. -/
  | ended (items : List (Except StoreError ε))

/-- What a consumer gets when it asks for an item. -/
inductive Polled (ε : Type) where
  | item (x : Except StoreError ε)
  | ended
  /-- Nothing yet. -/
  | pending

namespace Producer

variable {ε : Type}

/-- Lets the work run until it ends or has to wait; at its end it gives its permit back. -/
def settle (w : Work ε Unit) (c : Channel ε) (p : Pool) (b : Backend) :
    Producer ε × Pool × Backend :=
  match w.advance b c with
  | (.ended _, b, c) => (ended c.items, { p with scans := p.scans.giveBack }, b)
  | (.waits rest, b, c) => (running rest c, p, b)

/-- Starts the work, if the pool has a permit for it; a closed pool answers with a failure. -/
def start (x : Producer ε) (p : Pool) (b : Backend) : Producer ε × Pool × Backend :=
  match x with
  | idle capacity w =>
    if p.isClosed then (ended [.error .closed], p, b)
    else
      match p.scans.take? with
      | some scans => settle w.supervised (.new capacity) { p with scans } b
      | none => (x, p, b)
  | _ => (x, p, b)

/-- Asks for an item. -/
def poll (x : Producer ε) (p : Pool) (b : Backend) : Polled ε × Producer ε × Pool × Backend :=
  match x.start p b with
  | (idle capacity w, p, b) => (.pending, idle capacity w, p, b)
  | (running rest c, p, b) =>
    match c.receive? with
    | some (x, c) => (.item x, settle rest c p b)
    | none => (.pending, running rest c, p, b)
  | (ended (x :: items), p, b) => (.item x, ended items, p, b)
  | (ended [], p, b) => (.ended, ended [], p, b)

/-- The producer with every item changed. -/
def map {ζ : Type} (f : ε → ζ) : Producer ε → Producer ζ
  | idle capacity w => idle capacity (w.mapItems f)
  | running rest c => running (rest.mapItems f) ⟨c.capacity, c.items.map (·.map f), c.isOpen⟩
  | ended items => ended (items.map (·.map f))

/-- The consumer goes away; work that waited goes on without it. -/
def drop (x : Producer ε) (p : Pool) (b : Backend) : Pool × Backend :=
  match x with
  | running rest c => (settle rest c.desert p b).2
  | _ => (p, b)

end Producer

/-! ## Streams -/

/-- Runs one piece of work on the pool; a closed pool does not run it. -/
def Pool.run {α : Type} (p : Pool) (w : Work Empty α) (b : Backend) :
    Except StoreError α × Backend :=
  if p.isClosed then (.error .closed, b) else w.run b

/-- Runs steps in order up to the first failure. -/
def Pool.runSteps (p : Pool) : List (Step Unit) → Backend → Except StoreError Unit × Backend
  | [], b => (.ok (), b)
  | .error e :: _, b => (.error e, b)
  | .ok w :: rest, b =>
    match p.run w b with
    | (.ok (), b) => p.runSteps rest b
    | (.error e, b) => (.error e, b)

/-- A stream of items. -/
inductive Stream (ε : Type) where
  | produced (x : Producer ε)
  /-- Items at hand, and windows that still have to run. -/
  | windowed (ready : List ε) (windows : List (Work Empty (List ε)))
  /-- A producer, and steps that run at its end unless it sent a failure.  A failed step is one more
  item. -/
  | followed (x : Producer ε) (hasFailed : Bool) (steps : List (Step Unit))

namespace Stream

variable {ε : Type}

/-- Asks for an item. -/
def poll (s : Stream ε) (p : Pool) (b : Backend) : Polled ε × Stream ε × Pool × Backend :=
  match s with
  | produced x =>
    let (r, x, p, b) := x.poll p b
    (r, produced x, p, b)
  | windowed (item :: ready) windows => (.item (.ok item), windowed ready windows, p, b)
  | windowed [] [] => (.ended, windowed [] [], p, b)
  | windowed [] (w :: windows) =>
    match p.run w b with
    | (.ok (item :: ready), b) => (.item (.ok item), windowed ready windows, p, b)
    | (.ok [], b) => (.pending, windowed [] windows, p, b)
    | (.error e, b) => (.item (.error e), windowed [] windows, p, b)
  | followed x hasFailed steps =>
    match x.poll p b with
    | (.item (.error e), x, p, b) => (.item (.error e), followed x true steps, p, b)
    | (.ended, x, p, b) =>
      if hasFailed then (.ended, followed x true [], p, b)
      else
        match p.runSteps steps b with
        | (.ok (), b) => (.ended, followed x false [], p, b)
        | (.error e, b) => (.item (.error e), followed x true [], p, b)
    | (r, x, p, b) => (r, followed x hasFailed steps, p, b)

/-- The consumer goes away. -/
def drop (s : Stream ε) (p : Pool) (b : Backend) : Pool × Backend :=
  match s with
  | produced x => x.drop p b
  | followed x _ _ => x.drop p b
  | windowed _ _ => (p, b)

/-- Asks for at most `n` items; the items, whether the end came, and what is left of the stream. -/
def pollMany : Nat → Stream ε → Pool → Backend →
    (List (Except StoreError ε) × Bool × Stream ε) × Pool × Backend
  | 0, s, p, b => (([], false, s), p, b)
  | n + 1, s, p, b =>
    match s.poll p b with
    | (.item x, s, p, b) =>
      let ((xs, r), p, b) := pollMany n s p b
      ((x :: xs, r), p, b)
    | (.ended, s, p, b) => (([], true, s), p, b)
    | (.pending, s, p, b) => (([], false, s), p, b)

/-- The stream with every item changed. -/
def map {ζ : Type} (f : ε → ζ) : Stream ε → Stream ζ
  | produced x => produced (x.map f)
  | windowed ready windows => windowed (ready.map f) (windows.map ((·.map f) <$> ·))
  | followed x hasFailed steps => followed (x.map f) hasFailed steps

end Stream

end SnapshotStore
