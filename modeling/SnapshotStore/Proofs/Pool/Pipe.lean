import SnapshotStore.Proofs.Producer

/-!
# A producer and its consumer, step by step

A running producer, the channel and the consumer take steps in any order, and so does everybody else
who uses the pool.  A `Pipe` is one producer with its channel; `Pipe.Step` is one step of it, with
the pool before and after, and `Pipe.Runs` is a run in which others may change the pool at any time.

* A producer first asks for a permit (`Ticket`).  A pool that is closed refuses it, even where a
  permit was set aside already.
* While the work runs its effects are answered in any way.
* A failure of the work is sent under the permit.  A breakdown gives the permit back at once, and is
  reported by somebody else.
* The consumer sees the end when nobody is left who could send, and nothing is on its way.
-/

namespace SnapshotStore

/-! ## Asking for a permit -/

/-- A request for a permit. -/
inductive Ticket where
  | waiting
  /-- A permit is set aside, but its owner has not looked yet. -/
  | offered
  | granted
  | refused
  deriving DecidableEq

namespace Ticket

/-- Whether the pool is short of a permit because of this request. -/
def holds : Ticket → Bool
  | offered | granted => true
  | waiting | refused => false

/-- A turn of a request at an open or closed pool, with the budget before and after. -/
inductive Step (isClosed : Bool) : Ticket → Budget → Ticket → Budget → Prop
  | offer {b b' : Budget} (hopen : isClosed = false) (h : b.take? = some b') :
      Step isClosed waiting b offered b'
  | accept {b : Budget} (hopen : isClosed = false) : Step isClosed offered b granted b
  | refuse {b : Budget} (hclosed : isClosed = true) : Step isClosed waiting b refused b
  /-- A permit that was set aside is not accepted any more. -/
  | decline {b : Budget} (hclosed : isClosed = true) : Step isClosed offered b refused b.giveBack

end Ticket

/-! ## Pipes -/

/-- How far a producer is. -/
inductive Pipe.Stage (ε : Type) where
  /-- It asks for a permit. -/
  | acquiring (t : Ticket)
  /-- Its work runs. -/
  | running (rest : Work ε Unit)
  /-- Its work failed; the failure is still to be sent. -/
  | failing (e : StoreError)
  /-- Its work broke down; that is still to be reported. -/
  | fallen
  /-- Nobody is left who could send. -/
  | silent

/-- A producer with its channel. -/
structure Pipe (ε : Type) where
  /-- All of its work. -/
  work : Work ε Unit
  /-- How far it is. -/
  stage : Pipe.Stage ε
  /-- The channel to its consumer. -/
  channel : Channel ε

namespace Pipe

variable {ε : Type}

namespace Stage

/-- Whether the producer has a permit, or one is set aside for it. -/
def holds : Stage ε → Bool
  | acquiring t => t.holds
  | running _ | failing _ => true
  | fallen | silent => false

/-- Whether the producer runs on the pool. -/
def isRunning : Stage ε → Bool
  | running _ | failing _ => true
  | acquiring _ | fallen | silent => false

/-- Where the end of its work leaves a producer. -/
def after : Outcome Unit → Stage ε
  | .done _ => silent
  | .failed e => failing e
  | .panicked => fallen

/-- The failure that is still to be sent. -/
def failure? : Stage ε → Option StoreError
  | acquiring .refused => some .closed
  | failing e => some e
  | fallen => some (.internal "range producer failed:")
  | _ => none

/-- The pool when a producer goes on to another stage: it gives back what it holds no longer. -/
def giveBack (s s' : Stage ε) (p : Pool) : Pool :=
  if s.holds && !s'.holds then Producer.released p else p

end Stage

/-- A producer that was asked for its first item. -/
def start (capacity : Nat) (work : Work ε Unit) : Pipe ε :=
  ⟨work, .acquiring .waiting, .new capacity⟩

/-- What can be seen of a pipe. -/
inductive Event (ε : Type) where
  /-- The request for a permit took a turn. -/
  | asked (t : Ticket)
  /-- The work began. -/
  | began
  /-- The work performed an effect. -/
  | performed (q : Effect) (a : q.Answer)
  /-- The work sent an item, and learned whether somebody listens. -/
  | sent (item : Except StoreError ε) (heard : Bool)
  /-- The work ended. -/
  | returned (r : Outcome Unit)
  /-- A failure was sent. -/
  | reported (e : StoreError) (heard : Bool)
  /-- The consumer got an item. -/
  | received (item : Except StoreError ε)
  /-- The consumer saw the end. -/
  | ended
  /-- The consumer went away. -/
  | left

/-- A step of a pipe, with the pool before and after. -/
inductive Step : Pipe ε → Pool → Event ε → Pipe ε → Pool → Prop
  | ask {w : Work ε Unit} {c : Channel ε} {p : Pool} {t t' : Ticket} {scans : Budget}
      (h : t.Step p.isClosed p.scans t' scans) :
      Step ⟨w, .acquiring t, c⟩ p (.asked t') ⟨w, .acquiring t', c⟩ { p with scans }
  | begin {w : Work ε Unit} {c : Channel ε} {p : Pool} :
      Step ⟨w, .acquiring .granted, c⟩ p .began ⟨w, .running w, c⟩ p
  | perform {w : Work ε Unit} {c : Channel ε} {p : Pool} {q : Effect}
      {next : q.Answer → Work ε Unit} (a : q.Answer) :
      Step ⟨w, .running (.perform q next), c⟩ p (.performed q a) ⟨w, .running (next a), c⟩ p
  | send {w : Work ε Unit} {c c' : Channel ε} {p : Pool} {item : Except StoreError ε}
      {next : Bool → Work ε Unit} {heard : Bool} (h : c.send? item = some (heard, c')) :
      Step ⟨w, .running (.send item next), c⟩ p (.sent item heard)
        ⟨w, .running (next heard), c'⟩ p
  | finish {w : Work ε Unit} {c : Channel ε} {p : Pool} {r : Outcome Unit} :
      Step ⟨w, .running (.finish r), c⟩ p (.returned r) ⟨w, .after r, c⟩
        ((Stage.running (.finish r) : Stage ε).giveBack (.after r) p)
  | report {w : Work ε Unit} {s : Stage ε} {c c' : Channel ε} {p : Pool} {e : StoreError}
      {heard : Bool} (he : s.failure? = some e) (h : c.send? (.error e) = some (heard, c')) :
      Step ⟨w, s, c⟩ p (.reported e heard) ⟨w, .silent, c'⟩ (s.giveBack .silent p)
  | receive {w : Work ε Unit} {s : Stage ε} {c c' : Channel ε} {p : Pool}
      {item : Except StoreError ε} (hopen : c.isOpen = true)
      (h : c.receive? = some (item, c')) :
      Step ⟨w, s, c⟩ p (.received item) ⟨w, s, c'⟩ p
  | seeEnd {w : Work ε Unit} {c : Channel ε} {p : Pool} (hopen : c.isOpen = true)
      (h : c.receive? = none) : Step ⟨w, .silent, c⟩ p .ended ⟨w, .silent, c⟩ p
  | leave {w : Work ε Unit} {s : Stage ε} {c : Channel ε} {p : Pool} (hopen : c.isOpen = true) :
      Step ⟨w, s, c⟩ p .left ⟨w, s, c.desert⟩ p

/-- A run of a pipe; between its steps others may change the pool. -/
inductive Runs (l : Pipe ε) : List (Event ε) → Pipe ε → Prop
  | refl : Runs l [] l
  | step {l₁ l₂ : Pipe ε} {p p' : Pool} {events : List (Event ε)} {e : Event ε}
      (h : Runs l events l₁) (hstep : l₁.Step p e l₂ p') : Runs l (events ++ [e]) l₂

/-- Steps that nobody else comes between. -/
inductive Steps (l : Pipe ε) (p : Pool) : List (Event ε) → Pipe ε → Pool → Prop
  | refl : Steps l p [] l p
  | step {l₁ l₂ : Pipe ε} {p₁ p₂ : Pool} {events : List (Event ε)} {e : Event ε}
      (h : Steps l p events l₁ p₁) (hstep : l₁.Step p₁ e l₂ p₂) :
      Steps l p (events ++ [e]) l₂ p₂

/-- A step of the consumer. -/
def Event.isOfConsumer : Event ε → Bool
  | .received _ | .ended | .left => true
  | _ => false

/-! ## Runs -/

variable {l l₁ l₂ : Pipe ε} {p p' : Pool} {e : Event ε} {events events' : List (Event ε)}

theorem Runs.single (h : l.Step p e l₁ p') : l.Runs [e] l₁ := .step .refl h

/-- One run goes on where another stopped. -/
theorem Runs.trans (h : l.Runs events l₁) (h' : l₁.Runs events' l₂) :
    l.Runs (events ++ events') l₂ := by
  induction h' with
  | refl => rwa [List.append_nil]
  | step _ hstep ih =>
    rw [← List.append_assoc]
    exact .step ih hstep

theorem Steps.trans {p₁ p₂ : Pool} (h : l.Steps p events l₁ p₁) (h' : l₁.Steps p₁ events' l₂ p₂) :
    l.Steps p (events ++ events') l₂ p₂ := by
  induction h' with
  | refl => rwa [List.append_nil]
  | step _ hstep ih =>
    rw [← List.append_assoc]
    exact .step ih hstep

/-- Steps with a given pool are a run. -/
theorem Steps.runs (h : l.Steps p events l₁ p') : l.Runs events l₁ := by
  induction h with
  | refl => exact .refl
  | step _ hstep ih => exact .step ih hstep

/-- A run comes through the states between its events. -/
theorem Runs.split {before after : List (Event ε)} (h : l.Runs (before ++ after) l₂) :
    ∃ l₁, l.Runs before l₁ ∧ l₁.Runs after l₂ := by
  generalize hevents : before ++ after = events at h
  induction h generalizing after with
  | refl =>
    obtain ⟨rfl, rfl⟩ := List.append_eq_nil_iff.mp hevents
    exact ⟨l, .refl, .refl⟩
  | @step l₁ l₂ p p' events e h hstep ih =>
    rcases List.eq_nil_or_concat after with rfl | ⟨after', e', rfl⟩
    · rw [List.append_nil] at hevents
      subst hevents
      exact ⟨l₂, .step h hstep, .refl⟩
    · rw [List.concat_eq_append, ← List.append_assoc] at hevents
      obtain ⟨rfl, he⟩ := List.append_inj' hevents rfl
      obtain rfl : e' = e := by simpa using he
      obtain ⟨l', hbefore, hafter⟩ := ih rfl
      exact ⟨l', hbefore, by rw [List.concat_eq_append]; exact .step hafter hstep⟩

/-- A run can be cut at any of its events. -/
theorem Runs.split_cons {before after : List (Event ε)} (h : l.Runs (before ++ e :: after) l₂) :
    ∃ l₁ l₁' p p', l.Runs before l₁ ∧ l₁.Step p e l₁' p' ∧ l₁'.Runs after l₂ := by
  rw [← List.singleton_append, ← List.append_assoc] at h
  obtain ⟨l₁', hbefore, hafter⟩ := h.split
  generalize hevents : before ++ [e] = events at hbefore
  cases hbefore with
  | refl => simp at hevents
  | step hbefore hstep =>
    obtain ⟨rfl, he⟩ := List.append_inj' hevents rfl
    obtain rfl : e = _ := List.head_eq_of_cons_eq he
    exact ⟨_, _, _, _, hbefore, hstep, hafter⟩

/-- The work of a pipe stays what it is. -/
theorem Step.work_eq (h : l.Step p e l₁ p') : l₁.work = l.work := by cases h <;> rfl

/-- A pipe keeps its work. -/
theorem Runs.work_eq (h : l.Runs events l₁) : l₁.work = l.work := by
  induction h with
  | refl => rfl
  | step _ hstep ih => exact hstep.work_eq.trans ih

end Pipe

end SnapshotStore
