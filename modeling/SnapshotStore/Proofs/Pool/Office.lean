import SnapshotStore.Proofs.Pool.Pipe

/-!
# Everybody who uses a pool

An `Office` is a pool with the operations that were submitted to it and the pipes that were opened
on it.  Each of them takes its own steps, in any order (`Office.Step`): an operation asks for a
permit, runs, and gives its permit back however it ends; its caller may go away before.  The pool
may be closed at any time.

All operations of an office answer with values of one type, and all its pipes carry items of one
type.  Others are told by a sum of their types.
-/

namespace SnapshotStore

/-! ## Operations -/

/-- How far an operation is. -/
inductive Operation.Stage (α : Type) where
  /-- It asks for a permit. -/
  | acquiring (t : Ticket)
  /-- Its work runs. -/
  | running (rest : Work Empty α)
  /-- Its work has ended. -/
  | ended (r : Outcome α)
  /-- Its caller went away while it asked for a permit. -/
  | withdrawn

/-- Some work on a pool, and its caller. -/
structure Operation (α : Type) where
  /-- All of its work. -/
  work : Work Empty α
  /-- How far it is. -/
  stage : Operation.Stage α
  /-- Whether its caller waits for the answer. -/
  isAwaited : Bool

namespace Operation

variable {α : Type}

namespace Stage

/-- Whether the operation has a permit, or one is set aside for it. -/
def holds : Stage α → Bool
  | acquiring t => t.holds
  | running _ => true
  | ended _ | withdrawn => false

/-- Whether the operation runs on the pool. -/
def isRunning : Stage α → Bool
  | running _ => true
  | acquiring _ | ended _ | withdrawn => false

/-- The stage when the caller goes away: only an operation that has no permit yet notices. -/
def abandoned : Stage α → Stage α
  | acquiring .waiting | acquiring .offered => withdrawn
  | s => s

/-- The pool when an operation goes on to another stage: it gives back what it holds no longer. -/
def giveBack (s s' : Stage α) (p : Pool) : Pool :=
  if s.holds && !s'.holds then { p with ops := p.ops.giveBack } else p

end Stage

/-- An operation that was submitted. -/
def start (work : Work Empty α) : Operation α := ⟨work, .acquiring .waiting, true⟩

/-- What the caller is told, once it can be. -/
def answer? (x : Operation α) : Option (Except StoreError α) :=
  match x.stage with
  | .ended r => some r.toExcept
  | .acquiring .refused => some (.error .closed)
  | _ => none

/-- What can be seen of an operation. -/
inductive Event (α : Type) where
  /-- The request for a permit took a turn. -/
  | asked (t : Ticket)
  /-- The work began. -/
  | began
  /-- The work performed an effect. -/
  | performed (q : Effect) (a : q.Answer)
  /-- The work sent something, which nobody listens to. -/
  | sent (item : Except StoreError Empty)
  /-- The work ended. -/
  | ended (r : Outcome α)
  /-- The caller went away. -/
  | abandoned

/-- A step of an operation, with the pool before and after. -/
inductive Step : Operation α → Pool → Event α → Operation α → Pool → Prop
  | ask {w : Work Empty α} {a : Bool} {p : Pool} {t t' : Ticket} {ops : Budget}
      (h : t.Step p.isClosed p.ops t' ops) :
      Step ⟨w, .acquiring t, a⟩ p (.asked t') ⟨w, .acquiring t', a⟩ { p with ops }
  | begin {w : Work Empty α} {a : Bool} {p : Pool} :
      Step ⟨w, .acquiring .granted, a⟩ p .began ⟨w, .running w, a⟩ p
  | perform {w : Work Empty α} {a : Bool} {p : Pool} {q : Effect} {next : q.Answer → Work Empty α}
      (y : q.Answer) :
      Step ⟨w, .running (.perform q next), a⟩ p (.performed q y) ⟨w, .running (next y), a⟩ p
  | send {w : Work Empty α} {a : Bool} {p : Pool} {item : Except StoreError Empty}
      {next : Bool → Work Empty α} :
      Step ⟨w, .running (.send item next), a⟩ p (.sent item) ⟨w, .running (next false), a⟩ p
  | finish {w : Work Empty α} {a : Bool} {p : Pool} {r : Outcome α} :
      Step ⟨w, .running (.finish r), a⟩ p (.ended r) ⟨w, .ended r, a⟩
        ((Stage.running (.finish r)).giveBack (.ended r) p)
  | abandon {w : Work Empty α} {s : Stage α} {p : Pool} :
      Step ⟨w, s, true⟩ p .abandoned ⟨w, s.abandoned, false⟩ (s.giveBack s.abandoned p)

end Operation

/-! ## Offices -/

/-- A pool with everybody who uses it. -/
structure Office (α ε : Type) where
  /-- The pool. -/
  pool : Pool
  /-- The operations that were submitted, in order. -/
  operations : List (Operation α)
  /-- The pipes that were opened, in order. -/
  pipes : List (Pipe ε)

namespace Office

variable {α ε : Type}

/-- A new pool, which nobody uses yet. -/
def start (name : String) (maxOps maxScans : Nat) : Office α ε :=
  ⟨.new name maxOps maxScans, [], []⟩

/-- What can happen in an office. -/
inductive Event (α ε : Type) where
  /-- An operation is submitted. -/
  | submitted (work : Work Empty α)
  /-- The first item of a producer is asked for. -/
  | opened (capacity : Nat) (work : Work ε Unit)
  /-- A step of an operation. -/
  | operation (i : Nat) (e : Operation.Event α)
  /-- A step of a pipe. -/
  | pipe (i : Nat) (e : Pipe.Event ε)
  /-- The pool is closed. -/
  | closed

/-- Something happens in an office. -/
inductive Step (o : Office α ε) : Event α ε → Office α ε → Prop
  | submit (work : Work Empty α) :
      Step o (.submitted work) { o with operations := o.operations ++ [.start work] }
  | «open» (capacity : Nat) (work : Work ε Unit) :
      Step o (.opened capacity work) { o with pipes := o.pipes ++ [.start capacity work] }
  | operation {i : Nat} {x x' : Operation α} {e : Operation.Event α} {p : Pool}
      (hi : o.operations[i]? = some x) (h : x.Step o.pool e x' p) :
      Step o (.operation i e) { o with pool := p, operations := o.operations.set i x' }
  | pipe {i : Nat} {l l' : Pipe ε} {e : Pipe.Event ε} {p : Pool} (hi : o.pipes[i]? = some l)
      (h : l.Step o.pool e l' p) :
      Step o (.pipe i e) { o with pool := p, pipes := o.pipes.set i l' }
  | close : Step o .closed { o with pool := o.pool.close }

/-- A run of an office. -/
inductive Runs (o : Office α ε) : List (Event α ε) → Office α ε → Prop
  | refl : Runs o [] o
  | step {o₁ o₂ : Office α ε} {events : List (Event α ε)} {e : Event α ε} (h : Runs o events o₁)
      (hstep : o₁.Step e o₂) : Runs o (events ++ [e]) o₂

variable {o o' o₁ o₂ : Office α ε} {e : Event α ε} {events events' : List (Event α ε)}
  {name : String} {maxOps maxScans i : Nat}

/-- One run goes on where another stopped. -/
theorem Runs.trans (h : o.Runs events o₁) (h' : o₁.Runs events' o₂) :
    o.Runs (events ++ events') o₂ := by
  induction h' with
  | refl => rwa [List.append_nil]
  | step _ hstep ih =>
    rw [← List.append_assoc]
    exact .step ih hstep

/-! ## One place in an office -/

/-- Where a list got one more element, a place is as before, or has the new element. -/
theorem getElem?_concat_cases {β : Type} (l : List β) (y : β) (i : Nat) :
    (l ++ [y])[i]? = l[i]? ∨ l[i]? = none ∧ (l ++ [y])[i]? = some y := by
  rcases Nat.lt_trichotomy i l.length with hlt | rfl | hgt
  · exact .inl (List.getElem?_append_left hlt)
  · exact .inr ⟨List.getElem?_eq_none (Nat.le_refl _), List.getElem?_concat_length⟩
  · left
    have hlength : (l ++ [y]).length ≤ i := by
      rw [List.length_append]
      exact hgt
    rw [List.getElem?_eq_none (Nat.le_of_lt hgt), List.getElem?_eq_none hlength]

/-- What happens to a place for operations: its operation takes a step, or nothing happens to it,
or an operation comes. -/
theorem Step.at_operation (h : o.Step e o') (i : Nat) :
    (∃ y x x' p, e = .operation i y ∧ o.operations[i]? = some x ∧ x.Step o.pool y x' p ∧
        o'.operations[i]? = some x') ∨
      (∀ y, e ≠ .operation i y) ∧ (o'.operations[i]? = o.operations[i]? ∨
        o.operations[i]? = none ∧ ∃ work, o'.operations[i]? = some (.start work)) := by
  cases h with
  | submit work =>
    refine .inr ⟨fun _ => nofun, ?_⟩
    exact (getElem?_concat_cases o.operations (.start work) i).imp_right
      fun ⟨hnone, hnew⟩ => ⟨hnone, work, hnew⟩
  | @operation j x x' y p hj hstep =>
    by_cases hij : j = i
    · subst hij
      exact .inl ⟨y, x, x', p, rfl, hj, hstep,
        List.getElem?_set_self (List.getElem?_eq_some_iff.mp hj).1⟩
    · refine .inr ⟨fun y heq => ?_, .inl (List.getElem?_set_ne hij)⟩
      cases heq
      exact hij rfl
  | _ => exact .inr ⟨fun _ => nofun, .inl rfl⟩

/-- What happens to a place for pipes. -/
theorem Step.at_pipe (h : o.Step e o') (i : Nat) :
    (∃ y l l' p, e = .pipe i y ∧ o.pipes[i]? = some l ∧ l.Step o.pool y l' p ∧
        o'.pipes[i]? = some l') ∨
      (∀ y, e ≠ .pipe i y) ∧ (o'.pipes[i]? = o.pipes[i]? ∨
        o.pipes[i]? = none ∧ ∃ capacity work, o'.pipes[i]? = some (.start capacity work)) := by
  cases h with
  | «open» capacity work =>
    refine .inr ⟨fun _ => nofun, ?_⟩
    exact (getElem?_concat_cases o.pipes (.start capacity work) i).imp_right
      fun ⟨hnone, hnew⟩ => ⟨hnone, capacity, work, hnew⟩
  | @pipe j l l' y p hj hstep =>
    by_cases hij : j = i
    · subst hij
      exact .inl ⟨y, l, l', p, rfl, hj, hstep,
        List.getElem?_set_self (List.getElem?_eq_some_iff.mp hj).1⟩
    · refine .inr ⟨fun y heq => ?_, .inl (List.getElem?_set_ne hij)⟩
      cases heq
      exact hij rfl
  | _ => exact .inr ⟨fun _ => nofun, .inl rfl⟩

/-- What happened to the pipe at a place. -/
def eventsAt (i : Nat) (events : List (Event α ε)) : List (Pipe.Event ε) :=
  events.filterMap fun
    | .pipe j e => if j = i then some e else none
    | _ => none

/-- The events at a pipe come part by part. -/
theorem eventsAt_append (i : Nat) (events later : List (Event α ε)) :
    eventsAt i (events ++ later) = eventsAt i events ++ eventsAt i later := List.filterMap_append

theorem eventsAt_self (i : Nat) (y : Pipe.Event ε) :
    eventsAt i [(.pipe i y : Event α ε)] = [y] := by
  simp [eventsAt]

theorem eventsAt_of_ne (h : ∀ y, e ≠ .pipe i y) : eventsAt i [e] = [] := by
  cases e with
  | pipe j y =>
    have hj : j ≠ i := fun hj => h y (by rw [hj])
    simp [eventsAt, hj]
  | _ => rfl

/-- A pipe of an office runs as it does by itself. -/
theorem Runs.pipe (h : o.Runs events o') {l : Pipe ε} (hl : o.pipes[i]? = some l) :
    ∃ l', o'.pipes[i]? = some l' ∧ l.Runs (eventsAt i events) l' := by
  induction h with
  | refl => exact ⟨l, hl, .refl⟩
  | step _ hstep ih =>
    obtain ⟨l₁, hl₁, hruns⟩ := ih
    rw [eventsAt_append]
    rcases hstep.at_pipe i with ⟨y, l₁', l₂, p, rfl, hl₁', hpipe, hl₂⟩ |
      ⟨hother, hsame | ⟨hnone, -⟩⟩
    · obtain rfl := Option.some.inj (hl₁.symm.trans hl₁')
      rw [eventsAt_self]
      exact ⟨l₂, hl₂, .step hruns hpipe⟩
    · rw [eventsAt_of_ne hother, List.append_nil]
      exact ⟨l₁, hsame.trans hl₁, hruns⟩
    · exact absurd (hnone.symm.trans hl₁) nofun

/-- At a place there was never a pipe, or there is one that runs since it was opened. -/
theorem Runs.pipe_cases (h : (start name maxOps maxScans).Runs events o) (i : Nat) :
    (o.pipes[i]? = none ∧ eventsAt i events = []) ∨ ∃ l capacity, o.pipes[i]? = some l ∧
      (Pipe.start capacity l.work).Runs (eventsAt i events) l := by
  induction h with
  | refl => exact .inl ⟨rfl, rfl⟩
  | step _ hstep ih =>
    rw [eventsAt_append]
    rcases ih with ⟨hnone, hnil⟩ | ⟨l₁, capacity, hl₁, hruns⟩
    · rcases hstep.at_pipe i with ⟨y, l, l', p, -, hl, -⟩ |
        ⟨hother, hsame | ⟨-, capacity, work, hnew⟩⟩
      · exact absurd (hnone.symm.trans hl) nofun
      · rw [eventsAt_of_ne hother, hnil]
        exact .inl ⟨hsame.trans hnone, rfl⟩
      · rw [eventsAt_of_ne hother, hnil]
        exact .inr ⟨_, capacity, hnew, .refl⟩
    · obtain ⟨l₂, hl₂, hmore⟩ := (Runs.refl.step hstep).pipe hl₁
      refine .inr ⟨l₂, capacity, hl₂, ?_⟩
      rw [hmore.work_eq]
      exact hruns.trans hmore

/-- The events at a pipe are a run of it from its start. -/
theorem Runs.pipe_start (h : (start name maxOps maxScans).Runs events o) {l : Pipe ε}
    (hl : o.pipes[i]? = some l) :
    ∃ capacity, (Pipe.start capacity l.work).Runs (eventsAt i events) l := by
  rcases h.pipe_cases i with ⟨hnone, -⟩ | ⟨l₁, capacity, hl₁, hruns⟩
  · exact absurd (hnone.symm.trans hl) nofun
  · obtain rfl := Option.some.inj (hl₁.symm.trans hl)
    exact ⟨capacity, hruns⟩

end Office

end SnapshotStore
