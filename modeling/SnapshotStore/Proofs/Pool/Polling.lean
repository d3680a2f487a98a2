import SnapshotStore.Proofs.Pool.Order

/-!
# A producer that is polled is a pipe

`Producer.start`, `Producer.poll` and `Producer.drop` let the work run as far as it comes whenever
the consumer does something.  That is one of the orders in which a pipe may take its steps: what a
consumer sees of a producer it can see of a pipe (`Shows.poll`, `Shows.drop`,
`exists_runs_pollMany`).

The pools agree but for one thing.  A producer that broke down keeps its permit until the report is
sent, where a pipe gives it back at once.
-/

namespace SnapshotStore

variable {ε : Type}

namespace Pipe

/-- The work that a producer in some stage still has to do. -/
def Stage.rest? : Stage ε → Option (Work ε Unit)
  | running rest => some rest.supervised
  | failing e => some (Work.finish (.failed e)).supervised
  | fallen => some (Work.finish .panicked).supervised
  | acquiring _ | silent => none

/-- The pool of a pipe, from that of the producer. -/
def Stage.pool (s : Stage ε) (p : Pool) : Pool := if s.holds then p else Producer.released p

end Pipe

/-- The steps of a consumer that asked for an item. -/
def Polled.events : Polled ε → List (Pipe.Event ε)
  | .item x => [.received x]
  | .ended => [.ended]
  | .pending => []

namespace Producer

variable {w rest : Work ε Unit} {x : Producer ε} {l : Pipe ε} {p q : Pool} {b : Backend}
  {c : Channel ε} {s : Pipe.Stage ε}

/-- A producer and its pool are a pipe and its pool. -/
inductive Shows (w : Work ε Unit) : Producer ε → Pool → Pipe ε → Pool → Prop
  | idle (capacity : Nat) (p : Pool) : Shows w (.idle capacity w) p (.start capacity w) p
  | running {s : Pipe.Stage ε} {rest : Work ε Unit} (hs : s.rest? = some rest) (c : Channel ε)
      (p : Pool) : Shows w (.running rest c) p ⟨w, s, c⟩ (s.pool p)
  | ended (c : Channel ε) (p : Pool) : Shows w (.ended c.items) p ⟨w, .silent, c⟩ p

/-- A producer that goes on by itself. -/
def GoesOn (w : Work ε Unit) (l : Pipe ε) (q : Pool) (x : Producer ε) (p : Pool) : Prop :=
  ∃ events l' q', l.Steps q events l' q' ∧ events.filter Pipe.Event.isOfConsumer = [] ∧
    Shows w x p l' q' ∧ l'.channel.isOpen = l.channel.isOpen

theorem goesOn_refl (h : Shows w x p l q) : GoesOn w l q x p := ⟨[], l, q, .refl, rfl, h, rfl⟩

/-- A step that the consumer does not take may come first. -/
theorem GoesOn.cons {e : Pipe.Event ε} {l₁ : Pipe ε} {q₁ : Pool} (hstep : l.Step q e l₁ q₁)
    (he : e.isOfConsumer = false) (hopen : l₁.channel.isOpen = l.channel.isOpen)
    (h : GoesOn w l₁ q₁ x p) : GoesOn w l q x p := by
  obtain ⟨events, l', q', hsteps, hevents, hshows, hopen'⟩ := h
  refine ⟨[e] ++ events, l', q', (Pipe.Steps.step .refl hstep).trans hsteps, ?_, hshows,
    hopen'.trans hopen⟩
  rw [List.singleton_append, List.filter_cons_of_neg (by simp [he]), hevents]

/-! ## Letting the work run -/

section settle

variable {item : Except StoreError ε} {next : Bool → Work ε Unit}

/-- An effect that is answered lets the work go on. -/
theorem settle_perform {e : Effect} {next : e.Answer → Work ε Unit} {a : e.Answer} {b' : Backend}
    (ha : b.answer? e = some (a, b')) (c : Channel ε) (p : Pool) :
    settle (.perform e next) c p b = settle (next a) c p b' := by
  simp [settle, Work.advance, Work.advanceTo, ha]

/-- One that is not answered keeps it waiting. -/
theorem settle_perform_of_waits {e : Effect} {next : e.Answer → Work ε Unit}
    (ha : b.answer? e = none) (c : Channel ε) (p : Pool) :
    settle (.perform e next) c p b = (running (.perform e next) c, p, b) := by
  simp [settle, Work.advance, Work.advanceTo, ha]

/-- An item that fits lets the work go on. -/
theorem settle_send {heard : Bool} {c' : Channel ε} (hsend : c.send? item = some (heard, c'))
    (p : Pool) (b : Backend) : settle (.send item next) c p b = settle (next heard) c' p b := by
  simp [settle, Work.advance, Work.advanceTo, hsend]

/-- A full channel keeps it waiting. -/
theorem settle_send_of_waits (hsend : c.send? item = none) (p : Pool) (b : Backend) :
    settle (.send item next) c p b = (running (.send item next) c, p, b) := by
  simp [settle, Work.advance, Work.advanceTo, hsend]

end settle

/-- A failure that is sent gives the permit back, unless that was done before. -/
theorem giveBack_silent (s : Pipe.Stage ε) (p : Pool) :
    s.giveBack .silent (s.pool p) = released p := by
  unfold Pipe.Stage.giveBack Pipe.Stage.pool
  cases s.holds <;> rfl

/-- A producer that still has to send a failure. -/
theorem goesOn_failure {e : StoreError} (he : s.failure? = some e)
    (hs : s.rest? = some (.send (.error e) fun _ => .finish (.done ()))) (c : Channel ε) (p : Pool)
    (b : Backend) : GoesOn w ⟨w, s, c⟩ (s.pool p)
      (settle (.send (.error e) fun _ => .finish (.done ())) c p b).1
      (settle (.send (.error e) fun _ => .finish (.done ())) c p b).2.1 := by
  cases hsend : c.send? (.error e) with
  | none =>
    rw [settle_send_of_waits hsend]
    exact goesOn_refl (.running hs c p)
  | some y =>
    obtain ⟨heard, c'⟩ := y
    rw [settle_send hsend]
    refine .cons (.report he hsend) rfl (Channel.isOpen_of_send? hsend) ?_
    rw [giveBack_silent]
    exact goesOn_refl (.ended c' (released p))

/-- A producer whose work runs. -/
theorem goesOn_running (rest : Work ε Unit) (c : Channel ε) (p : Pool) (b : Backend) :
    GoesOn w ⟨w, .running rest, c⟩ p (settle rest.supervised c p b).1
      (settle rest.supervised c p b).2.1 := by
  -- Each piece of work is a step of the pipe, until it waits or ends.
  induction rest generalizing c b with
  | finish r =>
    refine .cons .finish rfl rfl ?_
    cases r with
    | done u => exact goesOn_refl (.ended c (released p))
    | failed e => exact goesOn_failure rfl rfl c p b
    | panicked => exact goesOn_failure rfl rfl c p b
  | perform e next ih =>
    cases ha : b.answer? e with
    | none =>
      rw [Work.supervised, settle_perform_of_waits ha]
      exact goesOn_refl (.running rfl c p)
    | some y =>
      obtain ⟨a, b'⟩ := y
      rw [Work.supervised, settle_perform ha]
      exact .cons (.perform a) rfl rfl (ih a c b')
  | send item next ih =>
    cases hsend : c.send? item with
    | none =>
      rw [Work.supervised, settle_send_of_waits hsend]
      exact goesOn_refl (.running rfl c p)
    | some y =>
      obtain ⟨heard, c'⟩ := y
      rw [Work.supervised, settle_send hsend]
      exact .cons (.send hsend) rfl (Channel.isOpen_of_send? hsend) (ih heard c' b)

/-- Work that is let run goes on as a pipe may. -/
theorem goesOn_settle (hs : s.rest? = some rest) (c : Channel ε) (p : Pool) (b : Backend) :
    GoesOn w ⟨w, s, c⟩ (s.pool p) (settle rest c p b).1 (settle rest c p b).2.1 := by
  cases s with
  | acquiring t => cases hs
  | running x =>
    cases hs
    exact goesOn_running x c p b
  | failing e =>
    cases hs
    exact goesOn_failure rfl rfl c p b
  | fallen =>
    cases hs
    exact goesOn_failure rfl rfl c p b
  | silent => cases hs

/-! ## The consumer -/

/-- A producer that is asked for its first item asks for a permit. -/
theorem Shows.start (h : Shows w x p l q) (b : Backend) :
    GoesOn w l q (x.start p b).1 (x.start p b).2.1 := by
  cases h with
  | running hs c p => exact goesOn_refl (.running hs c p)
  | ended c p => exact goesOn_refl (.ended c p)
  | idle capacity p =>
    unfold Producer.start
    -- A closed pool refuses, and the refusal is sent at once.  An open one gives a permit or lets
    -- wait.
    by_cases hclosed : p.isClosed = true
    · simp only [if_pos hclosed]
      have hsend : (Channel.new capacity : Channel ε).send? (.error .closed)
          = some (true, ⟨max capacity 1, [.error .closed], true⟩) := by
        simp [Channel.send?, Channel.new]
      exact .cons (.ask (.refuse hclosed)) rfl rfl (.cons (.report rfl hsend) rfl rfl
        (goesOn_refl (.ended ⟨max capacity 1, [.error .closed], true⟩ p)))
    · simp only [if_neg hclosed]
      rw [Bool.not_eq_true] at hclosed
      cases htake : p.scans.take? with
      | none => exact goesOn_refl (.idle capacity p)
      | some scans =>
        exact .cons (.ask (.offer hclosed htake)) rfl rfl (.cons (.ask (.accept hclosed)) rfl rfl
          (.cons .begin rfl rfl (goesOn_running w (.new capacity) { p with scans } b)))

/-- What a consumer sees of a producer it can see of a pipe. -/
theorem Shows.poll (h : Shows w x p l q) (hopen : l.channel.isOpen = true) (b : Backend) :
    ∃ events l' q', l.Steps q events l' q' ∧
      events.filter Pipe.Event.isOfConsumer = (x.poll p b).1.events ∧
      Shows w (x.poll p b).2.1 (x.poll p b).2.2.1 l' q' ∧ l'.channel.isOpen = true := by
  obtain ⟨events, l₁, q₁, hsteps, hevents, hshows, hopen₁⟩ := h.start b
  rw [hopen] at hopen₁
  unfold Producer.poll
  generalize x.start p b = y at hshows
  obtain ⟨x₁, p₁, b₁⟩ := y
  dsimp only at hshows
  -- The consumer takes the oldest item if there is one, and then the work goes on into the room
  -- that it left.
  cases hshows with
  | idle capacity => exact ⟨events, _, _, hsteps, hevents, .idle capacity _, hopen₁⟩
  | @running s rest hs c =>
    cases hreceive : c.receive? with
    | none =>
      simp only [hreceive]
      exact ⟨events, _, _, hsteps, hevents, .running hs c _, hopen₁⟩
    | some y =>
      obtain ⟨item, c'⟩ := y
      simp only [hreceive]
      obtain ⟨more, l', q', hmore, hquiet, hshows, hopen'⟩ := goesOn_settle (w := w) hs c' p₁ b₁
      have hstep := (Pipe.Steps.refl (l := ⟨w, s, c⟩) (p := s.pool p₁)).step
        (.receive hopen₁ hreceive)
      refine ⟨events ++ ([.received item] ++ more), l', q', hsteps.trans (hstep.trans hmore), ?_,
        hshows, hopen'.trans ((Channel.receive?_eq_some hreceive).2.1.trans hopen₁)⟩
      rw [List.filter_append, List.filter_append, hevents, hquiet]
      rfl
  | ended c =>
    have hsnoc : ∀ {e : Pipe.Event ε}, e.isOfConsumer = true →
        (events ++ [e]).filter Pipe.Event.isOfConsumer = [e] := by
      intro e he
      rw [List.filter_append, hevents, List.nil_append, List.filter_cons_of_pos he, List.filter_nil]
    obtain ⟨capacity, items, isOpen⟩ := c
    cases items with
    | nil => exact ⟨_, _, _, hsteps.step (.seeEnd hopen₁ rfl), hsnoc rfl,
        .ended ⟨capacity, [], isOpen⟩ _, hopen₁⟩
    | cons item items =>
      exact ⟨_, _, _, hsteps.step (.receive hopen₁ rfl), hsnoc rfl,
        .ended ⟨capacity, items, isOpen⟩ _, hopen₁⟩

/-- So is what a consumer gets that asks for a number of items. -/
theorem Shows.pollMany (h : Shows w x p l q) (hopen : l.channel.isOpen = true) (n : Nat)
    (b : Backend) : ∃ items isEnded x' p' b' events l' q',
      (Stream.produced x).pollMany n p b = ((items, isEnded, .produced x'), p', b') ∧
      l.Steps q events l' q' ∧ events.filter Pipe.Event.isOfConsumer
        = items.map .received ++ (if isEnded then [.ended] else []) ∧
      Shows w x' p' l' q' ∧ l'.channel.isOpen = true := by
  induction n generalizing x p l q b with
  | zero => exact ⟨[], false, x, p, b, [], l, q, rfl, .refl, rfl, h, hopen⟩
  | succ n ih =>
    obtain ⟨events, l₁, q₁, hsteps, hevents, hshows, hopen₁⟩ := h.poll hopen b
    cases hpoll : x.poll p b with
    | mk answer y =>
      obtain ⟨x₁, p₁, b₁⟩ := y
      rw [hpoll] at hevents hshows
      cases answer with
      | item i =>
        obtain ⟨items, isEnded, x', p', b', more, l', q', hmany, hmore, hitems, hshows', hopen'⟩ :=
          ih hshows hopen₁ b₁
        refine ⟨i :: items, isEnded, x', p', b', events ++ more, l', q', ?_, hsteps.trans hmore, ?_,
          hshows', hopen'⟩
        · simp [Stream.pollMany, Stream.poll, hpoll, hmany]
        · rw [List.filter_append, hevents, hitems]
          rfl
      | ended =>
        exact ⟨[], true, x₁, p₁, b₁, events, l₁, q₁, by simp [Stream.pollMany, Stream.poll, hpoll],
          hsteps, hevents, hshows, hopen₁⟩
      | pending =>
        exact ⟨[], false, x₁, p₁, b₁, events, l₁, q₁,
          by simp [Stream.pollMany, Stream.poll, hpoll], hsteps, hevents, hshows, hopen₁⟩

/-- All that a consumer gets of a producer from its start it can get in a run of a pipe. -/
theorem exists_runs_pollMany (capacity n : Nat) (w : Work ε Unit) (p : Pool) (b : Backend) :
    ∃ items isEnded s p' b' events l,
      (Stream.produced (.idle capacity w)).pollMany n p b = ((items, isEnded, s), p', b') ∧
      (Pipe.start capacity w).Runs events l ∧ events.filter Pipe.Event.isOfConsumer
        = items.map .received ++ (if isEnded then [.ended] else []) := by
  obtain ⟨items, isEnded, x', p', b', events, l, q, hmany, hsteps, hevents, -⟩ :=
    (Shows.idle (w := w) capacity p).pollMany rfl n b
  exact ⟨items, isEnded, _, p', b', events, l, hmany, hsteps.runs, hevents⟩

/-- A consumer that goes away does so from the pipe. -/
theorem Shows.drop {rest : Work ε Unit} (h : Shows w (.running rest c) p l q)
    (hopen : l.channel.isOpen = true) (b : Backend) :
    ∃ events l' q' x', l.Steps q events l' q' ∧
      events.filter Pipe.Event.isOfConsumer = [.left] ∧
      Shows w x' (Producer.drop (.running rest c) p b).1 l' q' := by
  cases h with
  | @running s rest hs c p =>
    obtain ⟨more, l', q', hmore, hquiet, hshows, -⟩ := goesOn_settle (w := w) hs c.desert p b
    have hstep := (Pipe.Steps.refl (l := ⟨w, s, c⟩) (p := s.pool p)).step (.leave hopen)
    refine ⟨[] ++ [.left] ++ more, l', q', _, hstep.trans hmore, ?_, hshows⟩
    rw [List.filter_append, hquiet]
    rfl

end Producer

end SnapshotStore
