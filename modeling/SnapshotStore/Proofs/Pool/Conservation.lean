import SnapshotStore.Proofs.Pool.Closing

/-!
# No permit is lost, and closing is final

Whoever uses a pool, and in whatever order: the free permits of each kind and what runs by them add
up to the limit of the pool (`Office.Conserves`), and a pool that is closed starts nothing more
while what has a permit comes to its own end (`Office.StaysClosed`).
-/

namespace SnapshotStore

namespace Pipe

variable {ε : Type} {l l' : Pipe ε} {e : Event ε} {events : List (Event ε)} {p p' : Pool}

/-- A producer that has a permit, or whose end is still to be sent. -/
def IsAdmitted (l : Pipe ε) : Prop :=
  match l.stage with
  | .acquiring t => t = .granted
  | .running _ | .failing _ | .fallen => True
  | .silent => False

/-- What has a permit is not refused one. -/
theorem Step.not_refused (h : l.Step p e l' p') (hl : ∀ t, l.stage = .acquiring t → t = .granted) :
    e ≠ .asked .refused ∧ ∀ t, l'.stage = .acquiring t → t = .granted := by
  cases h with
  | ask ht =>
    obtain rfl := hl _ rfl
    cases ht
  | receive | leave => exact ⟨nofun, hl⟩
  | @finish _ _ _ r =>
    refine ⟨nofun, fun t ht => ?_⟩
    cases r <;> cases ht
  | _ =>
    refine ⟨nofun, fun t ht => ?_⟩
    cases ht

/-- Who has a permit is not refused. -/
theorem Runs.not_refused (h : l.Runs events l') (hl : ∀ t, l.stage = .acquiring t → t = .granted) :
    .asked .refused ∉ events ∧ ∀ t, l'.stage = .acquiring t → t = .granted := by
  induction h with
  | refl => exact ⟨nofun, hl⟩
  | step _ hstep ih =>
    obtain ⟨hevents, hgranted⟩ := ih
    obtain ⟨he, hgranted⟩ := hstep.not_refused hgranted
    exact ⟨by simpa [hevents] using Ne.symm he, hgranted⟩

/-- A refusal came early or late. -/
theorem isRefused_append {before after : List (Event ε)}
    (h : (record (before ++ after)).isRefused = true) :
    (record before).isRefused = true ∨ .asked .refused ∈ after := by
  induction after generalizing before with
  | nil => exact .inl (by rwa [List.append_nil] at h)
  | cons e after ih =>
    rw [List.append_cons] at h
    rcases ih h with hbefore | hafter
    · rw [record_concat] at hbefore
      cases e with
      | asked t =>
        cases t with
        | refused => exact .inr List.mem_cons_self
        | _ => exact .inl hbefore
      | _ => exact .inl hbefore
    · exact .inr (List.mem_cons_of_mem _ hafter)

/-- The end of a producer that was admitted while its consumer was there is that of its work. -/
theorem Runs.end_of_isAdmitted {capacity : Nat} {w : Work ε Unit} {later : List (Event ε)}
    (h : (start capacity w).Runs events l) (hl : l.IsAdmitted) (h' : l.Runs later l')
    (hsilent : l'.stage = .silent) (hopen : l'.channel.isOpen = true) :
    ∃ r, w.ComesTo (record (events ++ later)).sent (.finish r) ∧
      (record (events ++ later)).returned = [r] ∧
      (record (events ++ later)).reported = r.report := by
  have htells := ((h.trans h').shows hopen).tells
  rw [hsilent] at htells
  rcases htells.of_silent with ⟨r, hsent, hreturned, hreported, -⟩ | ⟨-, -, -, hrefused⟩
  · exact ⟨r, hsent, hreturned, hreported⟩
  · -- There was a permit, so it was not refused before or later.
    have hbefore := (h.shows (h'.isOpen_of hopen)).tells
    unfold IsAdmitted at hl
    rcases isRefused_append hrefused with hrefused | hrefused
    · exfalso
      generalize l.stage = s at hl hbefore
      cases hbefore with
      | @asking t _ _ _ hrefused' =>
        obtain rfl : t = .granted := hl
        exact absurd (hrefused.symm.trans hrefused') nofun
      | running _ _ _ hrefused' | returned _ _ _ _ hrefused' =>
        exact absurd (hrefused.symm.trans hrefused') nofun
      | reported | refused => exact hl
    · refine absurd hrefused (h'.not_refused fun t ht => ?_).1
      rw [ht] at hl
      exact hl

end Pipe

namespace Office

variable {α ε : Type} {o o' : Office α ε} {events later : List (Event α ε)} {name : String}
  {maxOps maxScans : Nat}

/-- The permits of an office that was opened with some limits, after some events. -/
structure Conserves (maxOps maxScans : Nat) (o : Office α ε) : Prop where
  /-- When no permit is on its way, it is free or an operation runs by it. -/
  ops_settled : o.IsSettled →
    o.pool.ops.available + o.operations.countP (·.stage.isRunning) = max maxOps 1
  scans_settled : o.IsSettled →
    o.pool.scans.available + o.pipes.countP (·.stage.isRunning) = max maxScans 1
  /-- A permit that is not free is held by one of those that hold one, so no more are free than
  there are. -/
  ops_busy : o.pool.ops.available ≤ o.pool.ops.limit ∧
    o.pool.ops.limit - o.pool.ops.available = o.operations.countP (·.stage.holds)
  scans_busy : o.pool.scans.available ≤ o.pool.scans.limit ∧
    o.pool.scans.limit - o.pool.scans.available = o.pipes.countP (·.stage.holds)
  /-- Neither budget draws on the other. -/
  scans_apart : ∀ i e o', o.Step (.operation i e) o' → o'.pool.scans = o.pool.scans
  ops_apart : ∀ i e o', o.Step (.pipe i e) o' → o'.pool.ops = o.pool.ops
  /-- Only a closed pool refuses, and any other answer is the end of the operation's own work. -/
  answers : ∀ x ∈ o.operations, ∀ a, x.answer? = some a →
    (x.stage = .acquiring .refused ∧ o.pool.isClosed = true ∧ a = .error .closed) ∨
      ∃ r, x.stage = .ended r ∧ x.work.CanEnd r ∧ a = r.toExcept

/-- What happens to an office behind the close of its pool. -/
structure StaysClosed (o : Office α ε) (events later : List (Event α ε)) (o' : Office α ε) :
    Prop where
  isClosed : o'.pool.isClosed = true
  /-- An operation without a permit, or that is submitted later, never begins.  If its caller stays,
  it is told so, or is told in one step. -/
  refusesOperations : ∀ i, (∀ x, o.operations[i]? = some x → x.IsTurnedAway) →
    .operation i .began ∉ later ∧ ∀ x', o'.operations[i]? = some x' →
      x'.stage = .withdrawn ∨ x'.answer? = some (.error .closed) ∨
        ∃ x'' p, x'.Step o'.pool (.asked .refused) x'' p ∧ x''.answer? = some (.error .closed)
  /-- A producer without a permit, or that is opened later, never begins.  Its consumer gets nothing
  but the refusal, and if it stays it gets that. -/
  refusesProducers : ∀ i,
    (∀ l, o.pipes[i]? = some l → ∃ t, l.stage = .acquiring t ∧ t ≠ .granted) →
      .pipe i .began ∉ later ∧ (∀ item, .pipe i (.received item) ∈ later → item = .error .closed) ∧
        ∀ l', o'.pipes[i]? = some l' → l'.channel.isOpen = true →
          .pipe i (.received (.error .closed)) ∈ later ∨ ∃ more l'' p, l'.Steps o'.pool more l'' p ∧
            .received (.error .closed) ∈ more
  /-- Any other operation goes on and can come to its end, and its caller is told how its own work
  ended. -/
  completesOperations : ∀ (i : Nat) (x : Operation α), o.operations[i]? = some x →
    ¬ x.IsTurnedAway → o'.CanAnswer i ∧ ∃ x' : Operation α, o'.operations[i]? = some x' ∧
      x'.IsAdmitted ∧ x'.work = x.work ∧
        ∀ a, x'.answer? = some a → ∃ r, x.work.CanEnd r ∧ a = r.toExcept
  /-- So does any other producer whose consumer stays, and the failure behind its items is that of
  its own work. -/
  completesProducers : ∀ (i : Nat) (l : Pipe ε), o.pipes[i]? = some l → l.IsAdmitted →
    ∃ l' : Pipe ε, o'.pipes[i]? = some l' ∧ l'.work = l.work ∧ (l'.channel.isOpen = true →
      (∃ more l'', l'.Runs more l'' ∧ .ended ∈ more ∧ .left ∉ more) ∧
      (l'.stage = .silent →
        ∃ r, l.work.ComesTo (Pipe.record (eventsAt i (events ++ later))).sent (.finish r) ∧
          (Pipe.record (eventsAt i (events ++ later))).returned = [r] ∧
          (Pipe.record (eventsAt i (events ++ later))).reported = r.report))

/-- Every run keeps account of its permits. -/
theorem Runs.conserves (h : (start name maxOps maxScans).Runs events o) :
    o.Conserves maxOps maxScans := by
  obtain ⟨hops, hheld, hscans, hheld'⟩ := h.balanced
  constructor
  case ops_settled =>
    intro hsettled
    rw [hsettled.operations_eq]
    exact hheld
  case scans_settled =>
    intro hsettled
    rw [hsettled.pipes_eq]
    exact hheld'
  case ops_busy => exact ⟨by omega, by omega⟩
  case scans_busy => exact ⟨by omega, by omega⟩
  case scans_apart =>
    intro i e o' hstep
    cases hstep with
    | operation _ hstep => exact hstep.trades.2.1
  case ops_apart =>
    intro i e o' hstep
    cases hstep with
    | pipe _ hstep => exact hstep.trades.2.1
  case answers => exact fun x hx a ha => (h.isSound x hx).answer? ha

/-- A closed office stays closed, and only who has a permit goes on. -/
theorem Runs.staysClosed (h : (start name maxOps maxScans).Runs events o)
    (hclosed : o.pool.isClosed = true) (hlater : o.Runs later o') :
    o.StaysClosed events later o' := by
  have hclosed' := hlater.isClosed hclosed
  constructor
  case isClosed => exact hclosed'
  case refusesOperations =>
    intro i hi
    obtain ⟨haway, hbegan⟩ := hlater.turnsAway_operation hclosed hi
    exact ⟨hbegan, fun x' hx' => (haway x' hx').told hclosed'⟩
  case refusesProducers =>
    intro i hi
    have hasking : ∀ l, o.pipes[i]? = some l → l.TurnedAway False := by
      intro l hl
      obtain ⟨t, hstage, ht⟩ := hi l hl
      obtain ⟨capacity, hstart⟩ := h.pipe_start hl
      exact .asking hstage ht (hstart.items_of_acquiring hstage)
    obtain ⟨haway, hbegan, hreceived⟩ := hlater.turnsAway_pipe hclosed hasking
    refine ⟨hbegan, hreceived, fun l' hl' hopen => (haway l' hl').told hclosed' hopen ?_⟩
    obtain ⟨capacity, hstart⟩ := (h.trans hlater).pipe_start hl'
    rw [hstart.capacity_eq]
    exact Nat.lt_of_lt_of_le Nat.one_pos (Nat.le_max_right capacity 1)
  case completesOperations =>
    -- Its permit was given before the close, and the work ends as it would have.
    intro i x hi hx
    obtain ⟨x', hx', hadmitted, hwork⟩ :=
      hlater.isAdmitted hi (x.isAdmitted_or_isTurnedAway.resolve_right hx)
    refine ⟨canAnswer_of_isAdmitted hx' hadmitted, x', hx', hadmitted, hwork, fun a ha => ?_⟩
    have hsound := (h.trans hlater).isSound x' (List.mem_of_getElem? hx')
    rcases hsound.answer? ha with ⟨hrefused, -, -⟩ | ⟨r, -, hr, ha⟩
    · rcases hadmitted with hstage | ⟨rest, hstage⟩ | ⟨r, hstage⟩ <;>
        exact absurd (hrefused.symm.trans hstage) nofun
    · exact ⟨r, hwork ▸ hr, ha⟩
  case completesProducers =>
    intro i l hi hl
    obtain ⟨l', hl', hruns⟩ := hlater.pipe hi
    obtain ⟨capacity, hstart⟩ := h.pipe_start hi
    refine ⟨l', hl', hruns.work_eq, fun hopen => ⟨(hstart.trans hruns).exists_end hopen,
      fun hsilent => ?_⟩⟩
    rw [eventsAt_append]
    exact hstart.end_of_isAdmitted hl hruns hsilent hopen

/-- Permits are neither lost nor made, and closing is final. -/
theorem permits_conserved {α ε : Type} {name : String} {maxOps maxScans : Nat}
    {events : List (Event α ε)} {o : Office α ε}
    (h : (start name maxOps maxScans).Runs events o) :
    o.Conserves maxOps maxScans ∧ (o.pool.isClosed = true →
      ∀ later o', o.Runs later o' → o.StaysClosed events later o') :=
  ⟨h.conserves, fun hclosed _ _ hlater => h.staysClosed hclosed hlater⟩

/-- A pool with one permit is closed when one operation has it and another waits for it: the first
breaks down and gives its permit back, the other never begins. -/
theorem permits_conserved_of_panicked :
    ∃ (events later : List (Event Nat Nat)) (o o' : Office Nat Nat),
    (start "" 0 0).Runs events o ∧ o.pool.isClosed = true ∧ o.Runs later o' ∧
      o'.operations.map Operation.answer?
        = [some (.error (.internal "storage task failed:")), some (.error .closed)] ∧
      o'.pool.ops.available + o'.operations.countP (·.stage.isRunning) = 1 ∧
      .operation 1 .began ∉ later := by
  let first (s : Operation.Stage Nat) : Operation Nat := ⟨.finish .panicked, s, true⟩
  let second (s : Operation.Stage Nat) : Operation Nat := ⟨.finish (.done 1), s, true⟩
  let busy (isClosed : Bool) : Pool := ⟨"", ⟨1, 0⟩, ⟨1, 1⟩, isClosed⟩
  have hopened : (start "" 0 0).Runs
      [.submitted (.finish .panicked), .operation 0 (.asked .offered),
        .operation 0 (.asked .granted), .submitted (.finish (.done 1)), .closed]
      (⟨busy true, [first (.acquiring .granted), second (.acquiring .waiting)], []⟩ :
        Office Nat Nat) :=
    .step (.step (.step (.step (.step .refl (.submit _)) (.operation rfl (.ask (.offer rfl rfl))))
      (.operation rfl (.ask (.accept rfl)))) (.submit _)) .close
  have hlater : Runs ⟨busy true, [first (.acquiring .granted), second (.acquiring .waiting)], []⟩
      [.operation 0 .began, .operation 0 (.ended .panicked), .operation 1 (.asked .refused)]
      (⟨⟨"", ⟨1, 1⟩, ⟨1, 1⟩, true⟩, [first (.ended .panicked), second (.acquiring .refused)], []⟩ :
        Office Nat Nat) :=
    .step (.step (.step .refl (.operation rfl .begin)) (.operation rfl .finish))
      (.operation rfl (.ask (.refuse rfl)))
  have hclosed := (permits_conserved hopened).2 rfl _ _ hlater
  have hwaiting : (second (.acquiring .waiting)).IsTurnedAway := .inr ⟨.waiting, rfl, nofun⟩
  have hsettled := (permits_conserved (hopened.trans hlater)).1.ops_settled
    ⟨by simp [first, second, Ticket.holds], nofun⟩
  exact ⟨_, _, _, _, hopened, rfl, hlater, rfl, hsettled,
    (hclosed.refusesOperations 1 fun x hx => Option.some.inj hx ▸ hwaiting).1⟩

end Office

end SnapshotStore
