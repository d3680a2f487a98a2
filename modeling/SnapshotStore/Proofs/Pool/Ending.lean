import SnapshotStore.Proofs.Pool.Order

/-!
# Reaching the end of a pipe

However producer and consumer take turns, a consumer that stays comes to the end of its stream
(`Runs.exists_end`).  Until then somebody can take a step, unless the producer waits for a permit
that the pool does not have (`Runs.exists_step`); and no step but seeing the end can be taken for
ever (`wellFounded_goesOn`).
-/

namespace SnapshotStore

/-- Every effect has an answer. -/
theorem Effect.nonempty_answer (q : Effect) : Nonempty q.Answer := by
  cases q with
  | ask c => exact ⟨.error .closed⟩
  | resolve token => exact ⟨.error .closed⟩
  | _ => infer_instance

namespace Pipe

variable {ε : Type} {w : Work ε Unit} {s : Stage ε} {l l₁ l₂ : Pipe ε} {p p' : Pool} {e : Event ε}
  {events : List (Event ε)} {capacity : Nat}

/-! ## No run is endless -/

/-- A step other than seeing the end. -/
def GoesOn (l' l : Pipe ε) : Prop := ∃ p e p', l.Step p e l' p' ∧ e ≠ .ended

/-- No run from a stage is endless. -/
def Stage.Halts (w : Work ε Unit) (s : Stage ε) : Prop := ∀ c, Acc GoesOn (⟨w, s, c⟩ : Pipe ε)

/-- What only the consumer does ends by itself, so the steps of the producer decide. -/
theorem Stage.halts_of (h : ∀ {c : Channel ε} {p : Pool} {e : Event ε} {l : Pipe ε} {p' : Pool},
    Step ⟨w, s, c⟩ p e l p' → e.isOfConsumer = false → l.stage.Halts w) : s.Halts w := by
  intro c
  -- A consumer takes what is on its way, and may then go away.
  induction hn : c.items.length + c.isOpen.toNat using Nat.strongRecOn generalizing c with
  | ind n ih =>
    refine ⟨_, ?_⟩
    rintro ⟨w', s', c'⟩ ⟨p, e, p', hstep, he⟩
    obtain rfl : w' = w := hstep.work_eq
    have hnext := h hstep
    cases hstep with
    | receive hopen hreceive =>
      obtain ⟨hitems, hopen', -⟩ := Channel.receive?_eq_some hreceive
      refine ih _ ?_ c' rfl
      rw [hopen', ← hn, hitems, List.length_cons]
      omega
    | leave hopen =>
      refine ih _ ?_ c.desert rfl
      simp only [Channel.desert, List.length_nil, Bool.toNat_false, ← hn, hopen, Bool.toNat_true]
      omega
    | seeEnd => exact absurd rfl he
    | _ => exact hnext rfl _

/-- A silent producer does nothing more. -/
theorem Stage.halts_silent : (silent : Stage ε).Halts w := by
  refine halts_of fun hstep he => ?_
  cases hstep with
  | report hfailure => cases hfailure
  | _ => exact absurd he nofun

/-- A failure that is still to be sent is sent once. -/
theorem Stage.halts_of_failure? {e : StoreError} (hs : s.failure? = some e) : s.Halts w := by
  refine halts_of fun hstep he => ?_
  cases hstep with
  | report => exact halts_silent
  | ask ht => cases ht <;> cases hs
  | begin | perform | send | finish => cases hs
  | _ => exact absurd he nofun

/-- After its work a producer has one report to make at most. -/
theorem Stage.halts_after (r : Outcome Unit) : (Stage.after r : Stage ε).Halts w := by
  cases r with
  | done u => exact halts_silent
  | failed e => exact halts_of_failure? rfl
  | panicked => exact halts_of_failure? rfl

/-- Running work comes to its end, whatever it is answered. -/
theorem Stage.halts_running (rest : Work ε Unit) : (running rest).Halts w := by
  induction rest with
  | finish r =>
    refine halts_of fun hstep he => ?_
    cases hstep with
    | finish => exact halts_after r
    | report hfailure => cases hfailure
    | _ => exact absurd he nofun
  | perform q next ih =>
    refine halts_of fun hstep he => ?_
    cases hstep with
    | perform a => exact ih a
    | report hfailure => cases hfailure
    | _ => exact absurd he nofun
  | send item next ih =>
    refine halts_of fun hstep he => ?_
    cases hstep with
    | @send _ _ _ _ _ _ heard => exact ih heard
    | report hfailure => cases hfailure
    | _ => exact absurd he nofun

/-- Who asks for a permit comes to its end, with the permit or without. -/
theorem Stage.halts_acquiring (t : Ticket) : (acquiring t : Stage ε).Halts w := by
  have hrefused : (acquiring .refused : Stage ε).Halts w := halts_of_failure? rfl
  have hgranted : (acquiring .granted : Stage ε).Halts w := by
    refine halts_of fun hstep he => ?_
    cases hstep with
    | ask ht => cases ht
    | begin => exact halts_running w
    | report hfailure => cases hfailure
    | _ => exact absurd he nofun
  have hoffered : (acquiring .offered : Stage ε).Halts w := by
    refine halts_of fun hstep he => ?_
    cases hstep with
    | ask ht =>
      cases ht with
      | accept => exact hgranted
      | decline => exact hrefused
    | report hfailure => cases hfailure
    | _ => exact absurd he nofun
  cases t with
  | granted => exact hgranted
  | refused => exact hrefused
  | offered => exact hoffered
  | waiting =>
    refine halts_of fun hstep he => ?_
    cases hstep with
    | ask ht =>
      cases ht with
      | offer => exact hoffered
      | refuse => exact hrefused
    | report hfailure => cases hfailure
    | _ => exact absurd he nofun

/-- No step but seeing the end can be taken for ever. -/
theorem wellFounded_goesOn : WellFounded (GoesOn (ε := ε)) := by
  refine ⟨fun ⟨w, s, c⟩ => ?_⟩
  cases s with
  | acquiring t => exact Stage.halts_acquiring t c
  | running rest => exact Stage.halts_running rest c
  | failing e => exact Stage.halts_of_failure? rfl c
  | fallen => exact Stage.halts_of_failure? rfl c
  | silent => exact Stage.halts_silent c

/-! ## No run is stuck -/

/-- The room of a channel does not change. -/
theorem Step.capacity_eq (h : l₁.Step p e l₂ p') : l₂.channel.capacity = l₁.channel.capacity := by
  cases h with
  | send h | report _ h => exact Channel.capacity_of_send? h
  | receive _ h => exact (Channel.receive?_eq_some h).2.2
  | _ => rfl

/-- A channel keeps its capacity. -/
theorem Runs.capacity_eq (h : l₁.Runs events l₂) :
    l₂.channel.capacity = l₁.channel.capacity := by
  induction h with
  | refl => rfl
  | step _ hstep ih => exact hstep.capacity_eq.trans ih

/-- Something can be sent, or something can be received. -/
theorem exists_send_or_receive {c : Channel ε} (hpos : 0 < c.capacity)
    (item : Except StoreError ε) :
    (∃ heard c', c.send? item = some (heard, c')) ∨ ∃ item c', c.receive? = some (item, c') := by
  unfold Channel.send? Channel.receive?
  cases c.items with
  | cons item items => exact .inr ⟨item, _, rfl⟩
  | nil => cases c.isOpen <;> simp [hpos]

/-- Until the end somebody can take a step, unless there is no permit to wait for. -/
theorem Runs.exists_step (h : (start capacity w).Runs events l) (hopen : l.channel.isOpen = true)
    (p : Pool) (hfree : p.isClosed = true ∨ 0 < p.scans.available) :
    ∃ e l' p', l.Step p e l' p' ∧ e ≠ .left := by
  have hpos : 0 < l.channel.capacity := by
    rw [h.capacity_eq]
    exact Nat.lt_of_lt_of_le Nat.one_pos (Nat.le_max_right capacity 1)
  obtain ⟨w', s, c⟩ := l
  have hreceive : ∀ {item c'}, c.receive? = some (item, c') →
      ∃ e l' p', Step ⟨w', s, c⟩ p e l' p' ∧ e ≠ .left := fun h =>
    ⟨_, _, _, .receive hopen h, nofun⟩
  -- A full channel has an item for the consumer, so either side can go on.
  have hreport : ∀ {e}, s.failure? = some e → ∃ e l' p', Step ⟨w', s, c⟩ p e l' p' ∧ e ≠ .left := by
    intro e he
    rcases exists_send_or_receive hpos (.error e) with ⟨_, _, hsend⟩ | ⟨_, _, hnext⟩
    · exact ⟨_, _, _, .report he hsend, nofun⟩
    · exact hreceive hnext
  cases s with
  | acquiring t =>
    cases t with
    | waiting =>
      cases hclosed : p.isClosed with
      | true => exact ⟨_, _, _, .ask (.refuse hclosed), nofun⟩
      | false =>
        have hscans : 0 < p.scans.available := by simpa [hclosed] using hfree
        exact ⟨_, _, _, .ask (.offer hclosed (if_pos hscans)), nofun⟩
    | offered =>
      cases hclosed : p.isClosed with
      | true => exact ⟨_, _, _, .ask (.decline hclosed), nofun⟩
      | false => exact ⟨_, _, _, .ask (.accept hclosed), nofun⟩
    | granted => exact ⟨_, _, _, .begin, nofun⟩
    | refused => exact hreport rfl
  | running rest =>
    cases rest with
    | finish r => exact ⟨_, _, _, .finish, nofun⟩
    | perform q next =>
      obtain ⟨a⟩ := q.nonempty_answer
      exact ⟨_, _, _, .perform a, nofun⟩
    | send item next =>
      rcases exists_send_or_receive hpos item with ⟨_, _, hsend⟩ | ⟨_, _, hnext⟩
      · exact ⟨_, _, _, .send hsend, nofun⟩
      · exact hreceive hnext
  | failing e => exact hreport rfl
  | fallen => exact hreport rfl
  | silent =>
    cases hnext : c.receive? with
    | none => exact ⟨_, _, _, .seeEnd hopen hnext, nofun⟩
    | some x => exact hreceive hnext

/-- A consumer that stays can come to the end. -/
theorem Runs.exists_end (h : (start capacity w).Runs events l) (hopen : l.channel.isOpen = true) :
    ∃ more l', l.Runs more l' ∧ .ended ∈ more ∧ .left ∉ more := by
  induction l using wellFounded_goesOn.induction generalizing events with
  | _ l ih =>
    obtain ⟨e, l₁, p', hstep, hstays⟩ := h.exists_step hopen (Pool.new "" 1 1) (.inr Nat.one_pos)
    by_cases hended : e = .ended
    · subst hended
      exact ⟨[.ended], l₁, .single hstep, by simp, by simp⟩
    · have hopen₁ : l₁.channel.isOpen = true := by
        cases hgone : l₁.channel.isOpen with
        | true => rfl
        | false => exact absurd (hstep.eq_left hopen hgone) hstays
      obtain ⟨more, l', hmore, hend, hleft⟩ :=
        ih l₁ ⟨_, e, p', hstep, hended⟩ (h.step hstep) hopen₁
      refine ⟨e :: more, l', (Runs.single hstep).trans hmore, List.mem_cons_of_mem _ hend, ?_⟩
      exact fun hmem => (List.mem_cons.mp hmem).elim (fun heq => hstays heq.symm) hleft

end Pipe

end SnapshotStore
