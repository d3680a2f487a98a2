import SnapshotStore.Proofs.Pool.Pipe

/-!
# The order of the items of a pipe

As long as its consumer is there, what a producer handed to the channel is what the consumer got and
what is on its way, in order; and how far the producer is says what it handed over
(`Pipe.Shows`).  When the consumer goes away, nothing more reaches it and every send is refused.

`Work.ComesTo` says what work sends on the way to a rest of it, if every send is accepted.
-/

namespace SnapshotStore

/-! ## Channels -/

namespace Channel

variable {ε : Type} {c c' : Channel ε} {item : Except StoreError ε} {heard : Bool}

/-- A send that somebody listens to puts its item behind the others. -/
theorem send?_of_open (h : c.send? item = some (heard, c')) (hopen : c.isOpen = true) :
    heard = true ∧ c' = { c with items := c.items ++ [item] } := by
  simp only [send?, hopen, Bool.not_true, Bool.false_eq_true, if_false] at h
  split at h
  · obtain ⟨rfl, rfl⟩ := Prod.mk.inj (Option.some.inj h)
    exact ⟨rfl, by rw [hopen]⟩
  · cases h

/-- Any other send is refused, and changes nothing. -/
theorem send?_eq_refused (hgone : c.isOpen = false) (item : Except StoreError ε) :
    c.send? item = some (false, c) := if_pos (by rw [hgone]; rfl)

/-- Nobody hears what is sent to a consumer that is gone. -/
theorem send?_of_gone (h : c.send? item = some (heard, c')) (hgone : c.isOpen = false) :
    heard = false ∧ c' = c := by
  obtain ⟨rfl, rfl⟩ := Prod.mk.inj (Option.some.inj ((send?_eq_refused hgone item).symm.trans h))
  exact ⟨rfl, rfl⟩

/-- A send does not change whether the consumer is there. -/
theorem isOpen_of_send? (h : c.send? item = some (heard, c')) : c'.isOpen = c.isOpen := by
  cases hopen : c.isOpen with
  | true => obtain ⟨-, rfl⟩ := send?_of_open h hopen; exact hopen
  | false => obtain ⟨-, rfl⟩ := send?_of_gone h hopen; exact hopen

/-- What is received is the oldest item. -/
theorem receive?_eq_some (h : c.receive? = some (item, c')) :
    c.items = item :: c'.items ∧ c'.isOpen = c.isOpen ∧ c'.capacity = c.capacity := by
  unfold receive? at h
  split at h
  · cases h
  · obtain ⟨rfl, rfl⟩ := Prod.mk.inj (Option.some.inj h)
    exact ⟨by assumption, rfl, rfl⟩

/-- Sending does not change the capacity. -/
theorem capacity_of_send? (h : c.send? item = some (heard, c')) : c'.capacity = c.capacity := by
  cases hopen : c.isOpen with
  | true => obtain ⟨-, rfl⟩ := send?_of_open h hopen; rfl
  | false => obtain ⟨-, rfl⟩ := send?_of_gone h hopen; rfl

/-- Nothing is received from an empty channel. -/
theorem receive?_eq_none_iff : c.receive? = none ↔ c.items = [] := by
  unfold receive?
  split <;> simp [*]

end Channel

/-! ## The items of work -/

namespace Work

variable {ε α : Type} {w rest : Work ε α} {items : List (Except StoreError ε)}

/-- If every send is accepted, and its effects are answered in some way, the work sends some items
and comes to a rest of it. -/
inductive ComesTo (w : Work ε α) : List (Except StoreError ε) → Work ε α → Prop
  | refl : ComesTo w [] w
  | perform {items : List (Except StoreError ε)} {q : Effect} {next : q.Answer → Work ε α}
      (h : ComesTo w items (.perform q next)) (a : q.Answer) : ComesTo w items (next a)
  | send {items : List (Except StoreError ε)} {item : Except StoreError ε}
      {next : Bool → Work ε α} (h : ComesTo w items (.send item next)) :
      ComesTo w (items ++ [item]) (next true)

/-- On its way a producer that sends a list has sent the first part of it. -/
theorem comesTo_emitAll {r : Outcome Unit} {all : List ε} {rest : Work ε Unit}
    (h : (emitAll r all).ComesTo items rest) :
    ∃ done left, all = done ++ left ∧ items = done.map .ok ∧ rest = emitAll r left := by
  induction h with
  | refl => exact ⟨[], all, rfl, rfl, rfl⟩
  | perform h a ih =>
    obtain ⟨done, left, -, -, hrest⟩ := ih
    cases left <;> cases hrest
  | send h ih =>
    obtain ⟨done, left, rfl, rfl, hrest⟩ := ih
    cases left with
    | nil => cases hrest
    | cons item left =>
      cases hrest
      exact ⟨done ++ [item], left, by simp, by simp, rfl⟩

/-- Work that sends items only, as long as somebody listens; a failure is how it ends. -/
def SendsItems (w : Work ε α) : Prop :=
  ∀ {items : List (Except StoreError ε)} {rest : Work ε α}, w.ComesTo items rest →
    ∃ sent : List ε, items = sent.map .ok

/-- Work that emits a list sends items. -/
theorem sendsItems_emitAll (r : Outcome Unit) (all : List ε) : (emitAll r all).SendsItems :=
  fun h => let ⟨done, _, _, hdone, _⟩ := comesTo_emitAll h; ⟨done, hdone⟩

end Work

namespace Pipe

variable {ε : Type} {w : Work ε Unit} {l l₁ l₂ : Pipe ε} {p p' : Pool} {e : Event ε}
  {events before after : List (Event ε)} {s : Stage ε}

/-! ## What the events of a run say -/

/-- What the events of a run say of the items. -/
structure Record (ε : Type) where
  /-- What the work sent. -/
  sent : List (Except StoreError ε)
  /-- The ends of the work. -/
  returned : List (Outcome Unit)
  /-- The failures that were sent behind. -/
  reported : List (Except StoreError ε)
  /-- What the consumer got. -/
  received : List (Except StoreError ε)
  /-- Whether a permit was refused. -/
  isRefused : Bool

/-- Adds what an event says. -/
def Record.note (k : Record ε) : Event ε → Record ε
  | .sent item _ => { k with sent := k.sent ++ [item] }
  | .returned r => { k with returned := k.returned ++ [r] }
  | .reported e _ => { k with reported := k.reported ++ [.error e] }
  | .received item => { k with received := k.received ++ [item] }
  | .asked .refused => { k with isRefused := true }
  | _ => k

/-- What the events of a run say. -/
def record (events : List (Event ε)) : Record ε := events.foldl .note ⟨[], [], [], [], false⟩

/-- The last event is noted last. -/
@[simp]
theorem record_concat (events : List (Event ε)) (e : Event ε) :
    record (events ++ [e]) = (record events).note e := List.foldl_append

/-! ## With a consumer -/

/-- What a stage says of a run that came to it, if the consumer was there all along. -/
inductive Stage.Tells (w : Work ε Unit) (k : Record ε) : Stage ε → Prop
  | asking {t : Ticket} (hsent : k.sent = []) (hreturned : k.returned = [])
      (hreported : k.reported = []) (hrefused : k.isRefused = decide (t = .refused)) :
      Tells w k (.acquiring t)
  | running {rest : Work ε Unit} (hsent : w.ComesTo k.sent rest) (hreturned : k.returned = [])
      (hreported : k.reported = []) (hrefused : k.isRefused = false) : Tells w k (.running rest)
  | returned {r : Outcome Unit} {s : Stage ε} (hs : .after r = s)
      (hsent : w.ComesTo k.sent (.finish r)) (hreturned : k.returned = [r])
      (hreported : k.reported = []) (hrefused : k.isRefused = false) : Tells w k s
  | reported {r : Outcome Unit} (hsent : w.ComesTo k.sent (.finish r))
      (hreturned : k.returned = [r]) (hreported : k.reported = r.report)
      (hrefused : k.isRefused = false) : Tells w k .silent
  | refused (hsent : k.sent = []) (hreturned : k.returned = [])
      (hreported : k.reported = [.error .closed]) (hrefused : k.isRefused = true) :
      Tells w k .silent

/-- What the consumer gets does not matter. -/
theorem Stage.Tells.receive {k : Record ε} (h : s.Tells w k)
    (received : List (Except StoreError ε)) : s.Tells w { k with received } := by
  cases h with
  | asking hsent hreturned hreported hrefused =>
    exact .asking hsent hreturned hreported hrefused
  | running hsent hreturned hreported hrefused =>
    exact .running hsent hreturned hreported hrefused
  | returned hs hsent hreturned hreported hrefused =>
    exact .returned hs hsent hreturned hreported hrefused
  | reported hsent hreturned hreported hrefused =>
    exact .reported hsent hreturned hreported hrefused
  | refused hsent hreturned hreported hrefused =>
    exact .refused hsent hreturned hreported hrefused

/-- How a pipe stands whose consumer is there. -/
structure Shows (w : Work ε Unit) (k : Record ε) (l : Pipe ε) : Prop where
  work_eq : l.work = w
  /-- What was handed to the channel is what the consumer got and what is on its way. -/
  fifo : k.sent ++ k.reported = k.received ++ l.channel.items
  tells : l.stage.Tells w k

/-- A fresh pipe has an empty record. -/
theorem shows_start (capacity : Nat) (w : Work ε Unit) :
    (start capacity w).Shows w (record []) where
  work_eq := rfl
  fifo := rfl
  tells := .asking rfl rfl rfl rfl

/-- A consumer that is there was there before. -/
theorem Step.isOpen_of (h : l₁.Step p e l₂ p') (hopen : l₂.channel.isOpen = true) :
    l₁.channel.isOpen = true := by
  cases h with
  | send h | report _ h => exact (Channel.isOpen_of_send? h).symm.trans hopen
  | receive hbefore | leave hbefore => exact hbefore
  | _ => exact hopen

/-- A consumer that is there was there before. -/
theorem Runs.isOpen_of (h : l₁.Runs events l₂) (hopen : l₂.channel.isOpen = true) :
    l₁.channel.isOpen = true := by
  induction h with
  | refl => exact hopen
  | step _ hstep ih => exact ih (hstep.isOpen_of hopen)

/-- A work that runs is told of by nothing but its rest. -/
theorem Stage.Tells.of_running {k : Record ε} {rest : Work ε Unit}
    (h : (Stage.running rest).Tells w k) :
    w.ComesTo k.sent rest ∧ k.returned = [] ∧ k.reported = [] ∧ k.isRefused = false := by
  cases h with
  | running hsent hreturned hreported hrefused => exact ⟨hsent, hreturned, hreported, hrefused⟩
  | @returned r _ hs => cases r <;> cases hs

/-- Before its permit a producer has done nothing. -/
theorem Stage.Tells.of_acquiring {k : Record ε} {t : Ticket} (h : (Stage.acquiring t).Tells w k) :
    k.sent = [] ∧ k.returned = [] ∧ k.reported = [] ∧ k.isRefused = decide (t = .refused) := by
  cases h with
  | asking hsent hreturned hreported hrefused => exact ⟨hsent, hreturned, hreported, hrefused⟩
  | @returned r _ hs => cases r <;> cases hs

/-- A failure that is sent is that of the work, or the refusal of a permit. -/
theorem Stage.Tells.report {k : Record ε} {e : StoreError} {heard : Bool} (h : s.Tells w k)
    (he : s.failure? = some e) : Stage.Tells w (k.note (.reported e heard)) .silent := by
  cases h with
  | @asking t hsent hreturned hreported hrefused =>
    cases t <;> cases he
    exact .refused hsent hreturned (by rw [Record.note, hreported]; rfl) hrefused
  | @returned r s hs hsent hreturned hreported hrefused =>
    subst hs
    cases r with
    | done u => cases he
    | failed e' =>
      cases he
      exact .reported hsent hreturned (by rw [Record.note, hreported]; rfl) hrefused
    | panicked =>
      cases he
      exact .reported hsent hreturned (by rw [Record.note, hreported]; rfl) hrefused
  | running | reported | refused => cases he

/-- With a consumer, the record goes on as the pipe does. -/
theorem Shows.step {k : Record ε} (h : l₁.Shows w k) (hstep : l₁.Step p e l₂ p')
    (hopen : l₂.channel.isOpen = true) : l₂.Shows w (k.note e) := by
  have hopen₁ := hstep.isOpen_of hopen
  obtain ⟨hwork, hfifo, htells⟩ := h
  -- Sending moves an item from the work to the channel, and receiving moves it on; in order both
  -- times.
  cases hstep with
  | ask ht =>
    obtain ⟨hsent, hreturned, hreported, hrefused⟩ := htells.of_acquiring
    cases ht <;>
      exact ⟨hwork, hfifo, .asking hsent hreturned hreported (by simp [Record.note, hrefused])⟩
  | begin =>
    obtain ⟨hsent, hreturned, hreported, hrefused⟩ := htells.of_acquiring
    subst hwork
    exact ⟨rfl, hfifo, .running (hsent ▸ .refl) hreturned hreported hrefused⟩
  | perform a =>
    obtain ⟨hsent, hreturned, hreported, hrefused⟩ := htells.of_running
    exact ⟨hwork, hfifo, .running (hsent.perform a) hreturned hreported hrefused⟩
  | send hsend =>
    obtain ⟨hsent, hreturned, hreported, hrefused⟩ := htells.of_running
    obtain ⟨rfl, rfl⟩ := Channel.send?_of_open hsend hopen₁
    refine ⟨hwork, ?_, .running hsent.send hreturned hreported hrefused⟩
    simp only [hreported, List.append_nil, Record.note] at hfifo ⊢
    rw [hfifo, List.append_assoc]
  | @finish _ _ _ r =>
    obtain ⟨hsent, hreturned, hreported, hrefused⟩ := htells.of_running
    have hreturned' : (k.note (.returned r)).returned = [r] := by
      rw [Record.note, hreturned]
      rfl
    exact ⟨hwork, hfifo, .returned rfl hsent hreturned' hreported hrefused⟩
  | report he hsend =>
    obtain ⟨rfl, rfl⟩ := Channel.send?_of_open hsend hopen₁
    refine ⟨hwork, ?_, htells.report he⟩
    simp only [Record.note, ← List.append_assoc]
    rw [hfifo]
  | receive _ hreceive =>
    obtain ⟨hitems, -⟩ := Channel.receive?_eq_some hreceive
    refine ⟨hwork, ?_, htells.receive _⟩
    simp only [Record.note, List.append_assoc, List.singleton_append]
    rw [← hitems]
    exact hfifo
  | seeEnd => exact ⟨hwork, hfifo, htells⟩
  | leave => cases hopen

/-- With a consumer, the record of a run shows its pipe. -/
theorem Runs.shows {capacity : Nat} (h : (start capacity w).Runs events l)
    (hopen : l.channel.isOpen = true) : l.Shows w (record events) := by
  induction h with
  | refl => exact shows_start capacity w
  | step _ hstep ih =>
    rw [record_concat]
    exact (ih (hstep.isOpen_of hopen)).step hstep hopen

/-- What was sent so far is sent on the way to a rest of the work. -/
theorem Stage.Tells.exists_comesTo {k : Record ε} (h : s.Tells w k) :
    ∃ rest, w.ComesTo k.sent rest := by
  cases h with
  | asking hsent | refused hsent => exact ⟨w, hsent ▸ .refl⟩
  | running hsent | returned _ hsent | reported hsent => exact ⟨_, hsent⟩

/-- Where nobody is left who could send, the work ended, or a permit was refused. -/
theorem Stage.Tells.of_silent {k : Record ε} (h : Stage.silent.Tells w k) :
    (∃ r, w.ComesTo k.sent (.finish r) ∧ k.returned = [r] ∧ k.reported = r.report ∧
        k.isRefused = false) ∨
      (k.sent = [] ∧ k.returned = [] ∧ k.reported = [.error .closed] ∧ k.isRefused = true) := by
  cases h with
  | @returned r s hs hsent hreturned hreported hrefused =>
    cases r with
    | done u => exact .inl ⟨_, hsent, hreturned, hreported, hrefused⟩
    | failed e => cases hs
    | panicked => cases hs
  | reported hsent hreturned hreported hrefused =>
    exact .inl ⟨_, hsent, hreturned, hreported, hrefused⟩
  | refused hsent hreturned hreported hrefused =>
    exact .inr ⟨hsent, hreturned, hreported, hrefused⟩

/-! ## Without a consumer -/

/-- An event that no consumer has part in. -/
def Event.IsUnheard : Event ε → Prop
  | .sent _ heard | .reported _ heard => heard = false
  | .received _ | .ended | .left => False
  | _ => True

/-- Without a consumer nothing is heard, and none comes back. -/
theorem Step.isUnheard (h : l₁.Step p e l₂ p') (hgone : l₁.channel.isOpen = false) :
    e.IsUnheard ∧ l₂.channel.isOpen = false := by
  cases h with
  | send h | report _ h =>
    obtain ⟨rfl, rfl⟩ := Channel.send?_of_gone h hgone
    exact ⟨rfl, hgone⟩
  | receive hopen | seeEnd hopen | leave hopen => exact absurd (hgone.symm.trans hopen) nofun
  | _ => exact ⟨trivial, hgone⟩

/-- It is the consumer itself that goes away. -/
theorem Step.eq_left (h : l₁.Step p e l₂ p') (hopen : l₁.channel.isOpen = true)
    (hgone : l₂.channel.isOpen = false) : e = .left := by
  have hsame : l₂.channel.isOpen = l₁.channel.isOpen → e = .left := fun hsame =>
    absurd (hgone.symm.trans (hsame.trans hopen)) nofun
  cases h with
  | leave => rfl
  | send h | report _ h => exact hsame (Channel.isOpen_of_send? h)
  | receive _ h => exact hsame (Channel.receive?_eq_some h).2.1
  | _ => exact hsame rfl

/-- Without a consumer nothing of a run is heard. -/
theorem Runs.isUnheard (h : l₁.Runs events l₂) (hgone : l₁.channel.isOpen = false) :
    (∀ e ∈ events, e.IsUnheard) ∧ l₂.channel.isOpen = false := by
  induction h with
  | refl => exact ⟨by simp, hgone⟩
  | step _ hstep ih =>
    obtain ⟨hevents, hgone⟩ := ih
    obtain ⟨he, hgone⟩ := hstep.isUnheard hgone
    exact ⟨by simpa [or_imp, forall_and] using ⟨hevents, he⟩, hgone⟩

/-- Nothing is received without a consumer. -/
theorem received_of_isUnheard (h : ∀ e ∈ after, e.IsUnheard) :
    (record (before ++ after)).received = (record before).received := by
  induction after generalizing before with
  | nil => rw [List.append_nil]
  | cons e after ih =>
    obtain ⟨he, hafter⟩ := List.forall_mem_cons.mp h
    rw [List.append_cons, ih hafter, record_concat]
    cases e with
    | received item => exact he.elim
    | asked t => cases t <;> rfl
    | _ => rfl

/-- What the consumer got it got while it was there. -/
theorem Runs.exists_open {capacity : Nat} (h : (start capacity w).Runs events l) :
    ∃ before after l₁, events = before ++ after ∧ (start capacity w).Runs before l₁ ∧
      l₁.channel.isOpen = true ∧ (record events).received = (record before).received := by
  induction h with
  | refl => exact ⟨[], [], _, rfl, .refl, rfl, rfl⟩
  | @step l₁ l₂ p p' events e h hstep ih =>
    cases hopen : l₁.channel.isOpen with
    | false =>
      obtain ⟨before, after, l, rfl, hbefore, hl, hreceived⟩ := ih
      have he : ∀ e' ∈ [e], e'.IsUnheard := by simpa using (hstep.isUnheard hopen).1
      refine ⟨before, after ++ [e], l, List.append_assoc .., hbefore, hl, ?_⟩
      rw [received_of_isUnheard he, hreceived]
    | true =>
      cases hopen₂ : l₂.channel.isOpen with
      | true => exact ⟨events ++ [e], [], l₂, (List.append_nil _).symm, .step h hstep, hopen₂, rfl⟩
      | false =>
        obtain rfl := hstep.eq_left hopen hopen₂
        exact ⟨events, [.left], l₁, rfl, h, hopen, by rw [record_concat]; rfl⟩

/-- Nothing happens to the items behind the end. -/
theorem Runs.of_ended {capacity : Nat} (h : (start capacity w).Runs events l)
    (hended : .ended ∈ events) :
    l.stage = .silent ∧ l.channel.items = [] ∧ l.Shows w (record events) := by
  induction h with
  | refl => cases hended
  | @step l₁ l₂ p p' events e h hstep ih =>
    rw [record_concat]
    -- After the end only the end can be seen again, unless the consumer leaves.
    rcases List.mem_append.mp hended with hbefore | hlast
    · obtain ⟨hstage, hitems, hshows⟩ := ih hbefore
      cases hstep with
      | seeEnd => exact ⟨rfl, hitems, hshows⟩
      | leave =>
        have hfifo := hshows.fifo
        rw [hitems] at hfifo
        exact ⟨hstage, rfl, hshows.work_eq, hfifo, hshows.tells⟩
      | receive _ hreceive =>
        rw [Channel.receive?_eq_none_iff.mpr hitems] at hreceive
        cases hreceive
      | report he =>
        subst hstage
        cases he
      | _ => cases hstage
    · obtain rfl := List.mem_singleton.mp hlast
      cases hstep with
      | seeEnd hopen hempty =>
        exact ⟨rfl, Channel.receive?_eq_none_iff.mp hempty, h.shows hopen⟩

end Pipe

end SnapshotStore
