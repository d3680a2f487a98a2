import SnapshotStore.Proofs.Engine.Evolution
import SnapshotStore.Proofs.Pins.Settling
import SnapshotStore.Work.Backend

/-!
# Backends that account for their pins

Every pin of an engine belongs to somebody: to work that runs and holds it, to a live snapshot of
the database, or to others, who are only counted here.  Work that settles its pins keeps these
accounts from one effect to the next (`Backend.Accounts.answer`), and so over a whole run, whether
it ends or has to wait (`Work.Settles.advance`).
-/

namespace SnapshotStore

variable {bad : EngineError → Prop} {held held' seen : List Nat} {others : Nat → Nat} {origin : Engine}

/-- The failure of a read of a state that nothing pins. -/
def EngineError.IsReleased (failure : EngineError) : Prop := ∃ s, failure = .snapshotReleased s

/-! ## Failures of the engine -/

namespace Engine

variable {e : Engine}

/-- A cursor that was opened fails only because the engine is closed. -/
theorem next_eq_error {cursor : Cursor} {failure : EngineError} (h : e.next cursor = .error failure) :
    failure = .closed := by
  fun_induction Engine.next e cursor with
  | case1 => cases h
  | case2 => cases h
  | case3 _ _ _ _ _ ih => exact ih h
  | case4 cursor _ _ failure' hr =>
    obtain rfl := Except.error.inj h
    cases hclosed : e.isClosed with
    | true =>
      rw [refill, checkOpen_of_closed hclosed] at hr
      exact (Except.error.inj hr).symm
    | false =>
      rw [refill, checkOpen_of_open hclosed] at hr
      simp only [bind, Except.bind, pure, Except.pure] at hr
      -- An open engine reads the next chunk, which cannot fail.
      split at hr
      · split at hr <;> cases hr
      · cases hr

/-- The check that begins a call fails only in a closed engine. -/
theorem checkOpen_eq_error {failure : EngineError} (h : e.checkOpen = .error failure) :
    failure = .closed := by
  cases hclosed : e.isClosed with
  | true => exact (Except.error.inj ((checkOpen_of_closed hclosed).symm.trans h)).symm
  | false => cases (checkOpen_of_open hclosed).symm.trans h

/-- What is pinned passes the check for pins. -/
theorem checkPinned_of_mem {s : Nat} (h : s ∈ e.pins) : e.checkPinned s = .ok () := if_pos h

/-- A call that only asks whether the engine is open fails by that, or by what it does then. -/
private theorem ne_released_of_checkOpen {α : Type} {f : Unit → Except EngineError α} {s : Nat}
    (hf : f () ≠ .error (.snapshotReleased s)) :
    (e.checkOpen >>= f) ≠ .error (.snapshotReleased s) := by
  intro h
  cases hopen : e.checkOpen with
  | ok u =>
    rw [hopen] at h
    exact hf h
  | error failure =>
    rw [hopen, checkOpen_eq_error hopen] at h
    cases h

/-- A call that looks a column up fails by that, or by what it does with the column. -/
private theorem ne_released_of_column {α : Type} {n : Nat} {f : Column → Except EngineError α}
    {s : Nat} (hf : ∀ c, f c ≠ .error (.snapshotReleased s)) :
    (e.column n >>= f) ≠ .error (.snapshotReleased s) := by
  intro h
  cases hcolumn : e.column n with
  | ok c =>
    rw [hcolumn] at h
    exact hf c h
  | error failure =>
    rw [hcolumn] at h
    obtain rfl := Except.error.inj h
    refine ne_released_of_checkOpen (s := s) ?_ hcolumn
    split <;> nofun

/-- A write reads no old state, so it does not fail for want of a pin. -/
private theorem write_ne_released (n : Nat) (batch : WriteBatch) (s : Nat) :
    e.write n batch ≠ .error (.snapshotReleased s) := by
  unfold write
  split
  · exact ne_released_of_checkOpen nofun
  · exact ne_released_of_column fun c => nofun

/-- The same goes for an answer of which only the failure is kept. -/
private theorem writing_ne {r : Except EngineError Engine} {failure : EngineError}
    (h : r ≠ .error failure) : (e.writing r).1 ≠ .error failure := by
  cases r with
  | ok e' => nofun
  | error f => exact fun hr => h (congrArg Except.error (Except.error.inj hr))

/-- And for an answer with a value. -/
private theorem both_ne {α : Type} {r : Except EngineError (α × Engine)} {failure : EngineError}
    (h : r ≠ .error failure) : (e.both r).1 ≠ .error failure := by
  cases r with
  | ok x => nofun
  | error f => exact fun hr => h (congrArg Except.error (Except.error.inj hr))

/-- An engine that can read what a call asks for does not miss a pin. -/
theorem answer_ne_released {c : EngineCall} (hview : e.CanRead c.view) (s : Nat) :
    (e.answer c).1 ≠ .error (.snapshotReleased s) := by
  cases c with
  | get n view key =>
    refine ne_released_of_column fun c => ?_
    cases view with
    | latest => nofun
    | «at» t =>
      simp only [checkPinned_of_mem (show t ∈ e.pins from hview)]
      nofun
  | scan n view range =>
    refine both_ne (ne_released_of_column fun c => ?_)
    cases view with
    | latest => nofun
    | «at» t =>
      simp only [checkPinned_of_mem (show t ∈ e.pins from hview)]
      nofun
  | next cursor => exact fun h => absurd (next_eq_error h) (by simp)
  | mayContain n key => exact ne_released_of_column fun c => nofun
  | estimate n => exact ne_released_of_column fun c => nofun
  | put n key value => exact writing_ne (write_ne_released n _ s)
  | delete n key => exact writing_ne (write_ne_released n _ s)
  | write n batch => exact writing_ne (write_ne_released n batch s)
  | compact n => exact writing_ne (ne_released_of_column fun c => nofun)
  | createColumn name =>
    refine both_ne (ne_released_of_checkOpen ?_)
    split <;> nofun
  | snapshot => exact both_ne (ne_released_of_checkOpen nofun)
  | flush => exact fun h => absurd (checkOpen_eq_error h) (by simp)

end Engine

/-- A schedule fails a call by one of its failures, and keeps no others. -/
theorem Fault.strike_errors (method : EngineCall.Method) (faults : List Fault) :
    (∀ failure ∈ (strike method faults).1, failure ∈ faults.map (·.error)) ∧
      ∀ fault ∈ (strike method faults).2, fault.error ∈ faults.map (·.error) := by
  induction faults with
  | nil => simp [strike]
  | cons f rest ih =>
    unfold strike
    -- A fault for another method stays and the next ones are looked at; one for this method waits
    -- or strikes.
    split
    · split
      · simp only [Option.mem_some_iff, List.map_cons, List.mem_cons]
        exact ⟨fun _ h => .inl h.symm, fun _ h => .inr (List.mem_map_of_mem h)⟩
      · simp only [Option.mem_def, List.mem_cons, List.map_cons]
        refine ⟨fun _ h => absurd h (by simp), fun fault h => ?_⟩
        rcases h with rfl | h
        · exact .inl rfl
        · exact .inr (List.mem_map_of_mem h)
    · simp only [List.mem_cons, List.map_cons]
      refine ⟨fun _ h => .inr (ih.1 _ h), fun fault h => ?_⟩
      rcases h with rfl | h
      · exact .inl rfl
      · exact .inr (ih.2 fault h)

namespace FaultyEngine

variable {f : FaultyEngine}

/-- No bad failure is scheduled. -/
def Spares (bad : EngineError → Prop) (f : FaultyEngine) : Prop :=
  ∀ fault ∈ f.faults, ¬ bad fault.error

/-- A call is struck by a fault, or it reaches the engine. -/
theorem answer_cases (f : FaultyEngine) (c : EngineCall) :
    ∃ faults : List Fault, (∀ fault ∈ faults, fault.error ∈ f.faults.map (·.error)) ∧
      ((∃ failure ∈ f.faults.map (·.error), f.answer c = (.error failure, ⟨f.engine, faults⟩)) ∨
        f.answer c = ((f.engine.answer c).1, ⟨(f.engine.answer c).2, faults⟩)) := by
  obtain ⟨hstruck, hleft⟩ := Fault.strike_errors c.method f.faults
  refine ⟨_, hleft, ?_⟩
  unfold answer
  cases hstrike : Fault.strike c.method f.faults with
  | mk failure faults =>
    rw [hstrike] at hstruck
    cases failure with
    | none => exact .inr rfl
    | some failure => exact .inl ⟨failure, hstruck failure rfl, rfl⟩

/-- Whether a fault strikes or not, the engine evolves. -/
theorem evolves_answer (f : FaultyEngine) (c : EngineCall) :
    f.engine.Evolves (f.answer c).2.engine := by
  obtain ⟨faults, -, ⟨failure, -, hanswer⟩ | hanswer⟩ := f.answer_cases c
  · rw [hanswer]
    exact .refl
  · rw [hanswer]
    exact Engine.Evolves.refl.answer c

/-- Faults that are left, or failures among those that were to come, are no worse than before. -/
theorem Spares.of_errors {faults : List Fault} {engine : Engine} (h : f.Spares bad)
    (hfaults : ∀ fault ∈ faults, fault.error ∈ f.faults.map (·.error)) :
    Spares bad ⟨engine, faults⟩ := by
  intro fault hfault
  obtain ⟨fault', hmem, heq⟩ := List.mem_map.mp (hfaults fault hfault)
  exact heq ▸ h fault' hmem

end FaultyEngine

/-! ## Accounts -/

namespace Snapshots

/-- The sequences that live snapshots pin, one element a snapshot. -/
def pinned (r : Snapshots) : List Nat := r.live.map (·.2)

/-- A token that the register knows is live. -/
theorem mem_live_of_sequence? {r : Snapshots} {t : Token} {s : Nat} (h : r.sequence? t = some s) :
    (t, s) ∈ r.live := by
  obtain ⟨before, after, heq, -⟩ := List.lookup_eq_some_iff.mp h
  simp [heq]

/-- A view of an old state is that of a live token. -/
theorem resolve_eq_at {r : Snapshots} {token : Option Token} {s : Nat}
    (h : r.resolve token = .ok (.at s)) : ∃ t, token = some t ∧ r.sequence? t = some s := by
  cases token with
  | none => cases h
  | some t =>
    cases hs : r.sequence? t with
    | none => simp [resolve, hs] at h
    | some s' =>
      obtain rfl : s' = s := by simpa [resolve, hs] using h
      exact ⟨t, rfl, hs⟩

/-- What a live token shows is pinned for the register. -/
theorem mem_pinned_of_resolve {r : Snapshots} {token : Option Token} {s : Nat}
    (h : r.resolve token = .ok (.at s)) : s ∈ r.pinned := by
  obtain ⟨t, -, ht⟩ := resolve_eq_at h
  exact List.mem_map.mpr ⟨(t, s), mem_live_of_sequence? ht, rfl⟩

/-- A token that is not live is no failure of the engine. -/
theorem spares_of_resolve {r : Snapshots} {token : Option Token} {e : StoreError}
    (h : r.resolve token = .error e) : e.Spares bad := by
  cases token with
  | none => cases h
  | some t =>
    cases hs : r.sequence? t with
    | none =>
      obtain rfl : .snapshotNotFound t = e := by simpa [resolve, hs] using h
      simp [StoreError.Spares, StoreError.source?]
    | some s => simp [resolve, hs] at h

end Snapshots

namespace Backend

/-- Only going into a stripe can make work wait. -/
theorem enter_of_waits {b : Backend} {q : Effect} (h : b.answer? q = none) :
    ∃ hold i, q = .enter hold i := by
  cases q with
  | enter hold i => exact ⟨hold, i, rfl⟩
  | upgrade i => cases hup : (b.stripes.lock i).upgrade? <;> simp [answer?, hup] at h
  | ask c => cases h
  | unpin s => cases h
  | resolve token => cases h
  | register s => cases h
  | forget t => cases h
  | announce i => cases h
  | leave hold i => cases h
  | consult f current => cases h

/-- Every pin belongs to the work that runs, to a live snapshot or to others, in an engine that has
evolved from an earlier one. -/
structure Accounts (bad : EngineError → Prop) (others : Nat → Nat) (origin : Engine) (b : Backend)
    (held : List Nat) : Prop where
  /-- The pins of each sequence. -/
  pins : ∀ s, b.engine.engine.pinCount s = held.count s + b.snapshots.pinned.count s + others s
  /-- No bad failure is scheduled. -/
  spares : b.engine.Spares bad
  /-- The engine has evolved. -/
  evolves : origin.Evolves b.engine.engine

/-- The pins of others, when they hold some more. -/
def lent (others : Nat → Nat) (held : List Nat) : Nat → Nat := fun s => others s + held.count s

/-- Sequences that live snapshots or others pin. -/
def Grants (others : Nat → Nat) (r : Snapshots) (seen : List Nat) : Prop :=
  ∀ s ∈ seen, 0 < r.pinned.count s + others s

/-- Who has read nothing needs nothing to be pinned. -/
theorem grants_nil (r : Snapshots) : Grants others r [] := nofun

/-- Who holds a pin may read its sequence. -/
theorem grants_lent (q : Nat) (r : Snapshots) : Grants (lent others [q]) r [q] := by
  intro s hs
  rw [List.mem_singleton.mp hs, lent, List.count_singleton_self]
  omega

namespace Accounts

variable {b : Backend}

/-- A state that work has seen is pinned, for a snapshot or for others, so it can be read. -/
theorem canRead (h : b.Accounts bad others origin held) (hseen : Grants others b.snapshots seen)
    {view : ReadView} (hview : view.IsAmong seen) : b.engine.engine.CanRead view := by
  cases view with
  | latest => trivial
  | «at» s =>
    have hpins := h.pins s
    have hs := hseen s hview
    exact List.count_pos_iff.mp (show 0 < b.engine.engine.pinCount s by omega)

/-- What work holds belongs to others while it does not run. -/
theorem iff_lent : b.Accounts bad others origin held ↔ b.Accounts bad (lent others held) origin [] := by
  constructor
  · refine fun h => ⟨fun s => ?_, h.spares, h.evolves⟩
    rw [h.pins, List.count_nil, lent]
    omega
  · refine fun h => ⟨fun s => ?_, h.spares, h.evolves⟩
    rw [h.pins, List.count_nil, lent]
    omega

/-- A call of the engine adds what it pins to what the work holds. -/
theorem ask (hbad : ∀ failure, bad failure → failure.IsReleased) (h : b.Accounts bad others origin held)
    {c : EngineCall} (hread : b.engine.engine.CanRead c.view) :
    Effect.Spares bad (.ask c) (b.engine.answer c).1 ∧
      Accounts bad others origin { b with engine := (b.engine.answer c).2 }
        (Engine.pinnedBy c (b.engine.answer c).1 ++ held) := by
  obtain ⟨faults, hfaults, ⟨failure, hmem, hanswer⟩ | hanswer⟩ := b.engine.answer_cases c
  · obtain ⟨fault, hfault, rfl⟩ := List.mem_map.mp hmem
    -- A call that is struck does not reach the engine, so nothing is pinned.
    have hpinned : Engine.pinnedBy c (.error fault.error) = [] := by cases c <;> rfl
    rw [hanswer, hpinned]
    exact ⟨h.spares fault hfault, h.pins, h.spares.of_errors hfaults, h.evolves⟩
  · rw [hanswer]
    refine ⟨?_, fun s => ?_, h.spares.of_errors hfaults, h.evolves.answer c⟩
    · cases hr : (b.engine.engine.answer c).1 with
      | ok a => trivial
      | error failure =>
        intro hfailure
        obtain ⟨s, rfl⟩ := hbad failure hfailure
        exact Engine.answer_ne_released hread s hr
    · have hpins := h.pins s
      -- What the answer tells to be pinned is what the engine has more.
      have hgrown := congrArg (List.count s) (b.engine.engine.changes_answer c).pins_eq
      simp only [Engine.pinCount, List.count_append] at hpins hgrown ⊢
      omega

/-- Taking away a pin that the work holds. -/
theorem unpin (h : b.Accounts bad others origin held) {s : Nat} (hs : s ∈ held) :
    Accounts bad others origin { b with engine := b.engine.modify (·.unpin s) } (held.erase s) := by
  refine ⟨fun t => ?_, h.spares, h.evolves.unpin s⟩
  have hpins := h.pins t
  have hcount := List.count_pos_iff.mpr hs
  show (b.engine.engine.pins.erase s).count t = _
  unfold Engine.pinCount at hpins
  rw [List.count_erase, List.count_erase, hpins]
  by_cases hst : s = t
  · subst hst
    simp only [BEq.rfl, if_true]
    omega
  · simp [hst]

/-- **Every effect that fits keeps the accounts**, and is not answered by a bad failure. -/
theorem answer (hbad : ∀ failure, bad failure → failure.IsReleased)
    (h : b.Accounts bad others origin held) (hseen : Grants others b.snapshots seen) {q : Effect}
    (hfits : q.Fits held seen) {a : q.Answer} {b' : Backend} (ha : b.answer? q = some (a, b')) :
    q.Spares bad a ∧ b'.Accounts bad others origin (q.heldAfter a held) ∧ b'.snapshots = b.snapshots ∧
      Grants others b.snapshots (q.seenAfter a seen) := by
  cases q with
  | ask c =>
    obtain ⟨rfl, rfl⟩ := Prod.mk.inj (Option.some.inj ha)
    obtain ⟨hspares, haccounts⟩ := h.ask hbad (h.canRead hseen hfits)
    exact ⟨hspares, haccounts, rfl, hseen⟩
  | unpin s =>
    obtain ⟨rfl, rfl⟩ := Prod.mk.inj (Option.some.inj ha)
    exact ⟨trivial, h.unpin hfits, rfl, hseen⟩
  | resolve token =>
    obtain ⟨rfl, rfl⟩ := Prod.mk.inj (Option.some.inj ha)
    refine ⟨?_, h, rfl, ?_⟩
    · cases hr : b.snapshots.resolve token with
      | ok view => trivial
      | error e => exact Snapshots.spares_of_resolve hr
    · cases hr : b.snapshots.resolve token with
      | error e => exact hseen
      | ok view =>
        cases view with
        | latest => exact hseen
        | «at» s =>
          intro t ht
          rcases List.mem_cons.mp ht with rfl | ht
          · -- The register pins what it shows, so what was seen now is granted.
            have hpos := List.count_pos_iff.mpr (Snapshots.mem_pinned_of_resolve hr)
            omega
          · exact hseen t ht
  | register s => exact absurd hfits id
  | forget t => exact absurd hfits id
  | announce i =>
    obtain ⟨rfl, rfl⟩ := Prod.mk.inj (Option.some.inj ha)
    exact ⟨trivial, ⟨h.pins, h.spares, h.evolves⟩, rfl, hseen⟩
  | enter hold i =>
    -- To wait for a stripe is to forget what was seen: others may release it in the meantime.
    obtain ⟨l, -, heq⟩ := Option.map_eq_some_iff.mp ha
    obtain ⟨rfl, rfl⟩ := Prod.mk.inj heq
    exact ⟨trivial, ⟨h.pins, h.spares, h.evolves⟩, rfl, nofun⟩
  | upgrade i =>
    cases hup : (b.stripes.lock i).upgrade? with
    | some l =>
      simp only [answer?, hup] at ha
      obtain ⟨rfl, rfl⟩ := Prod.mk.inj (Option.some.inj ha)
      exact ⟨trivial, ⟨h.pins, h.spares, h.evolves⟩, rfl, hseen⟩
    | none =>
      simp only [answer?, hup] at ha
      obtain ⟨rfl, rfl⟩ := Prod.mk.inj (Option.some.inj ha)
      exact ⟨trivial, h, rfl, hseen⟩
  | leave hold i =>
    obtain ⟨rfl, rfl⟩ := Prod.mk.inj (Option.some.inj ha)
    exact ⟨trivial, ⟨h.pins, h.spares, h.evolves⟩, rfl, hseen⟩
  | consult f current =>
    obtain ⟨rfl, rfl⟩ := Prod.mk.inj (Option.some.inj ha)
    exact ⟨trivial, h, rfl, hseen⟩

end Accounts

end Backend

/-! ## Runs -/

namespace Channel

variable {ε : Type} {c c' : Channel ε} {item : Except StoreError ε}

/-- No item on its way is a bad failure. -/
def Spares (bad : EngineError → Prop) (c : Channel ε) : Prop := ∀ item ∈ c.items, Except.Spares bad item

/-- A channel that takes a good item has only good ones. -/
theorem Spares.send? (h : c.Spares bad) (hitem : Except.Spares bad item) {heard : Bool}
    (hsend : c.send? item = some (heard, c')) : c'.Spares bad ∧ c'.isOpen = c.isOpen := by
  unfold Channel.send? at hsend
  split at hsend
  · obtain ⟨-, rfl⟩ := Prod.mk.inj (Option.some.inj hsend)
    exact ⟨h, rfl⟩
  · split at hsend
    · obtain ⟨-, rfl⟩ := Prod.mk.inj (Option.some.inj hsend)
      refine ⟨fun x hx => ?_, rfl⟩
      rcases List.mem_append.mp hx with hx | hx
      · exact h x hx
      · exact List.mem_singleton.mp hx ▸ hitem
    · cases hsend

end Channel

namespace Work

variable {ε α : Type} {w : Work ε α} {b : Backend} {c : Channel ε} {Q : α → List Nat → Prop}

/-- How far work came that settles its pins: it ended with what it is to hold, or the rest of it
still settles what it holds.  If nobody listens, it can only wait for a stripe, and then it holds
nothing. -/
def Came (bad : EngineError → Prop) (held' : List Nat) (Q : α → List Nat → Prop) (isHeard : Bool) :
    Progress ε α → List Nat → Prop
  | .ended (.done a), held => held = held' ∧ ∃ seen, Q a seen
  | .ended (.failed e), held => held = held' ∧ e.Spares bad
  | .ended .panicked, held => held = held'
  | .waits rest, held => rest.Settles bad held' Q held [] ∧ (isHeard = false → held = [])

/-- **Work that settles its pins keeps the accounts**, whether it ends or has to wait. -/
theorem Settles.advance (hbad : ∀ failure, bad failure → failure.IsReleased)
    (h : w.Settles bad held' Q held seen) (hb : b.Accounts bad others origin held)
    (hseen : Backend.Grants others b.snapshots seen) (hc : c.Spares bad) :
    ∃ held₁, (w.advance b c).2.1.Accounts bad others origin held₁ ∧
      Came bad held' Q c.isOpen (w.advance b c).1 held₁ ∧
      (w.advance b c).2.1.snapshots = b.snapshots ∧ (w.advance b c).2.2.Spares bad := by
  induction w generalizing held seen b c with
  | finish r =>
    refine ⟨held, hb, ?_, rfl, hc⟩
    cases r with
    | done a => exact ⟨h.1, seen, h.2⟩
    | failed e => exact h
    | panicked => exact h
  | perform q next ih =>
    unfold Work.advance at ih ⊢
    rw [advanceTo, if_neg Bool.false_ne_true]
    cases ha : b.answer? q with
    | some x =>
      obtain ⟨a, b'⟩ := x
      obtain ⟨hspares, hb', hsnapshots, hseen'⟩ := hb.answer hbad hseen h.1 ha
      rw [← hsnapshots] at hseen'
      obtain ⟨held₁, haccounts, hcame, hsnapshots', hc'⟩ := ih a (h.2 a hspares) hb' hseen' hc
      exact ⟨held₁, haccounts, hcame, hsnapshots'.trans hsnapshots, hc'⟩
    | none =>
      -- Only a stripe is waited for, and then no pin is held.
      obtain ⟨hold, i, rfl⟩ := Backend.enter_of_waits ha
      exact ⟨held, hb, ⟨h, fun _ => h.1⟩, rfl, hc⟩
  | send item next ih =>
    unfold Work.advance at ih ⊢
    rw [advanceTo]
    cases hs : c.send? item with
    | some x =>
      obtain ⟨heard, c'⟩ := x
      obtain ⟨hc', hopen⟩ := hc.send? h.1 hs
      rw [← hopen]
      exact ih heard (h.2 heard) hb (Backend.grants_nil _) hc'
    | none => exact ⟨held, hb, ⟨h, fun hopen => absurd hs (by simp [Channel.send?, hopen])⟩, rfl, hc⟩

/-- Work that settles its pins keeps the accounts when it is run alone, and fails by no bad
failure. -/
theorem Settles.run (hbad : ∀ failure, bad failure → failure.IsReleased)
    (h : w.Settles bad [] Q [] seen) (hb : b.Accounts bad others origin [])
    (hseen : Backend.Grants others b.snapshots seen) :
    (w.run b).2.Accounts bad others origin [] ∧ (w.run b).2.snapshots = b.snapshots ∧
      Except.Spares bad (w.run b).1 := by
  obtain ⟨held₁, haccounts, hcame, hsnapshots, -⟩ :=
    h.advance (c := .deserted) hbad hb hseen nofun
  unfold Work.run
  revert haccounts hcame hsnapshots
  obtain ⟨progress, b', c'⟩ := w.advance b .deserted
  cases progress with
  | ended r =>
    cases r with
    | done a =>
      rintro haccounts ⟨rfl, -⟩ hsnapshots
      exact ⟨haccounts, hsnapshots, nofun⟩
    | failed e =>
      rintro haccounts ⟨rfl, he⟩ hsnapshots
      refine ⟨haccounts, hsnapshots, fun e' he' => ?_⟩
      obtain rfl : e = e' := Except.error.inj he'
      exact he
    | panicked =>
      rintro haccounts rfl hsnapshots
      exact ⟨haccounts, hsnapshots, Except.spares_error rfl⟩
  | waits rest =>
    rintro haccounts ⟨-, hheld⟩ hsnapshots
    -- Work that nobody listens to and that waits is at a stripe, where it holds nothing.
    obtain rfl := hheld rfl
    exact ⟨haccounts, hsnapshots, Except.spares_error rfl⟩

end Work

end SnapshotStore
