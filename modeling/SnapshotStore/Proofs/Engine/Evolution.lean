import SnapshotStore.Proofs.Engine.CursorExact
import SnapshotStore.Proofs.Engine.FilterSound
import SnapshotStore.Proofs.Engine.LiveCount

/-!
# Engines evolve

Between two looks at an engine any number of calls were answered and pins taken away, and it may
have been closed.  What was committed before the first look stays in its history, so a sequence
shows the same state at the second one, or nothing (`Engine.Evolves.get_at`).  A filter may have
forgotten a key by then that an old state has.
-/

namespace SnapshotStore

namespace Engine

variable {e e' e'' : Engine} {l : Ledger}

/-- An engine after it answered calls, pins were taken away, and perhaps it was closed. -/
inductive Evolves (e : Engine) : Engine → Prop where
  /-- Nothing happened. -/
  | refl : Evolves e e
  /-- A call was answered. -/
  | answer {e' : Engine} (h : Evolves e e') (c : EngineCall) : Evolves e (e'.answer c).2
  /-- A pin was taken away. -/
  | unpin {e' : Engine} (h : Evolves e e') (s : Nat) : Evolves e (e'.unpin s)
  /-- The engine was closed. -/
  | close {e' : Engine} (h : Evolves e e') : Evolves e e'.close

namespace Evolves

/-- What happens in two steps happens in one. -/
theorem trans (h : e.Evolves e') (h' : e'.Evolves e'') : e.Evolves e'' := by
  induction h' with
  | refl => exact h
  | answer _ c ih => exact ih.answer c
  | unpin _ s ih => exact ih.unpin s
  | close _ ih => exact ih.close

/-- The history of what was committed only grows. -/
theorem agrees (h : e.Evolves e') (ha : e.Agrees l) : ∃ l', l.Grows l' ∧ e'.Agrees l' := by
  induction h with
  | refl => exact ⟨l, l.grows_refl, ha⟩
  | answer _ c ih =>
    obtain ⟨l', hgrows, ha'⟩ := ih
    exact ⟨l'.call c, hgrows.trans (l'.grows_call c), ha'.call c⟩
  | unpin _ s ih =>
    obtain ⟨l', hgrows, ha'⟩ := ih
    exact ⟨l', hgrows, ha'.unpin s⟩
  | close _ ih =>
    obtain ⟨l', hgrows, ha'⟩ := ih
    exact ⟨l'.close, hgrows.trans l'.grows_close, ha'.close⟩

/-- The filters cover the stored keys whatever happens. -/
theorem covers (h : e.Evolves e') (hc : e.Covers) : e'.Covers := by
  induction h with
  | refl => exact hc
  | answer _ c ih => exact (changes_answer _ c).covers ih
  | unpin _ s ih => exact ih
  | close _ ih => exact ih

/-- The counters of live keys are right whatever happens. -/
theorem counts (h : e.Evolves e') (hc : e.Counts) : e'.Counts := by
  induction h with
  | refl => exact hc
  | answer _ c ih => exact (changes_answer _ c).counts ih
  | unpin _ s ih => exact ih
  | close _ ih => exact ih

end Evolves

/-- What a key has in the newest state. -/
def newest (e : Engine) (n : Nat) (key : Bytes) : Option Bytes :=
  (e.get n .latest key).toOption.getD none

/-- What the newest state of an open engine holds is what its sequence shows from then on. -/
theorem Agrees.newest_eq (ha : e.Agrees l) (hopen : e.isClosed = false) (n : Nat) (key : Bytes) :
    e.newest n key = l.history.contents e.sequence n key := by
  have hopen' : l.isOpen = true := by simpa [hopen] using ha.isClosed_eq
  rw [newest, ha.get_eq, if_neg (by simp [hopen'])]
  split
  · next hn =>
    -- No batch was committed to a column that is not there.
    rw [History.contents_eq_empty fun b hb heq => ?_]
    · rfl
    · have hlt := ha.represents.column_lt b hb
      have hlength := ha.length_names
      omega
  · rw [ha.represents.sequence_eq]
    rfl

/-- **A read at an old sequence shows what the newest state was then**, or fails. -/
theorem Evolves.get_at (h : e.Evolves e') (ha : e.Agrees l) (hopen : e.isClosed = false) (n : Nat)
    (key : Bytes) {value : Option Bytes} (hget : e'.get n (.at e.sequence) key = .ok value) :
    value = e.newest n key := by
  obtain ⟨l', hgrows, ha'⟩ := h.agrees ha
  rw [ha'.get_eq] at hget
  split at hget
  · cases hget
  · split at hget
    · cases hget
    · dsimp only at hget
      split at hget
      · rw [ha.newest_eq hopen, ← hgrows.contents_eq (Nat.le_of_eq ha.represents.sequence_eq),
          Except.ok.inj hget]
      · cases hget

end Engine

/-- What clients do makes an engine evolve. -/
theorem Session.evolves_run (options : Engine.Options) (acts : List Act) :
    (Engine.new options).Evolves (run options acts).engine := by
  refine run_induction (P := fun s => (Engine.new options).Evolves s.engine) .refl
    (fun s a h => ?_) acts
  have hreader : ∀ i f, (∀ r, s.readers[i]? = some r → r.isOpen = true →
      (Engine.new options).Evolves (f r).engine) →
      (Engine.new options).Evolves (s.onReader i f).engine :=
    fun i f => onReader_induction (P := fun t => (Engine.new options).Evolves t.engine) h
  cases a with
  | call c => exact h.answer c
  | release q => exact h.unpin q
  | advance i => exact hreader i _ fun _ _ _ => h
  | turn i => exact hreader i _ fun _ _ _ => h
  | drop i => exact hreader i _ fun r _ _ => h.unpin r.cursor.sequence
  | close => exact h.close

end SnapshotStore
