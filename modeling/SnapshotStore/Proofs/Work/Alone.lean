import SnapshotStore.Dictionary.Update
import SnapshotStore.Work.Backend

/-!
# Work that runs alone

`Work.EndsIn` says that some work, run alone on a backend and sending nothing, ends without waiting:
how it ends, and which backend it leaves.  Every way to put work together has its rule, so that the
runs of an operation are derived along its text.

Work whose parts are calls of an engine without scheduled failures performs them by `Engine.answer`
(`Work.endsIn_attempt`, `Work.endsIn_call`).
-/

namespace SnapshotStore

/-- How a call of the engine ends: with its answer, or with its failure in a context. -/
def Outcome.ofCall {α : Type} (operation context : String) : Except EngineError α → Outcome α
  | .ok a => .done a
  | .error failure => .failed (.ofEngine operation context failure)

/-- Only going into a stripe may have to wait. -/
theorem Backend.exists_answer (b : Backend) {q : Effect} (hq : ∀ hold i, q ≠ .enter hold i) :
    ∃ a b', b.answer? q = some (a, b') := by
  cases q with
  | enter hold i => exact absurd rfl (hq hold i)
  | upgrade i =>
    cases hl : (b.stripes.lock i).upgrade? with
    | some l => exact ⟨true, b.setLock i l, by simp only [answer?, hl]⟩
    | none => exact ⟨false, b, by simp only [answer?, hl]⟩
  | _ => exact ⟨_, _, rfl⟩

namespace Work

variable {ε α β : Type} {w : Work ε α} {b b₁ b₂ : Backend} {r : Outcome α}

/-- Run alone, the work sends nothing, and ends. -/
def EndsIn (w : Work ε α) (b : Backend) (r : Outcome α) (b' : Backend) : Prop :=
  ∀ c : Channel ε, w.advance b c = (.ended r, b', c)

/-- Work that ends is run to that end. -/
theorem EndsIn.run_eq (h : w.EndsIn b r b₁) : w.run b = (r.toExcept, b₁) := by
  unfold run
  rw [h]

/-! ## Putting work together -/

/-- Finished work ends at once, and where it is. -/
theorem endsIn_finish (r : Outcome α) (b : Backend) : (finish r : Work ε α).EndsIn b r b :=
  fun _ => rfl

/-- A value is the end of work that does nothing. -/
theorem endsIn_pure (a : α) (b : Backend) : (pure a : Work ε α).EndsIn b (.done a) b :=
  fun _ => rfl

/-- An effect that is answered is followed by the work behind it. -/
theorem endsIn_perform {q : Effect} {next : q.Answer → Work ε α} {a : q.Answer}
    (ha : b.answer? q = some (a, b₁)) (h : (next a).EndsIn b₁ r b₂) :
    (perform q next).EndsIn b r b₂ := by
  intro c
  simp only [advance, advanceTo, Bool.false_eq_true, if_false, ha]
  exact h c

/-- An effect alone ends with its answer. -/
theorem endsIn_effect {q : Effect} {a : q.Answer} (ha : b.answer? q = some (a, b₁)) :
    (effect q : Work ε q.Answer).EndsIn b (.done a) b₁ :=
  endsIn_perform ha (endsIn_finish _ _)

/-- What is put behind some work goes on where the work ended. -/
private theorem advance_of_ended (g : Work ε α → Work ε β) (after : Outcome α → Work ε β)
    (hfinish : ∀ r, g (finish r) = after r)
    (hperform : ∀ q next, g (perform q next) = perform q fun a => g (next a))
    (hsend : ∀ item next, g (send item next) = send item fun x => g (next x))
    {c c' : Channel ε} (h : w.advance b c = (.ended r, b₁, c')) :
    (g w).advance b c = (after r).advance b₁ c' := by
  -- Both runs take the same steps until the first of them ends.
  induction w generalizing b c with
  | finish r' =>
    obtain ⟨rfl, rfl, rfl⟩ : r' = r ∧ b = b₁ ∧ c = c' := by
      simpa [advance, advanceTo] using h
    rw [hfinish]
  | perform q next ih =>
    rw [hperform]
    simp only [advance, advanceTo, Bool.false_eq_true, if_false] at h ih ⊢
    cases ha : b.answer? q with
    | none => simp [ha] at h
    | some x =>
      simp only [ha] at h ⊢
      exact ih _ h
  | send item next ih =>
    rw [hsend]
    simp only [advance, advanceTo] at h ih ⊢
    cases hs : c.send? item with
    | none => simp [hs] at h
    | some x =>
      simp only [hs] at h ⊢
      exact ih _ h

/-- Work goes on with the value of its first part. -/
theorem EndsIn.bind {f : α → Work ε β} {a : α} {r : Outcome β} (h : w.EndsIn b (.done a) b₁)
    (hf : (f a).EndsIn b₁ r b₂) : (w >>= f).EndsIn b r b₂ := fun c =>
  (advance_of_ended (fun w => w.bind f) (fun r => (finish r).bind f) (fun _ => rfl)
    (fun _ _ => rfl) (fun _ _ => rfl) (h c)).trans (hf c)

/-- A failure of the first part is the failure of the work. -/
theorem EndsIn.bind_failed {f : α → Work ε β} {e : StoreError} (h : w.EndsIn b (.failed e) b₁) :
    (w >>= f).EndsIn b (.failed e) b₁ := fun c =>
  advance_of_ended (fun w => w.bind f) (fun r => (finish r).bind f) (fun _ => rfl)
    (fun _ _ => rfl) (fun _ _ => rfl) (h c)

/-- A breakdown of the first part is the breakdown of the work. -/
theorem EndsIn.bind_panicked {f : α → Work ε β} (h : w.EndsIn b .panicked b₁) :
    (w >>= f).EndsIn b .panicked b₁ := fun c =>
  advance_of_ended (fun w => w.bind f) (fun r => (finish r).bind f) (fun _ => rfl)
    (fun _ _ => rfl) (fun _ _ => rfl) (h c)

/-- The last part of some work runs however the work ends. -/
theorem EndsIn.ensuring {last : Work ε Unit} (h : w.EndsIn b r b₁)
    (hlast : last.EndsIn b₁ (.done ()) b₂) : (w.ensuring last).EndsIn b r b₂ := fun c =>
  (advance_of_ended (fun w => w.ensuring last) (fun r => last.bind fun _ => finish r)
    (fun _ => rfl) (fun _ _ => rfl) (fun _ _ => rfl) (h c)).trans
    (hlast.bind (endsIn_finish r b₂) c)

/-- A last part for failures does not run behind a value. -/
theorem EndsIn.onFailure {last : Work ε Unit} {a : α} (h : w.EndsIn b (.done a) b₁) :
    (w.onFailure last).EndsIn b (.done a) b₁ := fun c =>
  advance_of_ended (fun w => w.onFailure last) (fun r => (finish r).onFailure last)
    (fun _ => rfl) (fun _ _ => rfl) (fun _ _ => rfl) (h c)

/-- A last part for failures runs behind a failure. -/
theorem EndsIn.onFailure_failed {last : Work ε Unit} {e : StoreError}
    (h : w.EndsIn b (.failed e) b₁) (hlast : last.EndsIn b₁ (.done ()) b₂) :
    (w.onFailure last).EndsIn b (.failed e) b₂ := fun c =>
  (advance_of_ended (fun w => w.onFailure last) (fun r => (finish r).onFailure last)
    (fun _ => rfl) (fun _ _ => rfl) (fun _ _ => rfl) (h c)).trans
    (hlast.bind (endsIn_finish (.failed e) b₂) c)

/-- So it does behind a breakdown. -/
theorem EndsIn.onFailure_panicked {last : Work ε Unit} (h : w.EndsIn b .panicked b₁)
    (hlast : last.EndsIn b₁ (.done ()) b₂) : (w.onFailure last).EndsIn b .panicked b₂ := fun c =>
  (advance_of_ended (fun w => w.onFailure last) (fun r => (finish r).onFailure last)
    (fun _ => rfl) (fun _ _ => rfl) (fun _ _ => rfl) (h c)).trans
    (hlast.bind (endsIn_finish .panicked b₂) c)

/-! ## Calls of an engine -/

/-- Without scheduled failures an engine answers by itself. -/
theorem answer?_ask {e : Engine} (hb : b.engine = .reliable e) (c : EngineCall) :
    b.answer? (.ask c) = some ((e.answer c).1, { b with engine := .reliable (e.answer c).2 }) := by
  simp only [Backend.answer?, hb, FaultyEngine.reliable, FaultyEngine.answer, Fault.strike]

/-- A call of a reliable engine ends with the answer of the engine, whatever it is. -/
theorem endsIn_attempt {e : Engine} (hb : b.engine = .reliable e) (c : EngineCall) :
    (attempt c : Work ε _).EndsIn b (.done (e.answer c).1)
      { b with engine := .reliable (e.answer c).2 } := endsIn_effect (answer?_ask hb c)

/-- A call ends with what the engine answers, in its context. -/
theorem endsIn_call {e : Engine} (hb : b.engine = .reliable e) (c : EngineCall)
    (operation context : String) :
    (call operation context c : Work ε c.Answer).EndsIn b
      (.ofCall operation context (e.answer c).1) { b with engine := .reliable (e.answer c).2 } := by
  refine (endsIn_attempt hb c).bind ?_
  cases (e.answer c).1 with
  | ok a => exact endsIn_pure _ _
  | error failure => exact endsIn_finish _ _

/-- A call that does not change the engine changes nothing. -/
theorem endsIn_call_reading {e : Engine} (hb : b.engine = .reliable e) {c : EngineCall}
    (hc : (e.answer c).2 = e) (operation context : String) :
    (call operation context c : Work ε c.Answer).EndsIn b
      (.ofCall operation context (e.answer c).1) b := by
  have h := endsIn_call (ε := ε) hb c operation context
  rwa [hc, ← hb] at h

end Work

end SnapshotStore
