import SnapshotStore.Proofs.Work.Alone

/-!
# Work on any engine

Work that needs nothing but an engine does not depend on how the engine keeps what is written.  An
engine is here whatever answers calls (`Answering`); it may fail at any time and for any reason, and
somebody else may have done something to it between two calls.  `Work.onEngine` runs work on it.  If
the engine is that of a backend, this is what the work does when it runs alone
(`Work.endsIn_of_onEngine`).

An engine can be watched: `recorded` is the same engine beside the writes that it was asked for,
with its answers.
-/

namespace SnapshotStore

/-- How an engine answers calls in its states. -/
abbrev Answering (σ : Type) := σ → (c : EngineCall) → Except EngineError c.Answer × σ

/-! ## Logs of writes -/

/-- The batches that an engine was asked to write, oldest first, with its answers. -/
abbrev WriteLog := List (WriteBatch × Except EngineError Unit)

/-- The failures among some answers. -/
def failures {α : Type} (rs : List (Except EngineError α)) : List EngineError :=
  rs.filterMap fun
    | .ok _ => none
    | .error e => some e

/-- The failures of two lists of answers are those of the first and then those of the second. -/
theorem failures_append {α : Type} (rs rs' : List (Except EngineError α)) :
    failures (rs ++ rs') = failures rs ++ failures rs' := List.filterMap_append

/-- There is no failure if and only if every answer is a success. -/
theorem failures_eq_nil_iff {rs : List (Except EngineError Unit)} :
    failures rs = [] ↔ ∀ r ∈ rs, r = .ok () := by
  rw [failures, List.filterMap_eq_nil_iff]
  refine forall₂_congr fun r _ => ?_
  cases r with
  | ok u => exact ⟨fun _ => rfl, fun _ => rfl⟩
  | error e => simp

namespace WriteLog

/-- The operations of all writes. -/
def handed (log : WriteLog) : WriteBatch := log.flatMap Prod.fst

/-- The operations of the writes that succeeded. -/
def applied (log : WriteLog) : WriteBatch := (log.filter (·.2.isOk)).flatMap Prod.fst

/-- The failures. -/
def failed (log : WriteLog) : List EngineError := failures (log.map Prod.snd)

/-- The failures of two logs are those of the first and then those of the second. -/
theorem failed_append (log log' : WriteLog) :
    failed (log ++ log') = log.failed ++ log'.failed := by
  rw [failed, List.map_append, failures_append]
  rfl

/-- What was applied was handed out, in the same order. -/
theorem applied_sublist (log : WriteLog) : log.applied.Sublist log.handed := by
  induction log with
  | nil => exact .slnil
  | cons x rest ih =>
    obtain ⟨batch, r⟩ := x
    cases r with
    | ok u => exact (List.Sublist.refl batch).append ih
    | error e => exact ih.trans (List.sublist_append_right batch _)

/-- Where no write is empty, everything was applied just if no write failed. -/
theorem length_applied_eq_iff {log : WriteLog} (hne : ∀ x ∈ log, x.1 ≠ []) :
    log.applied.length = log.handed.length ↔ log.failed = [] := by
  induction log with
  | nil => exact ⟨fun _ => rfl, fun _ => rfl⟩
  | cons x rest ih =>
    have hrest := ih fun x hx => hne x (List.mem_cons_of_mem _ hx)
    have hle := (applied_sublist rest).length_le
    -- The batch is not empty, so the counts differ from a failed batch on.
    have hpos := List.length_pos_iff.mpr (hne x List.mem_cons_self)
    obtain ⟨batch, r⟩ := x
    cases r with
    | ok u =>
      show (batch ++ applied rest).length = (batch ++ handed rest).length ↔ failed rest = []
      rw [List.length_append, List.length_append, Nat.add_left_cancel_iff]
      exact hrest
    | error e =>
      show (applied rest).length = (batch ++ handed rest).length ↔ e :: failed rest = []
      rw [List.length_append]
      refine ⟨fun heq => ?_, fun h => absurd h (List.cons_ne_nil _ _)⟩
      dsimp only at hpos
      omega

end WriteLog

/-- An engine beside what it was asked to write. -/
def recorded {σ : Type} (answer : Answering σ) : Answering (σ × WriteLog)
  | (s, log), .write n batch =>
    let (r, s) := answer s (.write n batch)
    (r, s, log ++ [(batch, r)])
  | (s, log), c =>
    let (r, s) := answer s c
    (r, s, log)

/-! ## Running work -/

namespace Work

variable {ε α β σ : Type} {x : Work ε α} {answer : Answering σ} {s s' : σ}

/-- How work ends that is run on an engine, and the state that it leaves; work that needs something
else than the engine does not end. -/
def onEngine (answer : Answering σ) : Work ε α → σ → Option (Outcome α) × σ
  | finish r, s => (some r, s)
  | perform (.ask c) next, s => (next (answer s c).1).onEngine answer (answer s c).2
  | perform _ _, s => (none, s)
  | send _ _, s => (none, s)

/-- Work goes on with the value of its first part. -/
theorem onEngine_bind {f : α → Work ε β} {a : α} (h : x.onEngine answer s = (some (.done a), s')) :
    (x >>= f).onEngine answer s = (f a).onEngine answer s' := by
  induction x generalizing s with
  | finish r =>
    obtain ⟨rfl, rfl⟩ : r = .done a ∧ s = s' := by simpa [onEngine] using h
    rfl
  | perform q next ih =>
    cases q with
    | ask c => exact ih _ h
    | _ => cases h
  | send item next ih => cases h

/-- On the engine of a backend, work does what it does when it runs alone. -/
theorem endsIn_of_onEngine {b : Backend} {r : Outcome α} {f : FaultyEngine}
    (h : x.onEngine FaultyEngine.answer b.engine = (some r, f)) :
    x.EndsIn b r { b with engine := f } := by
  induction x generalizing b with
  | finish r' =>
    obtain ⟨rfl, rfl⟩ : r' = r ∧ b.engine = f := by simpa [onEngine] using h
    exact endsIn_finish r' b
  | perform q next ih =>
    cases q with
    | ask c => exact endsIn_perform rfl (ih _ (b := { b with engine := _ }) h)
    | _ => cases h
  | send item next ih => cases h

end Work

end SnapshotStore
