import SnapshotStore.Proofs.Batching
import SnapshotStore.Proofs.Work.Engines

/-!
# What capped batches count

A capped batch takes its operations out of the queue and counts them before it calls the engine.  So
on an engine that fails, every operation is still handed out once and in its order, and every failed
write is answered by one call; but the operations of such a write are lost, and they are counted
(`CappedBatch.counts_handed`).  The number that the completion answers is that of the operations
which were queued.  It is that of the applied ones only if no call failed before; and if the
completion itself fails, some operation was not applied.
-/

namespace SnapshotStore.CappedBatch

variable {ε σ : Type} (answer : Answering σ)

/-- Calls one after the other, whether they fail or not, and the completion: the answers of both. -/
def session (b : CappedBatch) (cs : List Call) :
    Work ε (List (Except EngineError Unit) × Except EngineError Nat) := do
  let (rs, b) ← b.calls cs
  let total ← b.complete
  return (rs, total)

/-- The writes of a log are batches that were handed out, and its failures are those of some
answers. -/
structure Reports (batches : List WriteBatch) (rs : List (Except EngineError Unit))
    (log : WriteLog) : Prop where
  /-- The batches. -/
  batches_eq : log.map Prod.fst = batches
  /-- The failures. -/
  failed_eq : log.failed = failures rs

theorem Reports.append {batches batches' : List WriteBatch}
    {rs rs' : List (Except EngineError Unit)} {log log' : WriteLog} (h : Reports batches rs log)
    (h' : Reports batches' rs' log') : Reports (batches ++ batches') (rs ++ rs') (log ++ log') where
  batches_eq := by rw [List.map_append, h.batches_eq, h'.batches_eq]
  failed_eq := by rw [WriteLog.failed_append, failures_append, h.failed_eq, h'.failed_eq]

/-- A call writes what it hands out, and answers how that went. -/
theorem exists_onEngine_call (b : CappedBatch) (c : Call) (s : σ) (log : WriteLog) :
    ∃ r s' more, (b.call c : Work ε _).onEngine (recorded answer) (s, log)
        = (some (.done (r, b.next c)), s', log ++ more) ∧ Reports (b.handed c) [r] more := by
  cases hdue : (b.queue c).isDue c with
  | true =>
    rw [call_of_isDue hdue, handed, if_pos hdue]
    exact ⟨_, _, [(_, _)], rfl, rfl, rfl⟩
  | false =>
    rw [call_of_not_isDue hdue, handed, if_neg (Bool.eq_false_iff.mp hdue)]
    exact ⟨_, s, [], by rw [List.append_nil]; rfl, rfl, rfl⟩

/-- So do calls one after the other. -/
theorem exists_onEngine_calls (b : CappedBatch) (cs : List Call) (s : σ) (log : WriteLog) :
    ∃ rs s' more, (b.calls cs : Work ε _).onEngine (recorded answer) (s, log)
        = (some (.done (rs, b.after cs)), s', log ++ more) ∧ rs.length = cs.length ∧
      Reports (b.handedBy cs) rs more := by
  induction cs generalizing b s log with
  | nil => exact ⟨[], s, [], by rw [List.append_nil]; rfl, rfl, rfl, rfl⟩
  | cons c cs ih =>
    obtain ⟨r, s₁, more, hcall, hreports⟩ :=
      exists_onEngine_call (ε := ε) answer b c s log
    obtain ⟨rs, s₂, more', hcalls, hlength, hreports'⟩ := ih (b.next c) s₁ (log ++ more)
    refine ⟨r :: rs, s₂, more ++ more', ?_, congrArg (· + 1) hlength, hreports.append hreports'⟩
    rw [calls, Work.onEngine_bind hcall, Work.onEngine_bind hcalls, List.append_assoc]
    rfl

/-- What is reported of all calls and the completion. -/
theorem exists_onEngine_session (b : CappedBatch) (cs : List Call) (s : σ) :
    ∃ rs r s' log, (b.session cs : Work ε _).onEngine (recorded answer) (s, [])
        = (some (.done (rs, r.map fun _ => b.written + (b.pending ++ queued cs).length)), s', log) ∧
      rs.length = cs.length ∧
      Reports (b.handedBy cs ++ (b.after cs).handed .flush) (rs ++ [r]) log := by
  obtain ⟨rs, s₁, log, hcalls, hlength, hreports⟩ :=
    exists_onEngine_calls (ε := ε) answer b cs s []
  obtain ⟨r, s₂, more, hflush, hreports'⟩ :=
    exists_onEngine_call (ε := ε) answer (b.after cs) .flush s₁ log
  refine ⟨rs, r, s₂, log ++ more, ?_, hlength, hreports.append hreports'⟩
  have hcomplete : ((b.after cs).complete : Work ε _).onEngine (recorded answer) (s₁, log)
      = (some (.done (r.map fun _ => ((b.after cs).next .flush).written)), s₂, log ++ more) :=
    Work.onEngine_bind hflush
  rw [written_after_flush] at hcomplete
  rw [session, Work.onEngine_bind hcalls]
  exact Work.onEngine_bind hcomplete

/-- **Capped batches count what was queued.**  On every engine, whenever its writes fail, and
whether or not the caller goes on after a failure: all operations are handed out in the order in
which they were queued, and the failures of the writes are those that the calls and the completion
answer, in this order.  A completion that succeeds answers the number of all operations, which is
that of the applied ones just if no call failed before.  A completion that fails means that not all
operations were applied. -/
theorem counts_handed (s : σ) (column maxOps maxBytes : Nat) (cs : List Call) :
    ∃ (answers : List (Except EngineError Unit)) (total : Except EngineError Nat) (s' : σ)
        (log : WriteLog),
      ((new column maxOps maxBytes).session cs : Work Empty _).onEngine (recorded answer) (s, [])
        = (some (.done (answers, total)), s', log) ∧
      answers.length = cs.length ∧ log.handed = queued cs ∧
      log.failed = failures answers ++ failures [total] ∧
      (∀ k, total = .ok k → k = (queued cs).length ∧
        (log.applied.length = k ↔ ∀ r ∈ answers, r = .ok ())) ∧
      ∀ e, total = .error e → log.applied.length < (queued cs).length := by
  obtain ⟨answers, r, s', log, hsession, hlength, hreports⟩ :=
    exists_onEngine_session (ε := Empty) answer (new column maxOps maxBytes) cs s
  have hhanded : log.handed = queued cs := by
    rw [WriteLog.handed, List.flatMap_def, hreports.batches_eq]
    exact flatten_handedBy_flush _ cs
  have hne : ∀ x ∈ log, x.1 ≠ [] := by
    intro x hx
    have hbatch := hreports.batches_eq ▸ List.mem_map_of_mem (f := Prod.fst) hx
    rcases List.mem_append.mp hbatch with hcalls | hflush
    · exact ne_nil_of_mem_handedBy hcalls
    · exact ne_nil_of_mem_handed hflush
  have happlied := WriteLog.length_applied_eq_iff hne
  rw [hhanded, hreports.failed_eq, failures_append, List.append_eq_nil_iff,
    failures_eq_nil_iff] at happlied
  refine ⟨answers, _, s', log, hsession, hlength, hhanded, ?_, fun k hk => ?_, fun e he => ?_⟩
  · rw [hreports.failed_eq, failures_append]
    cases r <;> rfl
  · cases r with
    | error e => cases hk
    | ok u =>
      obtain rfl : 0 + (queued cs).length = k := Except.ok.inj hk
      rw [Nat.zero_add]
      exact ⟨rfl, happlied.trans (and_iff_left rfl)⟩
  · cases r with
    | ok u => cases he
    | error e' =>
      -- The completion failed, so its write was not applied.
      have hlost : log.applied.length ≠ (queued cs).length :=
        fun heq => absurd (happlied.mp heq).2 (List.cons_ne_nil _ _)
      have hle := log.applied_sublist.length_le
      rw [hhanded] at hle
      exact Nat.lt_of_le_of_ne hle hlost

/-- The engine as it answers the next calls, and closed from then on. -/
def closedAfter : Answering (Nat × Engine)
  | (0, e), c =>
    let (r, e) := e.close.answer c
    (r, 0, e)
  | (k + 1, e), c =>
    let (r, e) := e.answer c
    (r, k, e)

/-- Two operations are counted, and one of them was applied: the engine was closed before the second
write, which fails, and then the completion has nothing left to write. -/
theorem complete_counts_unapplied :
    let e := (Session.run {} [.call (.createColumn "c")]).engine
    ∃ (s' : Nat × Engine) (log : WriteLog),
      ((new 0 1 100).session [.push (.put [0x61] [1]), .push (.put [0x62] [2])] :
          Work Empty _).onEngine (recorded closedAfter) ((1, e), [])
        = (some (.done ([.ok (), .error .closed], .ok 2)), s', log) ∧
      log.handed = [.put [0x61] [1], .put [0x62] [2]] ∧ log.applied = [.put [0x61] [1]] :=
  ⟨_, _, rfl, rfl, rfl⟩

end SnapshotStore.CappedBatch
