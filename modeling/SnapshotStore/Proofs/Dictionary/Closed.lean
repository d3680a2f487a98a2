import SnapshotStore.Dictionary.Streams
import SnapshotStore.Proofs.Dictionary.Points
import SnapshotStore.Proofs.Engine.Calls

/-!
# Work on a closed engine

A closed engine refuses every call but one: a cursor that was opened before still goes on.  Work of
a dictionary that starts on a closed engine never gets so far as to have a cursor.  Its first call
is refused, it gives back the stripes that it took, and it ends with that refusal; so it leaves
everything as it was.

Work that reads at a snapshot looks the snapshot up first.  If there are no snapshots left, it ends
there.
-/

namespace SnapshotStore

/-- A closed engine refuses, and stays as it is. -/
theorem Engine.answer_of_closed {e : Engine} (hclosed : e.isClosed = true) {c : EngineCall}
    (hc : c.method ≠ .next) : e.answer c = (.error .closed, e) := by
  have hcolumn (n : Nat) : e.column n = .error .closed := column_of_closed hclosed
  cases c with
  | next cursor => exact absurd rfl hc
  | createColumn name => simp [answer, both, createColumn_of_closed hclosed]
  | get n view key => simp [answer, reading, get_of_closed hclosed]
  | mayContain n key => simp [answer, reading, mayContain, hcolumn, bind, Except.bind]
  | put n key value => simp [answer, writing, put, write_of_closed hclosed]
  | delete n key => simp [answer, writing, delete, write_of_closed hclosed]
  | write n batch => simp [answer, writing, write_of_closed hclosed]
  | scan n view range => simp [answer, both, scan_of_closed hclosed]
  | estimate n => simp [answer, reading, estimate, hcolumn, bind, Except.bind]
  | snapshot => simp [answer, both, snapshot_of_closed hclosed]
  | compact n => simp [answer, writing, compact_of_closed hclosed]
  | flush => simp [answer, reading, flush, checkOpen_of_closed hclosed]

/-- The engine of a backend is closed, and fails in no other way. -/
structure Backend.IsClosed (b : Backend) : Prop where
  /-- No failure is scheduled. -/
  reliable : b.engine.faults = []
  /-- The engine is closed. -/
  isClosed : b.engine.engine.isClosed = true

/-- The refusal of a read, now or at a snapshot, if there is no snapshot any more. -/
def Token.refusal : Option Token → StoreError
  | none => .closed
  | some t => .snapshotNotFound t

namespace Snapshots

variable {r : Snapshots}

/-- An empty register knows no token. -/
theorem resolve_of_live_nil (hlive : r.live = []) (t : Token) :
    r.resolve (some t) = .error (.snapshotNotFound t) := by
  simp [resolve, sequence?, hlive]

end Snapshots

variable {ε γ σ : Type} {b : Backend}

namespace Work

variable {α β : Type}

/-- A call of a closed engine answers that it is closed. -/
theorem endsIn_attempt_of_closed (hb : b.IsClosed) {c : EngineCall} (hc : c.method ≠ .next) :
    (attempt c : Work ε _).EndsIn b (.done (.error .closed)) b := by
  have hengine : b.engine = .reliable b.engine.engine := by
    have hfaults := hb.reliable
    cases hb : b.engine with
    | mk engine faults => simp_all [FaultyEngine.reliable]
  have hends := endsIn_attempt (ε := ε) hengine c
  rwa [Engine.answer_of_closed hb.isClosed hc, ← hengine] at hends

/-- A call of a closed engine ends the work. -/
theorem endsIn_call_of_closed (hb : b.IsClosed) {c : EngineCall} (hc : c.method ≠ .next)
    (operation context : String) :
    (call operation context c : Work ε _).EndsIn b (.failed .closed) b :=
  (endsIn_attempt_of_closed hb hc).bind (endsIn_finish _ _)

/-- Work that reads at a view is refused by the register of snapshots, or by the engine. -/
theorem endsIn_view_bind_of_closed (hlive : b.snapshots.live = []) (token : Option Token)
    {f : ReadView → Work ε α} (hf : (f .latest).EndsIn b (.failed .closed) b) :
    (Work.view token >>= f).EndsIn b (.failed (Token.refusal token)) b := by
  have hresolve : (effect (.resolve token) : Work ε _).EndsIn b
      (.done (b.snapshots.resolve token)) b := endsIn_effect rfl
  cases token with
  | none => exact (hresolve.bind (endsIn_pure _ _)).bind hf
  | some t =>
    rw [Snapshots.resolve_of_live_nil hlive] at hresolve
    exact (hresolve.bind (endsIn_finish _ _)).bind_failed

end Work

open Work

/-! ## Batches -/

namespace CappedBatch

variable {batch : CappedBatch}

/-- What is pending is lost with the failure. -/
theorem endsIn_flush_of_closed (hb : b.IsClosed) (hne : batch.pending ≠ []) :
    (batch.flush : Work ε _).EndsIn b (.done (.error .closed, batch.emptied)) b := by
  rw [flush, if_neg (by simpa using hne)]
  exact (endsIn_attempt_of_closed hb (by simp [EngineCall.method])).bind (endsIn_pure _ _)

/-- An operation that is queued is refused at once, or it waits in the batch. -/
theorem endsIn_push_of_closed (hb : b.IsClosed) (batch : CappedBatch) (op : WriteOp) :
    ∃ r batch', (batch.push op : Work ε _).EndsIn b (.done (r, batch')) b ∧
      (r = .error .closed ∨ r = .ok () ∧ batch'.pending ≠ []) := by
  unfold push
  dsimp only
  split
  · exact ⟨_, _, endsIn_flush_of_closed hb (by simp), .inl rfl⟩
  · exact ⟨_, _, endsIn_pure _ _, .inr ⟨rfl, by simp⟩⟩

/-- A batch that is completed loses what is pending. -/
theorem endsIn_complete_of_closed (hb : b.IsClosed) (hne : batch.pending ≠ []) :
    (batch.complete : Work ε _).EndsIn b (.done (.error .closed)) b :=
  (endsIn_flush_of_closed hb hne).bind (endsIn_pure _ _)

end CappedBatch

namespace Dictionary

variable (d : Dictionary)

/-! ## One key at a time -/

/-- A read fails, with or without the filter. -/
theorem endsIn_read_of_closed (hb : b.IsClosed) (view : ReadView) (key : Bytes) (sure : Bool) :
    (d.read view key sure : Work ε _).EndsIn b (.failed .closed) b := by
  cases sure with
  | true =>
    exact (endsIn_pure true b).bind (endsIn_call_of_closed hb (by simp [EngineCall.method]) _ _)
  | false => exact (endsIn_call_of_closed hb (by simp [EngineCall.method]) _ _).bind_failed

theorem endsIn_store_of_closed (hb : b.IsClosed) (key value : Bytes) :
    (d.store key value : Work ε _).EndsIn b (.failed .closed) b :=
  endsIn_call_of_closed hb (by simp [EngineCall.method]) _ _

theorem endsIn_drop_of_closed (hb : b.IsClosed) (key : Bytes) :
    (d.drop key : Work ε _).EndsIn b (.failed .closed) b :=
  endsIn_call_of_closed hb (by simp [EngineCall.method]) _ _

/-- Work that writes after it read what the key held, if that is wanted. -/
theorem endsIn_previousFor_bind_of_closed {α : Type} (hb : b.IsClosed) (result : ResultType)
    (key : Bytes) {f : Option Bytes → Work ε α}
    (hf : (f none).EndsIn b (.failed .closed) b) :
    (d.previousFor result key >>= f).EndsIn b (.failed .closed) b := by
  unfold previousFor
  split
  · exact (d.endsIn_read_of_closed hb _ _ _).bind_failed
  · exact (endsIn_pure none b).bind hf

/-- Work that is refused under any stripes is refused under idle ones. -/
theorem endsIn_holding_of_closed {α : Type} {hold : Hold} {is : List Nat} {x : Work ε α}
    (hb : b.IsClosed) (hidle : b.stripes.AreIdle) (hnodup : is.Nodup)
    (hx : ∀ b : Backend, b.IsClosed → x.EndsIn b (.failed .closed) b) :
    (Work.holding hold is x).EndsIn b (.failed .closed) b :=
  .holding_uniform hidle hnodup rfl fun _ => hx _ ⟨hb.reliable, hb.isClosed⟩

variable (hb : b.IsClosed) (hidle : b.stripes.AreIdle)
include hb hidle

/-- A put fails, whatever it was to answer. -/
theorem endsIn_put_of_closed (key value : Bytes) (result : ResultType) :
    (d.put key value result : Work ε _).EndsIn b (.failed .closed) b :=
  endsIn_holding_of_closed hb hidle (d.nodup_writeStripes _) fun _ hb =>
    d.endsIn_previousFor_bind_of_closed hb result key
      (d.endsIn_store_of_closed hb key value).bind_failed

/-- So does a removal. -/
theorem endsIn_remove_of_closed (key : Bytes) (result : ResultType) :
    (d.remove key result : Work ε _).EndsIn b (.failed .closed) b :=
  endsIn_holding_of_closed hb hidle (d.nodup_writeStripes _) fun _ hb =>
    d.endsIn_previousFor_bind_of_closed hb result key (d.endsIn_drop_of_closed hb key).bind_failed

/-- An update is refused where it reads. -/
theorem endsIn_updateAt_of_closed (stripe : Nat) (key : Bytes) (f : Updater) (sure : Bool) :
    (d.updateAt stripe key f sure : Work ε _).EndsIn b (.failed .closed) b := by
  have hlock := endsIn_lock (ε := ε) (hidle stripe) .shared
  have hheld : (b.setLock stripe Hold.shared.held).IsClosed := ⟨hb.reliable, hb.isClosed⟩
  have hpropose : (d.propose key f sure : Work ε _).EndsIn
      (b.setLock stripe Hold.shared.held) (.failed .closed) (b.setLock stripe Hold.shared.held) :=
    (d.endsIn_read_of_closed hheld .latest key sure).bind_failed
  have hunlock : (unlock .shared stripe : Work ε Unit).EndsIn (b.setLock stripe Hold.shared.held)
      (.done ()) b := endsIn_unlock_taken (hidle stripe) rfl
  exact hlock.bind (hpropose.onFailure_failed hunlock).bind_failed

/-! ## Windows -/

omit hidle in
/-- The first key of a window fails it. -/
theorem endsIn_readEach_of_closed (view : ReadView) (sure : Bool) {keys : List Bytes}
    (hne : keys ≠ []) : (d.readEach view sure keys : Work ε _).EndsIn b (.failed .closed) b := by
  cases keys with
  | nil => exact absurd rfl hne
  | cons key rest => exact (d.endsIn_read_of_closed hb _ _ _).bind_failed

omit hidle in
/-- The first entry of a window fails it. -/
theorem endsIn_previousValues_of_closed {entries : List Entry} (hne : entries ≠ []) :
    (d.previousValues [] entries : Work ε _).EndsIn b (.failed .closed) b := by
  cases entries with
  | nil => exact absurd rfl hne
  | cons e rest => exact (d.endsIn_read_of_closed hb _ _ _).bind_failed

omit hidle in
/-- Writes that are queued are refused, or some of them wait in the batch. -/
theorem endsIn_pushAll_of_closed (context : String) (batch : CappedBatch) (ops : List WriteOp)
    (hne : batch.pending ≠ [] ∨ ops ≠ []) :
    (pushAll context batch ops : Work ε _).EndsIn b (.failed .closed) b ∨
      ∃ batch', batch'.pending ≠ [] ∧
        (pushAll context batch ops : Work ε _).EndsIn b (.done batch') b := by
  induction ops generalizing batch with
  | nil => exact .inr ⟨batch, hne.resolve_right (by simp), endsIn_pure _ _⟩
  | cons op rest ih =>
    obtain ⟨r, batch', hpush, rfl | ⟨rfl, hpending⟩⟩ :=
      CappedBatch.endsIn_push_of_closed (ε := ε) hb batch op
    · have hfail : (Work.orFail "write" context (.error .closed) : Work ε Unit).EndsIn b
          (.failed .closed) b := endsIn_finish _ _
      exact .inl (hpush.bind hfail.bind_failed)
    · rcases ih batch' (.inl hpending) with hfailed | ⟨batch'', hpending', hdone⟩
      · exact .inl (hpush.bind ((endsIn_pure () b).bind hfailed))
      · exact .inr ⟨batch'', hpending', hpush.bind ((endsIn_pure () b).bind hdone)⟩

/-- A window that is written is refused where it reads, where a batch is full, or at its end. -/
theorem endsIn_putWindow_of_closed {entries : List Entry} (hne : entries ≠ [])
    (wantsPrevious : Bool) :
    (d.putWindow entries wantsPrevious : Work ε _).EndsIn b (.failed .closed) b := by
  refine endsIn_holding_of_closed hb hidle (d.nodup_writeStripes _) fun b hb => ?_
  have hwrite : ∀ (context : String) (previous : List (Option Bytes)),
      (do
        let batch ← pushAll context d.batch (entries.map fun e => .put e.1 e.2)
        discard <| Work.orFail "write" context (← batch.complete)
        return previous : Work ε _).EndsIn b (.failed .closed) b := by
    intro context previous
    -- A cap fails the window at its write, and without one it fails when the batch is completed.
    rcases endsIn_pushAll_of_closed (ε := ε) hb context d.batch
      (entries.map fun e => .put e.1 e.2) (.inr (by simpa using hne)) with
      hfailed | ⟨batch, hpending, hdone⟩
    · exact hfailed.bind_failed
    · have hfail : (discard (Work.orFail "write" context (.error .closed) : Work ε Nat)).EndsIn b
          (.failed .closed) b := endsIn_finish _ _
      exact hdone.bind
        ((CappedBatch.endsIn_complete_of_closed hb hpending).bind hfail.bind_failed)
  cases wantsPrevious with
  | true => exact (d.endsIn_previousValues_of_closed hb hne).bind_failed
  | false => exact (endsIn_pure _ b).bind (hwrite _ _)

/-! ## Ranges -/

/-- A walk is refused where it opens its cursor; a single key, where it is read. -/
theorem endsIn_visit_of_closed (view : ReadView) (range : KeyRange)
    (visitor : σ → Entry → Work ε (Bool × σ)) (s : σ) :
    (d.visit view range visitor s).EndsIn b (.failed .closed) b := by
  unfold visit
  split
  · exact endsIn_holding_of_closed hb hidle (d.nodup_readStripes _ _) fun b hb =>
      (d.endsIn_read_of_closed hb _ _ _).bind_failed
  · exact (endsIn_call_of_closed hb (by simp [EngineCall.method]) _ _).bind_failed

omit hidle in
/-- Deletions were refused when they were queued, or they are when they are completed. -/
theorem endsIn_completeDeletes_of_closed (context : String) {s : Deletions}
    (hs : s.2 = .error .closed ∨ s.2 = .ok () ∧ s.1.pending ≠ []) :
    (completeDeletes context s : Work ε _).EndsIn b (.failed .closed) b := by
  obtain ⟨batch, r⟩ := s
  rcases hs with rfl | ⟨rfl, hpending⟩
  · have hfail : (Work.orFail "delete" context (.error .closed) : Work ε Unit).EndsIn b
        (.failed .closed) b := endsIn_finish _ _
    exact hfail.bind_failed
  · have hfail : (discard (Work.orFail "delete" context (.error .closed : Except EngineError Nat)) :
        Work ε Unit).EndsIn b (.failed .closed) b := endsIn_finish _ _
    exact (endsIn_pure () b).bind
      ((CappedBatch.endsIn_complete_of_closed hb hpending).bind hfail)

/-- A deletion of a range fails: for one key at its write, and otherwise at its scan. -/
theorem endsIn_deleteRange_of_closed (range : KeyRange) :
    (d.deleteRange range : Work ε _).EndsIn b (.failed .closed) b := by
  unfold deleteRange
  split
  · exact endsIn_holding_of_closed hb hidle (d.nodup_writeStripes _) fun b hb =>
      d.endsIn_drop_of_closed hb _
  · split
    · obtain ⟨r, batch, hpush, hr⟩ :=
        CappedBatch.endsIn_push_of_closed (ε := ε) hb d.batch (.deleteRange range)
      exact hpush.bind ((endsIn_pure (batch, r) b).bind
        (endsIn_completeDeletes_of_closed hb range.display hr))
    · exact (d.endsIn_visit_of_closed hb hidle _ _ _ _).bind_failed

/-- A drain hands out nothing. -/
theorem endsIn_drain_of_closed (range : KeyRange) :
    (d.drain range).EndsIn b (.failed .closed) b :=
  (d.endsIn_visit_of_closed hb hidle _ _ _ _).bind_failed

theorem endsIn_removeFirst_of_closed (range : KeyRange) (attempts : Nat) :
    (d.removeFirst range (attempts + 1) : Work ε _).EndsIn b (.failed .closed) b :=
  (d.endsIn_visit_of_closed hb hidle _ _ _ _).bind_failed

theorem endsIn_clear_of_closed : (d.clear : Work ε _).EndsIn b (.failed .closed) b :=
  (d.endsIn_deleteRange_of_closed hb hidle _).bind_failed

theorem endsIn_count_of_closed (view : ReadView) (range : KeyRange) (cap : Option Nat) :
    (d.count view range cap : Work ε _).EndsIn b (.failed .closed) b :=
  d.endsIn_visit_of_closed hb hidle _ _ _ _

/-! ## Reads with an optional snapshot -/

variable (hlive : b.snapshots.live = [])
include hlive

/-- A point read resolves its token first, and fails for that or for the engine. -/
theorem endsIn_get_of_closed (token : Option Token) (key : Bytes) (sure : Bool) :
    (d.get token key sure : Work ε _).EndsIn b (.failed (Token.refusal token)) b :=
  endsIn_view_bind_of_closed hlive token <|
    endsIn_holding_of_closed hb hidle (d.nodup_readStripes _ _) fun _ hb =>
      d.endsIn_read_of_closed hb _ _ _

/-- So does a window of reads. -/
theorem endsIn_getWindow_of_closed (token : Option Token) {keys : List Bytes} (hne : keys ≠ [])
    (sure : Bool) :
    (d.getWindow token keys sure : Work ε _).EndsIn b (.failed (Token.refusal token)) b :=
  endsIn_view_bind_of_closed hlive token <|
    endsIn_holding_of_closed hb hidle (d.nodup_readStripes _ _) fun _ hb =>
      d.endsIn_readEach_of_closed hb _ _ hne

theorem endsIn_getFirst_of_closed (token : Option Token) (range : KeyRange) :
    (d.getFirst token range : Work ε _).EndsIn b (.failed (Token.refusal token)) b :=
  endsIn_view_bind_of_closed hlive token (d.endsIn_visit_of_closed hb hidle _ _ _ _)

/-- So does a stream of entries, whatever it shows of them. -/
theorem endsIn_streamEntries_of_closed (part : Entry → γ) (token : Option Token)
    (range : KeyRange) :
    (d.streamEntries part token range).EndsIn b (.failed (Token.refusal token)) b :=
  endsIn_view_bind_of_closed hlive token (d.endsIn_visit_of_closed hb hidle _ _ _ _)

theorem endsIn_streamGroups_of_closed (part : Entry → γ) (stemLen : Nat) (token : Option Token)
    (range : KeyRange) :
    (d.streamGroups part stemLen token range).EndsIn b (.failed (Token.refusal token)) b :=
  endsIn_view_bind_of_closed hlive token (d.endsIn_visit_of_closed hb hidle _ _ _ _).bind_failed

theorem endsIn_streamStems_of_closed (stemLen : Nat) (token : Option Token) (range : KeyRange) :
    (d.streamStems stemLen token range).EndsIn b (.failed (Token.refusal token)) b :=
  endsIn_view_bind_of_closed hlive token (d.endsIn_visit_of_closed hb hidle _ _ _ _).bind_failed

end Dictionary

end SnapshotStore
