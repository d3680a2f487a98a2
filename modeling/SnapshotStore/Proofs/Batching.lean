import SnapshotStore.Batching
import SnapshotStore.Proofs.Work.World

/-!
# What the calls of a capped batch hand to the engine

A call of a capped batch queues an operation, or none, and then hands everything that is queued to
the engine if that is due.  Which batches the calls hand out and what stays queued does not depend
on what the engine answers (`CappedBatch.handed`, `CappedBatch.next`).  Joined together, the batches
and what is still queued are the operations in their order (`CappedBatch.flatten_handedBy`).

On an engine that works the calls commit the batches that they hand out (`CappedBatch.takes_calls`),
so where the batches are cut does not matter for what the operations make of a column.
-/

namespace SnapshotStore.CappedBatch

variable {ε : Type} {b : CappedBatch}

/-! ## Calls -/

/-- A call of a capped batch. -/
inductive Call where
  | push (op : WriteOp)
  | flush

/-- The operations that a call queues. -/
def Call.ops : Call → WriteBatch
  | push op => [op]
  | flush => []

/-- The operations that calls queue. -/
def queued (cs : List Call) : WriteBatch := cs.flatMap Call.ops

/-- Does what is called. -/
def call (b : CappedBatch) : Call → Work ε (Except EngineError Unit × CappedBatch)
  | .push op => b.push op
  | .flush => b.flush

/-- The answers of calls one after the other, whether they fail or not, and the batch then. -/
def calls (b : CappedBatch) : List Call → Work ε (List (Except EngineError Unit) × CappedBatch)
  | [] => pure ([], b)
  | c :: cs => do
    let (r, b) ← b.call c
    let (rs, b) ← b.calls cs
    return (r :: rs, b)

/-! ## What they hand out -/

/-- The batch with the operations of a call. -/
def queue (b : CappedBatch) (c : Call) : CappedBatch := { b with pending := b.pending ++ c.ops }

/-- Whether a call writes what is queued: a push if a cap is reached, a flush if there is
anything. -/
def isDue (b : CappedBatch) : Call → Bool
  | .push _ => b.isFull
  | .flush => !b.pending.isEmpty

/-- The batch that a call hands to the engine, if any. -/
def handed (b : CappedBatch) (c : Call) : List WriteBatch :=
  if (b.queue c).isDue c then [(b.queue c).pending] else []

/-- The batch after a call. -/
def next (b : CappedBatch) (c : Call) : CappedBatch :=
  if (b.queue c).isDue c then (b.queue c).emptied else b.queue c

/-- The batches that calls hand to the engine. -/
def handedBy (b : CappedBatch) : List Call → List WriteBatch
  | [] => []
  | c :: cs => b.handed c ++ (b.next c).handedBy cs

/-- The batch after calls. -/
def after (b : CappedBatch) (cs : List Call) : CappedBatch := cs.foldl next b

/-- What calls leave as it is: the column and the caps. -/
def setup (b : CappedBatch) : Nat × Nat × Nat := (b.column, b.maxOps, b.maxBytes)

/-- A call leaves the column and the caps as they are. -/
theorem setup_next (b : CappedBatch) (c : Call) : (b.next c).setup = b.setup := by
  unfold next
  split <;> rfl

/-- So do all calls of a caller. -/
theorem setup_after (b : CappedBatch) (cs : List Call) : (b.after cs).setup = b.setup := by
  induction cs generalizing b with
  | nil => rfl
  | cons c cs ih => exact (ih (b.next c)).trans (b.setup_next c)

/-- The column stays the same. -/
@[simp] theorem column_next (b : CappedBatch) (c : Call) : (b.next c).column = b.column :=
  congrArg Prod.fst (b.setup_next c)

/-- The column is the same after all calls. -/
@[simp] theorem column_after (b : CappedBatch) (cs : List Call) :
    (b.after cs).column = b.column := congrArg Prod.fst (b.setup_after cs)

/-- A call hands out operations, or leaves them in the queue. -/
theorem flatten_handed (b : CappedBatch) (c : Call) :
    (b.handed c).flatten ++ (b.next c).pending = b.pending ++ c.ops := by
  unfold handed next
  split
  · rw [List.flatten_singleton]
    exact List.append_nil _
  · rfl

/-- What is handed out counts as written. -/
theorem written_next (b : CappedBatch) (c : Call) :
    (b.next c).written = b.written + (b.handed c).flatten.length := by
  unfold handed next
  split
  · rw [List.flatten_singleton]
    rfl
  · rfl

/-- A batch that is due has operations. -/
theorem pending_ne_nil_of_isDue {c : Call} (h : (b.queue c).isDue c = true) :
    (b.queue c).pending ≠ [] := by
  cases c with
  | push op => exact List.append_ne_nil_of_right_ne_nil _ (List.cons_ne_nil op [])
  | flush => simpa [isDue] using h

/-- No empty batch is handed to the engine. -/
theorem ne_nil_of_mem_handed {c : Call} {batch : WriteBatch} (h : batch ∈ b.handed c) :
    batch ≠ [] := by
  unfold handed at h
  split at h
  · rename_i hdue
    rw [List.mem_singleton.mp h]
    exact pending_ne_nil_of_isDue hdue
  · cases h

/-- No call hands an empty batch to the engine. -/
theorem ne_nil_of_mem_handedBy {cs : List Call} {batch : WriteBatch} (h : batch ∈ b.handedBy cs) :
    batch ≠ [] := by
  induction cs generalizing b with
  | nil => cases h
  | cons c cs ih =>
    rcases List.mem_append.mp h with hnow | hlater
    · exact ne_nil_of_mem_handed hnow
    · exact ih hlater

/-- **All operations are handed out in their order**, apart from those that are still queued. -/
theorem flatten_handedBy (b : CappedBatch) (cs : List Call) :
    (b.handedBy cs).flatten ++ (b.after cs).pending = b.pending ++ queued cs := by
  induction cs generalizing b with
  | nil => exact (List.append_nil _).symm
  | cons c cs ih =>
    rw [handedBy, List.flatten_append, List.append_assoc, queued, List.flatMap_cons,
      ← List.append_assoc b.pending, ← flatten_handed, List.append_assoc]
    exact congrArg _ (ih (b.next c))

/-- Nothing is queued behind a flush. -/
theorem pending_next_flush (b : CappedBatch) : (b.next .flush).pending = [] := by
  unfold next
  split
  · rfl
  · rename_i hdue
    simpa [isDue] using hdue

/-- A flush hands out all that is queued. -/
theorem flatten_handed_flush (b : CappedBatch) : (b.handed .flush).flatten = b.pending := by
  have hflatten := b.flatten_handed .flush
  rwa [pending_next_flush, Call.ops, List.append_nil, List.append_nil] at hflatten

/-- The counter grows by the number of operations that were handed over. -/
theorem written_after (b : CappedBatch) (cs : List Call) :
    (b.after cs).written = b.written + (b.handedBy cs).flatten.length := by
  induction cs generalizing b with
  | nil => rfl
  | cons c cs ih =>
    rw [handedBy, List.flatten_append, List.length_append, ← Nat.add_assoc, ← written_next]
    exact ih (b.next c)

/-- With a last flush, all operations are handed out in their order. -/
theorem flatten_handedBy_flush (b : CappedBatch) (cs : List Call) :
    (b.handedBy cs ++ (b.after cs).handed .flush).flatten = b.pending ++ queued cs := by
  rw [List.flatten_append, flatten_handed_flush, flatten_handedBy]

/-- Then as many are counted. -/
theorem written_after_flush (b : CappedBatch) (cs : List Call) :
    ((b.after cs).next .flush).written = b.written + (b.pending ++ queued cs).length := by
  rw [written_next, written_after, Nat.add_assoc, ← List.length_append, ← List.flatten_append,
    flatten_handedBy_flush]

/-- A batch below its caps, which are positive. -/
structure IsBelow (b : CappedBatch) : Prop where
  /-- The cap of operations is positive. -/
  maxOps_pos : 0 < b.maxOps
  /-- The cap of bytes is positive. -/
  maxBytes_pos : 0 < b.maxBytes
  /-- Neither is reached. -/
  isFull_eq : b.isFull = false

/-- A new batch has nothing pending, and its caps are at least one. -/
theorem isBelow_new (column maxOps maxBytes : Nat) : (new column maxOps maxBytes).IsBelow := by
  have hops : 0 < max maxOps 1 := by omega
  have hbytes : 0 < max maxBytes 1 := by omega
  exact ⟨hops, hbytes, by simp [isFull, new, WriteBatch.byteSize]⟩

/-- Below the caps there are fewer pending operations, and fewer bytes, than the caps say. -/
theorem IsBelow.lt (h : b.IsBelow) :
    b.pending.length < b.maxOps ∧ WriteBatch.byteSize b.pending < b.maxBytes := by
  simpa [isFull] using h.isFull_eq

/-- A call leaves a batch below its caps. -/
theorem IsBelow.next (h : b.IsBelow) (c : Call) : (b.next c).IsBelow := by
  have hops : (b.next c).maxOps = b.maxOps := congrArg (·.2.1) (b.setup_next c)
  have hbytes : (b.next c).maxBytes = b.maxBytes := congrArg (·.2.2) (b.setup_next c)
  refine ⟨hops ▸ h.maxOps_pos, hbytes ▸ h.maxBytes_pos, ?_⟩
  unfold CappedBatch.next
  split
  · -- What was handed over leaves nothing pending, and both caps are positive.
    have hempty : ¬ b.maxOps ≤ 0 ∧ ¬ b.maxBytes ≤ 0 :=
      ⟨Nat.not_le.mpr h.maxOps_pos, Nat.not_le.mpr h.maxBytes_pos⟩
    simpa [isFull, emptied, queue, WriteBatch.byteSize] using hempty
  · -- What was not handed over was not due, so it leaves room.
    rename_i hdue
    cases c with
    | push op => exact Bool.eq_false_iff.mpr hdue
    | flush =>
      rw [queue, Call.ops, List.append_nil]
      exact h.isFull_eq

/-- Whatever is called, the batch stays below its caps. -/
theorem IsBelow.after (h : b.IsBelow) (cs : List Call) : (b.after cs).IsBelow := by
  induction cs generalizing b with
  | nil => exact h
  | cons c cs ih => exact ih (h.next c)

/-! ## The work of the calls -/

/-- A flush of a batch with operations writes them. -/
theorem flush_of_ne_nil (h : b.pending ≠ []) :
    (b.flush : Work ε _) = do
      let r ← Work.attempt (.write b.column b.pending)
      return (r, b.emptied) := if_neg (by simpa using h)

/-- A push that fills the batch writes it. -/
theorem push_of_isFull {op : WriteOp} (h : (b.queue (.push op)).isFull = true) :
    (b.push op : Work ε _) = (b.queue (.push op)).flush := if_pos h

/-- A push that leaves room only queues its operation. -/
theorem push_of_not_isFull {op : WriteOp} (h : (b.queue (.push op)).isFull = false) :
    (b.push op : Work ε _) = pure (.ok (), b.queue (.push op)) := if_neg (Bool.eq_false_iff.mp h)

/-- A call performs at most one write, and does not look at its answer. -/
theorem call_of_isDue {c : Call} (h : (b.queue c).isDue c = true) :
    (b.call c : Work ε _) = do
      let r ← Work.attempt (.write b.column (b.queue c).pending)
      return (r, b.next c) := by
  have hflush : (b.call c : Work ε _) = (b.queue c).flush := by
    cases c with
    | push op => exact push_of_isFull h
    | flush => rw [queue, Call.ops, List.append_nil]; rfl
  rw [hflush, flush_of_ne_nil (pending_ne_nil_of_isDue h), next, if_pos h]
  rfl

/-- A call that is not due only queues its operation. -/
theorem call_of_not_isDue {c : Call} (h : (b.queue c).isDue c = false) :
    (b.call c : Work ε _) = pure (.ok (), b.next c) := by
  have hnot : ¬ (b.queue c).isDue c = true := Bool.eq_false_iff.mp h
  rw [next, if_neg hnot]
  cases c with
  | push op => exact push_of_not_isFull h
  | flush =>
    have hempty : b.pending.isEmpty = true := by simpa [isDue, queue, Call.ops] using h
    rw [queue, Call.ops, List.append_nil]
    exact if_pos hempty

/-- To complete the batch is to flush it, and to answer what it counted. -/
theorem complete_eq (b : CappedBatch) :
    (b.complete : Work ε _) = do
      let (r, b) ← b.call .flush
      return r.map fun _ => b.written := rfl

/-! ## On an engine that works -/

variable {w : World}

/-- A call commits what it hands out. -/
theorem takes_call (hn : w.HasColumn b.column) (c : Call) :
    (b.call c : Work ε _).Takes w (.done (.ok (), b.next c)) (w.commits b.column (b.handed c)) := by
  cases h : (b.queue c).isDue c with
  | true =>
    rw [call_of_isDue h, handed, if_pos h]
    exact (Work.takes_write hn (pending_ne_nil_of_isDue h)).bind (Work.takes_pure _ _)
  | false =>
    rw [call_of_not_isDue h, handed, if_neg (by simp [h]), World.commits_nil]
    exact Work.takes_pure _ _

/-- So do calls one after the other. -/
theorem takes_calls (hn : w.HasColumn b.column) (cs : List Call) :
    (b.calls cs : Work ε _).Takes w (.done (cs.map fun _ => .ok (), b.after cs))
      (w.commits b.column (b.handedBy cs)) := by
  induction cs generalizing b w with
  | nil =>
    rw [handedBy, World.commits_nil]
    exact Work.takes_pure _ _
  | cons c cs ih =>
    have hrest := ih (b := b.next c) (w := w.commits b.column (b.handed c))
      (by rw [column_next]; exact hn)
    rw [column_next, ← World.commits_append] at hrest
    exact (takes_call hn c).bind (hrest.bind (Work.takes_pure _ _))

/-- Completing the batch commits what is queued, and answers what was handed out in all. -/
theorem takes_complete (hn : w.HasColumn b.column) :
    (b.complete : Work ε _).Takes w (.done (.ok (b.next .flush).written))
      (w.commits b.column (b.handed .flush)) := by
  rw [complete_eq]
  exact (takes_call hn .flush).bind (Work.takes_pure _ _)

/-- Pushing an operation applies it to what the column will hold. -/
theorem makes_push (hn : w.HasColumn b.column) (op : WriteOp) :
    ∃ b' m, (b.push op : Work ε _).Makes w (.done (.ok (), b')) b.column m ∧ b'.column = b.column ∧
      m.applyAll b'.pending = ((w.now b.column).applyAll b.pending).apply op := by
  refine ⟨_, _, ⟨_, takes_call hn (.push op), .commits ..⟩, column_next b _, ?_⟩
  rw [← Contents.applyAll_append, flatten_handed, Contents.applyAll_append]
  rfl

/-- Completing the batch makes real what the column was to hold. -/
theorem makes_complete (hn : w.HasColumn b.column) :
    ∃ k, (b.complete : Work ε _).Makes w (.done (.ok k)) b.column
      ((w.now b.column).applyAll b.pending) := by
  rw [← flatten_handed_flush]
  exact ⟨_, _, takes_complete hn, .commits ..⟩

end SnapshotStore.CappedBatch
