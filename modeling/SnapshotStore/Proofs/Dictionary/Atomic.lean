import SnapshotStore.Proofs.Dictionary.Draining
import SnapshotStore.Proofs.Stream

/-!
# A window of entries is one batch

Entries are cut twice: into windows, whose last entry may pass the bound of bytes, and within a
window into batches, which are written as soon as a cap is reached.  If the caps are no tighter than
the bounds (`Config.KeepsWindows`), a window without its last entry is below both caps, so no batch
is written before the last entry is queued, and the window is written at once
(`Dictionary.putWindow_eq_putAtOnce`).

So a window is all or nothing wherever failures strike (`Dictionary.endures_putWindow`), and windows
that run one after the other leave exactly those stored that were completed.
-/

namespace SnapshotStore

/-! ## Bounds and caps -/

/-- The caps of a batch are no tighter than the bounds of a window. -/
structure Config.KeepsWindows (c : Config) : Prop where
  /-- A batch takes as many operations as a window has entries. -/
  items : c.multiGetWindow ≤ c.writeBatchCap
  /-- A batch takes as many bytes as make a window full. -/
  bytes : c.windowMaxBytes ≤ c.maxWriteBatchBytes

/-- No preset splits a window. -/
theorem Config.keepsWindows_preset (processors : Nat) (name : String) :
    (Config.preset processors name).KeepsWindows := by
  have hstandard : (standard processors).KeepsWindows := ⟨by simp [standard], by simp [standard]⟩
  unfold preset
  split
  · exact ⟨by decide, by decide⟩
  · exact ⟨by simp [lowMemory], by simp [lowMemory, standard]⟩
  · exact hstandard

/-- Sizes of batches add up. -/
theorem WriteBatch.byteSize_append (batch batch' : WriteBatch) :
    byteSize (batch ++ batch') = byteSize batch + byteSize batch' := by
  induction batch with
  | nil => exact (Nat.zero_add _).symm
  | cons op rest ih =>
    have hrest : byteSize (op :: (rest ++ batch')) = op.byteSize + byteSize (rest ++ batch') := rfl
    rw [List.cons_append, hrest, ih, ← Nat.add_assoc]
    rfl

namespace CappedBatch

variable {b : CappedBatch} {ops : WriteBatch}

/-- The batch with more operations. -/
def queueAll (b : CappedBatch) (ops : WriteBatch) : CappedBatch :=
  { b with pending := b.pending ++ ops }

theorem queueAll_nil (b : CappedBatch) : b.queueAll [] = b := by
  rw [queueAll, List.append_nil]

theorem queueAll_cons (b : CappedBatch) (op : WriteOp) (ops : WriteBatch) :
    b.queueAll (op :: ops) = (b.queue (.push op)).queueAll ops := by
  rw [queueAll, List.append_cons]
  rfl

/-- A batch that is not full was not full with fewer operations. -/
theorem isFull_eq_of_queueAll (h : (b.queueAll ops).isFull = false) : b.isFull = false := by
  simp only [isFull, queueAll, Bool.or_eq_false_iff, decide_eq_false_iff_not, List.length_append,
    WriteBatch.byteSize_append] at h ⊢
  omega

end CappedBatch

namespace Dictionary

variable {ε : Type} {d : Dictionary} {w : World}

/-- The bounds of the windows of entries. -/
def entryBounds (d : Dictionary) : WindowBounds Entry :=
  .ofNats d.config.multiGetWindow d.config.windowMaxBytes fun e => e.1.length + e.2.length

/-- A batch counts the bytes that the window counts. -/
theorem byteSize_puts (d : Dictionary) (entries : List Entry) :
    WriteBatch.byteSize (Contents.puts entries) = d.entryBounds.bytes entries := by
  rw [entryBounds, WindowBounds.bytes_ofNats]
  exact List.foldr_map

/-- A window without its last entry does not fill a batch. -/
theorem isFull_batch_of_window (hkeeps : d.config.KeepsWindows) {entries before : List Entry}
    {e : Entry} (hwindow : before ++ [e] ∈ d.entryWindows entries) :
    (d.batch.queueAll (Contents.puts before)).isFull = false := by
  have hwants : d.entryBounds.wants before.length (d.entryBounds.bytes before) = true :=
    wants_of_mem_windows hwindow
  have hpending : (d.batch.queueAll (Contents.puts before)).pending = Contents.puts before := rfl
  have hlength : (Contents.puts before).length = before.length := List.length_map _
  have hitems := hkeeps.items
  have hbytes := hkeeps.bytes
  rw [CappedBatch.isFull, hpending, hlength, byteSize_puts d, Bool.or_eq_false_iff,
    decide_eq_false_iff_not, decide_eq_false_iff_not]
  simp only [WindowBounds.wants, Bool.or_eq_true, decide_eq_true_eq, Bool.and_eq_true] at hwants
  simp only [CappedBatch.queueAll, batch, CappedBatch.new]
  rcases hwants with hempty | ⟨hlt, hlt'⟩
  · -- Both caps are at least one.
    obtain rfl := List.eq_nil_of_length_eq_zero hempty
    have hnone : d.entryBounds.bytes [] = 0 := rfl
    omega
  · have hmaxItems : d.entryBounds.maxItems = d.config.multiGetWindow := rfl
    have hmaxBytes : d.entryBounds.maxBytes = d.config.windowMaxBytes := rfl
    omega

/-! ## One write -/

/-- Writes entries as one batch, and answers what their keys held if that is wanted. -/
def putAtOnce (d : Dictionary) (entries : List Entry) (wantsPrevious : Bool) :
    Work ε (List (Option Bytes)) :=
  Work.holding .exclusive (d.writeStripes (entries.map (·.1))) do
    let previous ← if wantsPrevious then d.previousValues [] entries
      else pure (entries.map fun _ => none)
    let context := Bytes.label ((entries.head?.map (·.1)).getD [])
    Work.call "write" context (.write d.column (Contents.puts entries))
    return previous

/-- Operations that leave room are only queued. -/
theorem pushAll_append (context : String) {b : CappedBatch} {ops : WriteBatch}
    (h : (b.queueAll ops).isFull = false) (rest : WriteBatch) :
    (pushAll context b (ops ++ rest) : Work ε _) = pushAll context (b.queueAll ops) rest := by
  induction ops generalizing b with
  | nil => rw [List.nil_append, CappedBatch.queueAll_nil]
  | cons op ops ih =>
    rw [CappedBatch.queueAll_cons] at h ⊢
    rw [List.cons_append, pushAll,
      CappedBatch.push_of_not_isFull (CappedBatch.isFull_eq_of_queueAll h)]
    exact ih h

/-- A batch is written when its last operation fills it, or else when it is completed: in either
case once. -/
theorem writeAll_singleton {α : Type} (context : String) (b : CappedBatch) (op : WriteOp) (a : α) :
    (writeAll context b [op] a : Work ε α) = do
      Work.call "write" context (.write b.column (b.pending ++ [op]))
      return a := by
  have hne : (b.queue (.push op)).pending ≠ [] :=
    List.append_ne_nil_of_right_ne_nil _ (List.cons_ne_nil op [])
  have hflush := CappedBatch.flush_of_ne_nil (ε := ε) hne
  -- A full batch is written by the push and then completed empty; another one is written at its
  -- completion.
  cases hfull : (b.queue (.push op)).isFull with
  | true =>
    rw [writeAll, pushAll, CappedBatch.push_of_isFull hfull, hflush]
    refine congrArg (Work.perform _) (funext fun answer => ?_)
    cases answer <;> rfl
  | false =>
    have hqueued : (writeAll context b [op] a : Work ε α) = (do
        discard <| Work.orFail "write" context (← (b.queue (.push op)).complete)
        return a) := by
      rw [writeAll, pushAll, CappedBatch.push_of_not_isFull hfull]
      rfl
    rw [hqueued, CappedBatch.complete, hflush]
    refine congrArg (Work.perform _) (funext fun answer => ?_)
    cases answer <;> rfl

/-- **A window is written at once**, if the caps keep windows. -/
theorem putWindow_eq_putAtOnce (hkeeps : d.config.KeepsWindows) {entries window : List Entry}
    (hwindow : window ∈ d.entryWindows entries) (wantsPrevious : Bool) :
    (d.putWindow window wantsPrevious : Work ε _) = d.putAtOnce window wantsPrevious := by
  obtain ⟨before, e, rfl⟩ := (List.eq_nil_or_concat' window).resolve_left
    (ne_nil_of_mem_windows hwindow)
  have hwrite : ∀ (context : String) (previous : List (Option Bytes)),
      (writeAll context d.batch (Contents.puts (before ++ [e])) previous : Work ε _) = do
        Work.call "write" context (.write d.column (Contents.puts (before ++ [e])))
        return previous := by
    intro context previous
    have hputs : Contents.puts (before ++ [e]) = Contents.puts before ++ [.put e.1 e.2] :=
      List.map_append
    rw [hputs, writeAll, pushAll_append context (isFull_batch_of_window hkeeps hwindow)]
    exact writeAll_singleton context _ _ previous
  apply congrArg (Work.holding _ _)
  cases wantsPrevious with
  | true => exact congrArg (Work.bind _) (funext fun previous => hwrite _ previous)
  | false => exact congrArg (Work.bind _) (funext fun previous => hwrite _ previous)

/-! ## All or nothing -/

/-- Entries that are put at once are all stored, or none of them is. -/
theorem endures_putAtOnce (h : d.AtRest w) {window : List Entry} (hne : window ≠ [])
    (wantsPrevious : Bool) (k : Nat) :
    (d.putAtOnce window wantsPrevious : Work ε _).Endures k w
      (Work.AllOrNothing ((w.now d.column).answers wantsPrevious window) w
        (w.commit d.column (Contents.puts window))) := by
  have hputs : Contents.puts window ≠ [] := by simpa [Contents.puts] using hne
  refine Work.Endures.holding_uniform h.areIdle (d.nodup_writeStripes _) rfl fun l => ?_
  have hwrite : ∀ (context : String) (previous : List (Option Bytes)), _ := fun context previous =>
    (Work.endures_write (ε := ε) (k := k) (w := { w with stripes := l }) h.column hputs "write"
      context).thenReturn previous
  cases wantsPrevious with
  | true =>
    exact (endures_previousValues (w := { w with stripes := l }) h.column (.nil _) window
      k).bind_allOrNothing (hwrite _ _)
  | false => exact (Work.endures_finish .all).bind_allOrNothing (hwrite _ _)

/-- **A window is stored as a whole or not at all**, wherever failures strike. -/
theorem endures_putWindow (hkeeps : d.config.KeepsWindows) (h : d.AtRest w)
    {entries window : List Entry} (hwindow : window ∈ d.entryWindows entries)
    (wantsPrevious : Bool) (k : Nat) :
    (d.putWindow window wantsPrevious : Work ε _).Endures k w
      (Work.AllOrNothing ((w.now d.column).answers wantsPrevious window) w
        (w.commit d.column (Contents.puts window))) := by
  rw [putWindow_eq_putAtOnce hkeeps hwindow]
  exact endures_putAtOnce h (ne_nil_of_mem_windows hwindow) wantsPrevious k

end Dictionary

/-! ## Windows one after the other -/

/-- Those of some windows that ran that did not fail. -/
def completed {α β : Type} (ran : List (α × Outcome β)) : List α :=
  (ran.filter fun x => x.2.toExcept.isOk).map (·.1)

/-- If as many did not fail as ran, none of them failed. -/
theorem completed_eq_of_length_le {α β : Type} {ran : List (α × Outcome β)}
    (h : ran.length ≤ (completed ran).length) : completed ran = ran.map (·.1) := by
  rw [completed, List.length_map] at h
  rw [completed, List.Sublist.eq_of_length_le List.filter_sublist h]

namespace Dictionary

variable {d : Dictionary} {w : World} {b : Backend} {entries : List Entry}
  {windows : List (List Entry)}

/-- Windows that are put one after the other leave those stored that were completed, each as one
batch, and all of them are but one for a failure at most. -/
theorem exists_windowRuns_putWindow (hkeeps : d.config.KeepsWindows) (wantsPrevious : Bool)
    (n : Nat) (hwindows : ∀ window ∈ windows, window ∈ d.entryWindows entries) (h : d.AtRest w)
    (hb : b.mend.IsIn w) :
    ∃ ran b', WindowRuns (fun window => d.putWindow window wantsPrevious) n windows b ran b' ∧
      b'.mend.IsIn (w.commits d.column ((completed ran).map Contents.puts)) ∧
      b'.engine.faults.length + ran.length ≤ b.engine.faults.length + (completed ran).length := by
  induction windows generalizing n w b with
  | nil =>
    cases n with
    | zero => exact ⟨[], b, .enough _ _, hb.commits_nil _, Nat.le_refl _⟩
    | succ n => exact ⟨[], b, .ended _ _, hb.commits_nil _, Nat.le_refl _⟩
  | cons window rest ih =>
    cases n with
    | zero => exact ⟨[], b, .enough _ _, hb.commits_nil _, Nat.le_refl _⟩
    | succ n =>
      have hwindow := hwindows window List.mem_cons_self
      have hlater := fun x hx => hwindows x (List.mem_cons_of_mem _ hx)
      obtain ⟨r, b₁, w₁, struck, hends, hfaults, hb₁, hr⟩ :=
        (endures_putWindow hkeeps h hwindow wantsPrevious 1).exists_endsIn hb
      -- A failure strikes the window as a whole, and costs one of the faults.
      cases hr with
      | all =>
        have hanswers : (w.now d.column).answers wantsPrevious window ≠ [] := by
          rw [← List.length_pos_iff, Contents.length_answers, List.length_pos_iff]
          exact ne_nil_of_mem_windows hwindow
        obtain ⟨ran, b', hran, hb', hcount⟩ := ih (n + 1 - _) hlater (h.writes (.commit ..)) hb₁
        refine ⟨_, b', .window hends ?_ hran, ?_, ?_⟩
        · simpa [Outcome.handedOut, Outcome.toExcept] using hanswers
        · rw [← World.commits_cons] at hb'
          exact hb'
        · have hone : (completed ((window, Outcome.done
              ((w.now d.column).answers wantsPrevious window)) :: ran)).length
              = (completed ran).length + 1 := rfl
          rw [hone, List.length_cons]
          omega
      | nothing e =>
        obtain ⟨ran, b', hran, hb', hcount⟩ := ih (n + 1 - _) hlater h hb₁
        refine ⟨_, b', .window hends (List.cons_ne_nil _ _) hran, hb', ?_⟩
        have hone : completed ((window, (Outcome.failed e : Outcome (List (Option Bytes)))) :: ran)
            = completed ran := rfl
        rw [hone, List.length_cons]
        have hstruck : true.toNat = 1 := rfl
        omega

end Dictionary

end SnapshotStore
