import SnapshotStore.Dictionary.Streams
import SnapshotStore.Proofs.Dictionary.Points
import SnapshotStore.Proofs.Footprint.Work

/-!
# What the operations of a dictionary write

Reads write nothing.  An operation on a key writes that key, an operation on entries writes these
entries, and what deletes a range deletes keys of the range, one by one or as one operation.  All of
it goes to the column of the dictionary.  What takes stripes, all or the one of a key, gives them
back.
-/

namespace SnapshotStore

variable {may : Permit} {ε γ α σ : Type} {n : Nat} {l : Stripes}

/-! ## Batches -/

/-- A batch for a column that has queued what may be written there. -/
structure CappedBatch.Within (may : Permit) (n : Nat) (b : CappedBatch) : Prop where
  /-- The column. -/
  column_eq : b.column = n
  /-- What is queued may be written. -/
  pending : ∀ op ∈ b.pending, may n op

namespace CappedBatch.Within

variable {b : CappedBatch}

/-- A flush writes what is queued, which is permitted. -/
theorem flush (h : b.Within may n) :
    (b.flush : Work ε _).Confined may l fun r => r.2.Within may n := by
  obtain ⟨rfl, hpending⟩ := h
  unfold CappedBatch.flush
  split
  · exact Work.confined_pure ⟨rfl, hpending⟩
  · refine (Work.confined_attempt fun x hx => ?_).bind fun _ _ =>
      Work.confined_pure ⟨rfl, by simp [emptied]⟩
    obtain ⟨op, hop, rfl⟩ := List.mem_map.mp hx
    exact hpending op hop

/-- A batch takes a permitted operation, and writes only what it had queued. -/
theorem push (h : b.Within may n) {op : WriteOp} (hop : may n op) :
    (b.push op : Work ε _).Confined may l fun r => r.2.Within may n := by
  have hqueued : CappedBatch.Within may n { b with pending := b.pending ++ [op] } := by
    refine ⟨h.column_eq, fun x hx => ?_⟩
    rcases List.mem_append.mp hx with hx | hx
    · exact h.pending x hx
    · exact List.mem_singleton.mp hx ▸ hop
  unfold CappedBatch.push
  dsimp only
  split
  · exact hqueued.flush
  · exact Work.confined_pure hqueued

/-- What is left in the end is written, and it is permitted. -/
theorem complete (h : b.Within may n) : (b.complete : Work ε _).Confined may l fun _ => True :=
  h.flush.bind fun _ _ => Work.confined_pure trivial

end CappedBatch.Within

namespace Dictionary

variable {d : Dictionary} {view : ReadView} {range : KeyRange} {key value : Bytes}

/-! ## One key at a time -/

/-- A read writes nothing. -/
theorem confined_read (view : ReadView) (key : Bytes) (sure : Bool) :
    (d.read view key sure : Work ε _).Confined may l fun _ => True := by
  have hget : (Work.call "read" key.label (.get d.column view key) : Work ε _).Confined may l
      fun _ => True := (Work.confined_reading rfl ..).weaken fun _ _ => trivial
  cases sure with
  | true => exact hget
  | false =>
    refine (Work.confined_reading (c := .mayContain d.column key) rfl "read" key.label).bind
      fun possible _ => ?_
    cases possible with
    | true => exact hget
    | false => exact Work.confined_pure trivial

/-- A value is written only to its own key. -/
theorem confined_store (h : may d.column (.put key value)) :
    (d.store key value : Work ε _).Confined may l fun _ => True :=
  Work.confined_call (c := .put d.column key value) (by simpa [EngineCall.writes] using h) ..

/-- A tombstone is written only to its own key. -/
theorem confined_drop (h : may d.column (.delete key)) :
    (d.drop key : Work ε _).Confined may l fun _ => True :=
  Work.confined_call (c := .delete d.column key) (by simpa [EngineCall.writes] using h) ..

/-- To look at the value before a write is a read. -/
theorem confined_previousFor (result : ResultType) (key : Bytes) :
    (d.previousFor result key : Work ε _).Confined may l fun _ => True := by
  unfold previousFor
  split
  · exact confined_read .latest key false
  · exact Work.confined_pure trivial

/-- Reads take stripes of a dictionary at rest and give them back. -/
theorem confined_sharing (hidle : l.AreIdle) {w : Work ε α} {Q : α → Prop} (view : ReadView)
    (keys : List Bytes) (h : ∀ l, w.Confined may l Q) :
    (Work.holding .shared (d.readStripes view keys) w).Confined may l Q :=
  Work.confined_holding (d.nodup_readStripes view keys) (fun i _ => hidle i) h

/-- Writes do, too. -/
theorem confined_owning (hidle : l.AreIdle) {w : Work ε α} {Q : α → Prop} (keys : List Bytes)
    (h : ∀ l, w.Confined may l Q) :
    (Work.holding .exclusive (d.writeStripes keys) w).Confined may l Q :=
  Work.confined_holding (d.nodup_writeStripes keys) (fun i _ => hidle i) h

/-- A point read writes nothing and gives back its stripe. -/
theorem confined_get (hidle : l.AreIdle) (token : Option Token) (key : Bytes) (sure : Bool) :
    (d.get token key sure : Work ε _).Confined may l fun _ => True :=
  (Work.confined_view token).bind fun view _ =>
    confined_sharing hidle view [key] fun _ => confined_read view key sure

/-- A put writes its key alone. -/
theorem confined_put (hidle : l.AreIdle) (h : may d.column (.put key value))
    (result : ResultType) : (d.put key value result : Work ε _).Confined may l fun _ => True :=
  confined_owning hidle [key] fun _ => (confined_previousFor result key).bind fun _ _ =>
    (confined_store h).bind fun _ _ => Work.confined_pure trivial

/-- A removal writes its key alone. -/
theorem confined_remove (hidle : l.AreIdle) (h : may d.column (.delete key))
    (result : ResultType) : (d.remove key result : Work ε _).Confined may l fun _ => True :=
  confined_owning hidle [key] fun _ => (confined_previousFor result key).bind fun _ _ =>
    (confined_drop h).bind fun _ _ => Work.confined_pure trivial

/-! ## Updates -/

/-- To ask the updater is to read, and the updater writes nothing itself. -/
theorem confined_propose (key : Bytes) (f : Updater) (sure : Bool) :
    (d.propose key f sure : Work ε _).Confined may l fun _ => True := by
  refine (confined_read .latest key sure).bind fun previous _ => ?_
  have hconsult : (Work.effect (.consult f previous) : Work ε _).Confined may l fun _ => True :=
    Work.confined_effect trivial trivial fun _ _ heq => ⟨heq, trivial⟩
  refine hconsult.bind fun current _ => ?_
  cases current with
  | some current => exact Work.confined_pure trivial
  | none => exact Work.confined_panic

/-- What a key is assigned may be written. -/
def MayAssign (may : Permit) (d : Dictionary) (key : Bytes) : Prop :=
  may d.column (.delete key) ∧ ∀ value, may d.column (.put key value)

/-- A decision of the updater is carried out at its key alone. -/
theorem confined_carryOut (h : d.MayAssign may key) (action : UpdateAction) :
    (d.carryOut key action : Work ε _).Confined may l fun _ => True := by
  cases action with
  | noOp => exact Work.confined_pure trivial
  | write value => exact confined_store (h.2 value)
  | delete => exact confined_drop h.1

/-- An update gives its stripe back, whichever hold of it it has when it ends. -/
theorem confined_updateAt (hidle : l.AreIdle) (h : d.MayAssign may key) (stripe : Nat)
    (f : Updater) (sure : Bool) :
    (d.updateAt stripe key f sure : Work ε _).Confined may l fun _ => True := by
  have hfree := hidle stripe
  -- Every way of the update ends with the stripe given back, in the mode in which it is held then.
  have hcarry : ∀ (delta : Delta Bytes) (l : Stripes), (do
      d.carryOut key (.ofDelta delta)
      return delta : Work ε (Delta Bytes)).Confined may l fun _ => True := fun delta _ =>
    (confined_carryOut h _).bind fun _ _ => Work.confined_pure trivial
  have hshared : (Work.unlock .shared stripe : Work ε Unit).ConfinedFrom may l (fun _ => True)
      (List.set l stripe Hold.shared.held) := Work.confined_unlock hfree .shared
  have hexclusive : (Work.unlock .exclusive stripe : Work ε Unit).ConfinedFrom may l
      (fun _ => True) (List.set l stripe Hold.exclusive.held) :=
    Work.confined_unlock hfree .exclusive
  refine Work.confined_lock_bind hfree ?_
  refine (confined_propose key f sure).onFailure_bind hshared fun delta _ => ?_
  split
  · exact hshared.bind fun _ _ => Work.confined_pure trivial
  · -- Upgraded, the decision is carried out; refused, it is made anew under the exclusive stripe.
    refine Work.confined_upgrade_bind hfree ((hcarry delta _).ensuring hexclusive) ?_
    refine hshared.bind fun _ _ => Work.confined_lock_bind hfree ?_
    exact ((confined_propose key f sure).bind fun delta _ => hcarry delta _).ensuring hexclusive

/-! ## Windows of keys -/

/-- Keys are read one after the other without a write. -/
theorem confined_readEach (view : ReadView) (sure : Bool) (keys : List Bytes) :
    (d.readEach view sure keys : Work ε _).Confined may l fun _ => True := by
  induction keys with
  | nil => exact Work.confined_pure trivial
  | cons key rest ih =>
    exact (confined_read view key sure).bind fun _ _ =>
      ih.bind fun _ _ => Work.confined_pure trivial

/-- A window of reads writes nothing and gives back its stripes. -/
theorem confined_getWindow (hidle : l.AreIdle) (token : Option Token) (keys : List Bytes)
    (sure : Bool) : (d.getWindow token keys sure : Work ε _).Confined may l fun _ => True :=
  (Work.confined_view token).bind fun view _ =>
    confined_sharing hidle view keys fun _ => confined_readEach view sure keys

/-- The values before a window of writes are read. -/
theorem confined_previousValues (written entries : List Entry) :
    (d.previousValues written entries : Work ε _).Confined may l fun _ => True := by
  induction entries generalizing written with
  | nil => exact Work.confined_pure trivial
  | cons e rest ih =>
    obtain ⟨key, value⟩ := e
    have hrest := ih ((key, value) :: written)
    unfold previousValues
    cases written.lookup key with
    | some shadow => exact hrest.bind fun _ _ => Work.confined_pure trivial
    | none =>
      exact (confined_read .latest key false).bind fun _ _ =>
        hrest.bind fun _ _ => Work.confined_pure trivial

/-- A new batch has nothing queued. -/
theorem within_batch (may : Permit) (d : Dictionary) : d.batch.Within may d.column :=
  ⟨rfl, by simp [batch, CappedBatch.new]⟩

/-- A batch takes permitted operations one after the other. -/
theorem confined_pushAll (context : String) {b : CappedBatch} (hb : b.Within may n)
    {ops : List WriteOp} (hops : ∀ op ∈ ops, may n op) :
    (pushAll context b ops : Work ε _).Confined may l (CappedBatch.Within may n) := by
  induction ops generalizing b with
  | nil => exact Work.confined_pure hb
  | cons op rest ih =>
    refine (hb.push (hops op List.mem_cons_self)).bind fun r hr => ?_
    refine (Work.confined_orFail "write" context r.1).bind fun _ _ => ?_
    exact ih hr fun op hop => hops op (List.mem_cons_of_mem _ hop)

/-- A window of writes writes its entries alone. -/
theorem confined_putWindow (hidle : l.AreIdle) {entries : List Entry}
    (h : ∀ e ∈ entries, may d.column (.put e.1 e.2)) (wantsPrevious : Bool) :
    (d.putWindow entries wantsPrevious : Work ε _).Confined may l fun _ => True := by
  have hops : ∀ op ∈ entries.map fun e => WriteOp.put e.1 e.2, may d.column op := by
    intro op hop
    obtain ⟨e, he, rfl⟩ := List.mem_map.mp hop
    exact h e he
  -- What is read before the write is not written, so both kinds of window end with the same writes.
  have hwrite : ∀ (previous : List (Option Bytes)) (l : Stripes), (do
      let context := Bytes.label ((entries.head?.map (·.1)).getD [])
      let b ← pushAll context d.batch (entries.map fun e => .put e.1 e.2)
      discard <| Work.orFail "write" context (← b.complete)
      return previous : Work ε _).Confined may l fun _ => True := by
    refine fun previous l => (confined_pushAll _ (d.within_batch may) hops).bind fun b hb => ?_
    refine hb.complete.bind fun r _ => ?_
    refine Work.ConfinedFrom.bind (P := fun _ => True) ?_ fun _ _ => Work.confined_pure trivial
    exact (Work.confined_orFail "write" _ r).bind fun _ _ => Work.confined_pure trivial
  refine confined_owning hidle _ fun l => ?_
  cases wantsPrevious with
  | true => exact (confined_previousValues [] entries).bind fun previous _ => hwrite previous l
  | false => exact hwrite (entries.map fun _ => none) l

/-! ## Walks -/

section Walks

variable {visitor : σ → Entry → Work ε (Bool × σ)} {I : σ → Prop} {s : σ}
  (hvisitor : ∀ l s entry, I s → range.contains entry.1 = true →
    (visitor s entry).Confined may l fun r => I r.2)

include hvisitor

/-- A walk writes what its visitor writes, who is shown entries of the range. -/
theorem confined_walk (context : String) (fuel : Nat) {cursor : Cursor}
    (hcursor : cursor.StaysIn range) (hs : I s) :
    (walk context visitor fuel cursor s).Confined may l I := by
  -- The cursor stays in its range, so the visitor gets an entry of the range each time.
  induction fuel generalizing cursor s with
  | zero => exact Work.confined_pure hs
  | succ fuel ih =>
    refine (Work.confined_reading (c := .next cursor) rfl ..).bind fun r hr => ?_
    obtain ⟨hin, hstays⟩ := hr range hcursor
    obtain ⟨entry, cursor'⟩ := r
    cases entry with
    | none => exact Work.confined_pure hs
    | some entry =>
      refine (hvisitor l s entry hs (hin entry rfl)).bind fun r hr => ?_
      obtain ⟨goesOn, s'⟩ := r
      cases goesOn with
      | true => exact ih hstays hr
      | false => exact Work.confined_pure hr

/-- A visit of a range writes what its visitor writes, who sees entries of the range only. -/
theorem confined_visit (hidle : l.AreIdle) (hs : I s) :
    (d.visit view range visitor s).Confined may l I := by
  unfold visit
  split
  · rename_i key hkey
    refine confined_sharing hidle view [key] fun l => (confined_read view key false).bind
      fun value _ => ?_
    cases value with
    | none => exact Work.confined_pure hs
    | some value =>
      have hin : range.contains key = true := by simp [KeyRange.contains, hkey]
      exact (hvisitor l s (key, value) hs hin).bind fun _ hr => Work.confined_pure hr
  · refine (Work.confined_reading (c := .scan d.column view range) rfl ..).bind
      fun cursor hcursor => ?_
    exact (confined_walk hvisitor _ _ hcursor hs).ensuring (Work.confined_unpin _)

end Walks

/-- The first entry of a range lies in it, and looking for it writes nothing. -/
theorem confined_firstEntry (hidle : l.AreIdle) (view : ReadView) (range : KeyRange) :
    (d.firstEntry view range : Work ε _).Confined may l
      fun r => ∀ e, r = some e → range.contains e.1 = true := by
  refine confined_visit (fun _ _ entry _ hin => Work.confined_pure fun e he => ?_) hidle (by simp)
  exact Option.some.inj he ▸ hin

/-- To answer it writes nothing either. -/
theorem confined_getFirst (hidle : l.AreIdle) (token : Option Token) (range : KeyRange) :
    (d.getFirst token range : Work ε _).Confined may l fun _ => True :=
  (Work.confined_view token).bind fun view _ =>
    (confined_firstEntry hidle view range).weaken fun _ _ => trivial

/-- Counting writes nothing. -/
theorem confined_count (hidle : l.AreIdle) (view : ReadView) (range : KeyRange) (cap : Option Nat) :
    (d.count view range cap : Work ε _).Confined may l fun _ => True :=
  confined_visit (fun _ _ _ _ _ => Work.confined_pure trivial) hidle trivial

/-! ## Deletions -/

/-- A key of the range is queued for deletion, which is permitted. -/
theorem confined_queueDelete {s : Deletions} (hs : s.1.Within may n) (h : may n (.delete key)) :
    (queueDelete s key : Work ε _).Confined may l fun r => r.2.1.Within may n :=
  (hs.push h).bind fun _ hr => Work.confined_pure hr

/-- The queued deletions are written in the end. -/
theorem confined_completeDeletes (context : String) {s : Deletions} (hs : s.1.Within may n) :
    (completeDeletes context s : Work ε _).Confined may l fun _ => True := by
  refine (Work.confined_orFail "delete" context s.2).bind fun _ _ => ?_
  refine hs.complete.bind fun r _ => ?_
  exact (Work.confined_orFail "delete" context r).bind fun _ _ => Work.confined_pure trivial

/-- The keys of a range may be deleted. -/
def MayDelete (may : Permit) (d : Dictionary) (range : KeyRange) : Prop :=
  may d.column (.deleteRange range) ∧
    ∀ key, range.contains key = true → may d.column (.delete key)

/-- A deletion of a range writes in the range alone, be it one operation or one for each key. -/
theorem confined_deleteRange (hidle : l.AreIdle) (h : d.MayDelete may range) :
    (d.deleteRange range : Work ε _).Confined may l fun _ => True := by
  unfold deleteRange
  split
  · rename_i key hkey
    have hin : range.contains key = true := by simp [KeyRange.contains, hkey]
    exact confined_owning hidle [key] fun _ => confined_drop (h.2 key hin)
  · cases d.deletesRanges with
    | true =>
      exact ((d.within_batch may).push h.1).bind fun r hr =>
        confined_completeDeletes (s := (r.2, r.1)) range.display hr
    | false =>
      exact (confined_visit (I := fun s : Deletions => s.1.Within may d.column)
        (fun _ s entry hs hin => confined_queueDelete hs (h.2 entry.1 hin)) hidle
        (d.within_batch may)).bind fun _ hs => confined_completeDeletes range.display hs

/-- A removal with its entries handed out deletes those entries alone. -/
theorem confined_drain (hidle : l.AreIdle) (h : d.MayDelete may range) :
    (d.drain range).Confined may l fun _ => True := by
  refine (confined_visit (I := fun s : Deletions => s.1.Within may d.column)
    (fun l s entry hs hin => ?_) hidle (d.within_batch may)).bind fun _ hs =>
      confined_completeDeletes range.display hs
  refine (Work.confined_emit entry).bind fun heard _ => ?_
  cases heard with
  | true => exact confined_queueDelete hs (h.2 entry.1 hin)
  | false => exact Work.confined_pure hs

/-- The removal of the first entry deletes a key of the range, however often it has to look
again. -/
theorem confined_removeFirst (hidle : l.AreIdle) (h : d.MayDelete may range) (attempts : Nat) :
    (d.removeFirst range attempts : Work ε _).Confined may l fun _ => True := by
  induction attempts with
  | zero => exact Work.confined_fail _
  | succ attempts ih =>
    refine (confined_firstEntry hidle .latest range).bind fun entry hentry => ?_
    cases entry with
    | none => exact Work.confined_pure trivial
    | some entry =>
      refine Work.ConfinedFrom.bind (P := fun _ => True)
        (confined_owning hidle [entry.1] fun l => ?_) fun taken _ => ?_
      · refine (confined_read .latest entry.1 true).bind fun value _ => ?_
        -- The key may be gone by the time that its stripe is held, and then nothing is deleted.
        cases value with
        | none => exact Work.confined_pure trivial
        | some value =>
          exact (confined_drop (h.2 entry.1 (hentry entry rfl))).bind fun _ _ =>
            Work.confined_pure trivial
      · split
        · exact Work.confined_pure trivial
        · exact ih

/-- To clear is to delete every key, and to compact writes nothing. -/
theorem confined_clear (hidle : l.AreIdle) (h : d.MayDelete may .all) :
    (d.clear : Work ε _).Confined may l fun _ => True := by
  refine (confined_deleteRange hidle h).bind fun _ _ => ?_
  refine (Work.confined_reading (c := .compact d.column) rfl ..).bind fun _ _ => ?_
  exact (Work.confined_reading (c := .flush) rfl ..).weaken fun _ _ => trivial

/-! ## Producers -/

/-- A stream of entries writes nothing. -/
theorem confined_streamEntries (hidle : l.AreIdle) (part : Entry → γ) (token : Option Token)
    (range : KeyRange) :
    (d.streamEntries part token range).Confined may l fun _ => True :=
  (Work.confined_view token).bind fun _ _ => confined_visit
    (fun _ _ _ _ _ => (Work.confined_emit _).bind fun _ _ => Work.confined_pure trivial) hidle
    trivial

/-- To collect entries into groups is no write. -/
theorem confined_collect (part : Entry → γ) (stemLen : Nat) (g : Group γ) (entry : Entry) :
    (collect part stemLen g entry).Confined may l fun _ => True := by
  unfold collect
  dsimp only
  split
  · exact Work.confined_pure trivial
  · exact (Work.confined_emit _).bind fun _ _ => Work.confined_pure trivial

/-- A stream of groups writes nothing. -/
theorem confined_streamGroups (hidle : l.AreIdle) (part : Entry → γ) (stemLen : Nat)
    (token : Option Token) (range : KeyRange) :
    (d.streamGroups part stemLen token range).Confined may l fun _ => True := by
  refine (Work.confined_view token).bind fun _ _ => ?_
  refine (confined_visit (I := fun _ => True)
    (fun _ g entry _ _ => confined_collect part stemLen g entry) hidle trivial).bind fun g _ => ?_
  split
  · exact (Work.confined_emit _).bind fun _ _ => Work.confined_pure trivial
  · exact Work.confined_pure trivial

/-- A stream of prefixes writes nothing. -/
theorem confined_streamStems (hidle : l.AreIdle) (stemLen : Nat) (token : Option Token)
    (range : KeyRange) :
    (d.streamStems stemLen token range).Confined may l fun _ => True := by
  refine (Work.confined_view token).bind fun _ _ => ?_
  refine (confined_visit (I := fun _ => True) (fun _ last entry _ _ => ?_) hidle trivial).bind
    fun _ _ => Work.confined_pure trivial
  dsimp only
  split
  · exact Work.confined_pure trivial
  · exact (Work.confined_emit _).bind fun _ _ => Work.confined_pure trivial

end Dictionary

end SnapshotStore
