import SnapshotStore.Dictionary.Streams
import SnapshotStore.Proofs.Pins.Settling

/-!
# The operations of a dictionary settle their pins

Only walks along a cursor pin anything, and the cursor is dropped however the walk ends; everything
else calls the engine without pinning.  Reads of old state are either made behind the lookup of
their snapshot, or their view is given (`Dictionary.settles_visit`).
-/

namespace SnapshotStore

variable {bad : EngineError → Prop} {held seen : List Nat} {ε γ α σ : Type}

/-! ## Batches -/

namespace CappedBatch

/-- The result of a write that is not a bad failure. -/
def Written (bad : EngineError → Prop) (r : Except EngineError α) : Prop :=
  ∀ failure, r = .error failure → ¬ bad failure

/-- A success is nothing that may not be passed on. -/
theorem written_ok {a : α} : Written bad (.ok a) := nofun

/-- A flush pins nothing and answers what its write answered. -/
theorem settles_flush (b : CappedBatch) :
    (b.flush : Work ε _).Settles bad held (fun r s => s = seen ∧ Written bad r.1) held seen := by
  unfold flush
  split
  · exact Work.settles_pure ⟨rfl, written_ok⟩
  · exact (Work.settles_attempt (by trivial) fun _ => rfl).bind fun r s hr => Work.settles_pure hr

/-- So does a push, whether or not it writes. -/
theorem settles_push (b : CappedBatch) (op : WriteOp) :
    (b.push op : Work ε _).Settles bad held (fun r s => s = seen ∧ Written bad r.1) held seen := by
  unfold push
  dsimp only
  split
  · exact settles_flush _
  · exact Work.settles_pure ⟨rfl, written_ok⟩

/-- So does the completion of a batch. -/
theorem settles_complete (b : CappedBatch) :
    (b.complete : Work ε _).Settles bad held (fun r s => s = seen ∧ Written bad r) held seen := by
  refine (settles_flush b).bind fun r s hr => Work.settles_pure ⟨hr.1, fun failure hfailure => ?_⟩
  cases hwritten : r.1 with
  | ok u => simp [hwritten, Except.map] at hfailure
  | error failure' =>
    obtain rfl : failure' = failure := by simpa [hwritten, Except.map] using hfailure
    exact hr.2 failure' hwritten

end CappedBatch

namespace Dictionary

variable {d : Dictionary} {view : ReadView} {range : KeyRange} {Q : α → List Nat → Prop}

/-! ## One key at a time -/

/-- A read of a state that was seen pins nothing. -/
theorem settles_read (hview : view.IsAmong seen) (key : Bytes) (sure : Bool) :
    (d.read view key sure : Work ε _).Settles bad held (fun _ s => s = seen) held seen := by
  have hget : (Work.call "read" key.label (.get d.column view key) : Work ε _).Settles bad held
      (fun _ s => s = seen) held seen := Work.settles_call hview (fun _ => rfl) ..
  cases sure with
  | true => exact hget
  | false =>
    refine (Work.settles_call (c := .mayContain d.column key) trivial (fun _ => rfl) "read"
      key.label).bind fun possible s hs => ?_
    subst hs
    cases possible with
    | true => exact hget
    | false => exact Work.settles_pure rfl

/-- To store a value pins nothing. -/
theorem settles_store (key value : Bytes) :
    (d.store key value : Work ε _).Settles bad held (fun _ s => s = seen) held seen :=
  Work.settles_call (by trivial) (fun _ => rfl) ..

/-- To delete a key pins nothing. -/
theorem settles_drop (key : Bytes) :
    (d.drop key : Work ε _).Settles bad held (fun _ s => s = seen) held seen :=
  Work.settles_call (by trivial) (fun _ => rfl) ..

/-- The value before a write is read from the newest state, which needs no pin. -/
theorem settles_previousFor (result : ResultType) (key : Bytes) :
    (d.previousFor result key : Work ε _).Settles bad held (fun _ s => s = seen) held seen := by
  unfold previousFor
  split
  · exact settles_read (.latest _) key false
  · exact Work.settles_pure rfl

/-- A read shares the stripes of its keys, except at a snapshot. -/
theorem settles_reading {w : Work ε α} (hview : view.IsAmong seen) (keys : List Bytes)
    (h : ∀ seen, view.IsAmong seen → w.Settles bad [] Q [] seen) :
    (Work.holding .shared (d.readStripes view keys) w).Settles bad [] Q [] seen := by
  cases view with
  | latest => exact Work.settles_holding fun seen => h seen trivial
  | «at» s => exact h seen hview

/-- A point read looks its snapshot up itself, and holds nothing in the end. -/
theorem settles_get (token : Option Token) (key : Bytes) (sure : Bool) :
    (d.get token key sure : Work ε _).Settles bad [] (fun _ _ => True) [] seen :=
  Work.settles_view fun _ _ hview => settles_reading hview [key] fun _ hview =>
    (settles_read hview key sure).mono fun _ _ _ => trivial

/-- A put holds no pin. -/
theorem settles_put (key value : Bytes) (result : ResultType) :
    (d.put key value result : Work ε _).Settles bad [] (fun _ _ => True) [] seen :=
  Work.settles_holding fun _ => (settles_previousFor result key).bind fun _ _ _ =>
    (settles_store key value).bind fun _ _ _ => Work.settles_pure trivial

/-- A removal holds no pin. -/
theorem settles_remove (key : Bytes) (result : ResultType) :
    (d.remove key result : Work ε _).Settles bad [] (fun _ _ => True) [] seen :=
  Work.settles_holding fun _ => (settles_previousFor result key).bind fun _ _ _ =>
    (settles_drop key).bind fun _ _ _ => Work.settles_pure trivial

/-! ## Updates -/

/-- To ask the updater takes a read of the newest state. -/
theorem settles_propose (key : Bytes) (f : Updater) (sure : Bool) :
    (d.propose key f sure : Work ε _).Settles bad held (fun _ _ => True) held seen := by
  refine (settles_read (.latest _) key sure).bind fun previous _ _ => ?_
  refine Work.Settles.bind (P := fun _ _ => True)
    (Work.settles_effect (q := .consult f previous) trivial (fun _ => rfl) fun _ _ => trivial)
    fun current _ _ => ?_
  cases current with
  | some current => exact Work.settles_pure trivial
  | none => exact Work.settles_panic

/-- A decision of the updater is a write. -/
theorem settles_carryOut (key : Bytes) (action : UpdateAction) :
    (d.carryOut key action : Work ε _).Settles bad held (fun _ _ => True) held seen := by
  cases action with
  | noOp => exact Work.settles_pure trivial
  | write value => exact (settles_store key value).mono fun _ _ _ => trivial
  | delete => exact (settles_drop key).mono fun _ _ _ => trivial

/-- What runs under the exclusive hold of an update. -/
private theorem settles_conclude {stripe : Nat} {w : Work ε (Delta Bytes)}
    (h : w.Settles bad [] (fun _ _ => True) [] seen) :
    (conclude stripe w).Settles bad [] (fun _ _ => True) [] seen :=
  h.ensuring fun _ => Work.settles_unlock .exclusive stripe

/-- An update waits for its stripes without a pin, and ends without one. -/
theorem settles_updateAt (stripe : Nat) (key : Bytes) (f : Updater) (sure : Bool) :
    (d.updateAt stripe key f sure : Work ε _).Settles bad [] (fun _ _ => True) [] seen := by
  refine (Work.settles_lock .shared stripe).bind fun _ _ _ => ?_
  refine ((settles_propose key f sure).onFailure fun _ => Work.settles_unlock ..).bind
    fun delta _ _ => ?_
  split
  · exact (Work.settles_unlock ..).bind fun _ _ _ => Work.settles_pure trivial
  · refine Work.Settles.bind (P := fun _ _ => True)
      (Work.settles_effect (q := .upgrade stripe) trivial (fun _ => rfl) fun _ _ => trivial)
      fun upgraded _ _ => ?_
    -- Where the upgrade is refused, the stripe is given back before the work waits for it again.
    cases upgraded with
    | true =>
      exact settles_conclude ((settles_carryOut key _).bind fun _ _ _ => Work.settles_pure trivial)
    | false =>
      refine (Work.settles_unlock ..).bind fun _ _ _ => ?_
      refine (Work.settles_lock .exclusive stripe).bind fun _ _ _ => ?_
      exact settles_conclude ((settles_propose key f sure).bind fun _ _ _ =>
        (settles_carryOut key _).bind fun _ _ _ => Work.settles_pure trivial)

/-! ## Windows of keys -/

/-- Keys are read one after the other from a state that was seen. -/
theorem settles_readEach (hview : view.IsAmong seen) (sure : Bool) (keys : List Bytes) :
    (d.readEach view sure keys : Work ε _).Settles bad held (fun _ s => s = seen) held seen := by
  induction keys with
  | nil => exact Work.settles_pure rfl
  | cons key rest ih =>
    refine (settles_read hview key sure).bind fun value s hs => ?_
    subst hs
    exact ih.bind fun _ _ hs => Work.settles_pure hs

/-- A window of reads looks its snapshot up itself. -/
theorem settles_getWindow (token : Option Token) (keys : List Bytes) (sure : Bool) :
    (d.getWindow token keys sure : Work ε _).Settles bad [] (fun _ _ => True) [] seen :=
  Work.settles_view fun _ _ hview => settles_reading hview keys fun _ hview =>
    (settles_readEach hview sure keys).mono fun _ _ _ => trivial

/-- The values before a window of writes are read from the newest state. -/
theorem settles_previousValues (written entries : List Entry) :
    (d.previousValues written entries : Work ε _).Settles bad held (fun _ s => s = seen) held
      seen := by
  induction entries generalizing written with
  | nil => exact Work.settles_pure rfl
  | cons e rest ih =>
    obtain ⟨key, value⟩ := e
    have hrest := ih ((key, value) :: written)
    unfold previousValues
    cases written.lookup key with
    | some shadow => exact hrest.bind fun _ _ hs => Work.settles_pure hs
    | none =>
      refine (settles_read (.latest _) key false).bind fun _ s hs => ?_
      subst hs
      exact hrest.bind fun _ _ hs => Work.settles_pure hs

/-- A batch of operations pins nothing. -/
theorem settles_pushAll (context : String) (b : CappedBatch) (ops : List WriteOp) :
    (pushAll context b ops : Work ε _).Settles bad held (fun _ s => s = seen) held seen := by
  induction ops generalizing b with
  | nil => exact Work.settles_pure rfl
  | cons op rest ih =>
    refine (CappedBatch.settles_push b op).bind fun r s hr => ?_
    obtain ⟨rfl, hr⟩ := hr
    refine (Work.settles_orFail hr "write" context).bind fun _ s hs => ?_
    subst hs
    exact ih _

/-- Operations are queued and written. -/
private theorem settles_writeAll (context : String) (b : CappedBatch) (ops : List WriteOp)
    (previous : List (Option Bytes)) :
    (do
      let b ← pushAll context b ops
      discard <| Work.orFail "write" context (← b.complete)
      return previous : Work ε _).Settles bad held (fun _ _ => True) held seen := by
  refine (settles_pushAll context b ops).bind fun b _ _ => ?_
  refine (CappedBatch.settles_complete b).bind fun r _ hr => ?_
  refine Work.Settles.bind (P := fun _ _ => True) ?_ fun _ _ _ => Work.settles_pure trivial
  exact (Work.settles_orFail hr.2 "write" context).bind fun _ _ _ => Work.settles_pure trivial

/-- A window of writes holds no pin. -/
theorem settles_putWindow (entries : List Entry) (wantsPrevious : Bool) :
    (d.putWindow entries wantsPrevious : Work ε _).Settles bad [] (fun _ _ => True) [] seen := by
  refine Work.settles_holding fun seen => ?_
  cases wantsPrevious with
  | true =>
    exact (settles_previousValues [] entries).bind fun previous _ _ => settles_writeAll _ _ _ previous
  | false => exact settles_writeAll _ _ _ (entries.map fun _ => none)

/-! ## Walks -/

section Walks

variable {visitor : σ → Entry → Work ε (Bool × σ)} {I : σ → Prop}

/-- A walk holds what it held. -/
theorem settles_walk (context : String)
    (hvisitor : ∀ s entry held seen, I s →
      (visitor s entry).Settles bad held (fun r _ => I r.2) held seen)
    (fuel : Nat) (cursor : Cursor) {s : σ} (hs : I s) :
    (walk context visitor fuel cursor s).Settles bad held (fun s _ => I s) held seen := by
  induction fuel generalizing cursor s seen with
  | zero => exact Work.settles_pure hs
  | succ fuel ih =>
    -- A cursor needs no view to be read: its pin is held by the scan around the walk.
    refine (Work.settles_call (by trivial) (fun _ => rfl) ..).bind fun r _ _ => ?_
    obtain ⟨entry, cursor⟩ := r
    cases entry with
    | none => exact Work.settles_pure hs
    | some entry =>
      refine (hvisitor s entry held _ hs).bind fun r _ hr => ?_
      obtain ⟨goesOn, s'⟩ := r
      cases goesOn with
      | true => exact ih cursor hr
      | false => exact Work.settles_pure hr

/-- A walk through a range drops its cursor however it ends. -/
theorem settles_visit (hview : view.IsAmong seen)
    (hvisitor : ∀ s entry held seen, I s →
      (visitor s entry).Settles bad held (fun r _ => I r.2) held seen) {s : σ} (hs : I s) :
    (d.visit view range visitor s).Settles bad [] (fun s _ => I s) [] seen := by
  unfold visit
  split
  · rename_i key _
    refine settles_reading hview [key] fun seen hview => ?_
    refine (settles_read hview key false).bind fun value _ _ => ?_
    cases value with
    | none => exact Work.settles_pure hs
    | some value => exact (hvisitor s (key, value) [] _ hs).bind fun _ _ hr => Work.settles_pure hr
  · -- The scan pins its sequence, and the pin is taken away however the walk ends.
    exact Work.settles_scan hview fun cursor =>
      (settles_walk range.display hvisitor cursor.budget cursor hs).ensuring fun _ =>
        Work.settles_unpin

end Walks

/-- The first entry is found by a visit that ends there. -/
theorem settles_firstEntry (hview : view.IsAmong seen) :
    (d.firstEntry view range : Work ε _).Settles bad [] (fun _ _ => True) [] seen :=
  settles_visit hview (fun _ _ _ _ _ => Work.settles_pure trivial) trivial

/-- To answer it, the snapshot is looked up first. -/
theorem settles_getFirst (token : Option Token) :
    (d.getFirst token range : Work ε _).Settles bad [] (fun _ _ => True) [] seen :=
  Work.settles_view fun _ _ hview => settles_firstEntry hview

/-- To count is to visit every entry. -/
theorem settles_count (hview : view.IsAmong seen) (cap : Option Nat) :
    (d.count view range cap : Work ε _).Settles bad [] (fun _ _ => True) [] seen :=
  settles_visit hview (fun _ _ _ _ _ => Work.settles_pure trivial) trivial

/-! ## Deletions -/

/-- A queued deletion pins nothing, while the visit holds its pin. -/
theorem settles_queueDelete (s : Deletions) (key : Bytes) :
    (queueDelete s key : Work ε _).Settles bad held
      (fun r _ => CappedBatch.Written bad r.2.2) held seen :=
  (CappedBatch.settles_push s.1 _).bind fun _ _ hr => Work.settles_pure hr.2

/-- Nor does the end of the deletions. -/
theorem settles_completeDeletes (context : String) {s : Deletions}
    (hs : CappedBatch.Written bad s.2) :
    (completeDeletes context s : Work ε _).Settles bad held (fun _ _ => True) held seen := by
  refine (Work.settles_orFail hs "delete" context).bind fun _ _ _ => ?_
  refine (CappedBatch.settles_complete s.1).bind fun r _ hr => ?_
  exact (Work.settles_orFail hr.2 "delete" context).bind fun _ _ _ => Work.settles_pure trivial

/-- A deletion of a range gives back the pin of its scan, if it scans. -/
theorem settles_deleteRange (range : KeyRange) :
    (d.deleteRange range : Work ε _).Settles bad [] (fun _ _ => True) [] seen := by
  unfold deleteRange
  split
  · exact Work.settles_holding fun _ => (settles_drop _).mono fun _ _ _ => trivial
  · cases d.deletesRanges with
    | true =>
      exact (CappedBatch.settles_push d.batch (.deleteRange range)).bind fun r _ hr =>
        settles_completeDeletes (s := (r.2, r.1)) range.display hr.2
    | false =>
      exact (settles_visit (I := fun s : Deletions => CappedBatch.Written bad s.2)
        (.latest _) (fun s entry _ _ _ => settles_queueDelete s entry.1)
        CappedBatch.written_ok).bind fun _ _ hs => settles_completeDeletes range.display hs

/-- So does a removal that hands out its entries. -/
theorem settles_drain (range : KeyRange) :
    (d.drain range).Settles bad [] (fun _ _ => True) [] seen := by
  refine (settles_visit (I := fun s : Deletions => CappedBatch.Written bad s.2) (.latest _)
    (fun s entry held seen hs => ?_) CappedBatch.written_ok).bind fun _ _ hs =>
      settles_completeDeletes range.display hs
  refine Work.settles_emit.bind fun heard _ _ => ?_
  cases heard with
  | true => exact settles_queueDelete s entry.1
  | false => exact Work.settles_pure hs

/-- Each attempt to remove the first entry gives its pin back before it waits for the stripe of the
key. -/
theorem settles_removeFirst (range : KeyRange) (attempts : Nat) :
    (d.removeFirst range attempts : Work ε _).Settles bad [] (fun _ _ => True) [] seen := by
  induction attempts generalizing seen with
  | zero => exact Work.settles_fail (by simp [StoreError.Spares, StoreError.source?])
  | succ attempts ih =>
    refine (settles_firstEntry (.latest _)).bind fun entry _ _ => ?_
    cases entry with
    | none => exact Work.settles_pure trivial
    | some entry =>
      -- The entry that was found may be gone when the stripe is held, so the key is read again.
      refine Work.Settles.bind (P := fun _ _ => True) (Work.settles_holding fun seen => ?_)
        fun taken _ _ => ?_
      · refine (settles_read (.latest _) entry.1 true).bind fun value _ _ => ?_
        cases value with
        | none => exact Work.settles_pure trivial
        | some value => exact (settles_drop entry.1).bind fun _ _ _ => Work.settles_pure trivial
      · split
        · exact Work.settles_pure trivial
        · exact ih

/-- To clear is to delete a range and to compact. -/
theorem settles_clear : (d.clear : Work ε _).Settles bad [] (fun _ _ => True) [] seen := by
  refine (settles_deleteRange .all).bind fun _ _ _ => ?_
  refine (Work.settles_call (by trivial) (fun _ => rfl) ..).bind fun _ _ _ => ?_
  exact (Work.settles_call (by trivial) (fun _ => rfl) ..).mono fun _ _ _ => trivial

/-! ## Producers -/

/-- A stream of entries holds the pin of its scan until it ends. -/
theorem settles_streamEntries (part : Entry → γ) (token : Option Token) (range : KeyRange) :
    (d.streamEntries part token range).Settles bad [] (fun _ _ => True) [] seen :=
  Work.settles_view fun _ _ hview => settles_visit hview
    (fun _ _ _ _ _ => Work.settles_emit.bind fun _ _ _ => Work.settles_pure trivial) trivial

/-- To collect entries into groups pins nothing. -/
theorem settles_collect (part : Entry → γ) (stemLen : Nat) (g : Group γ) (entry : Entry) :
    (collect part stemLen g entry).Settles bad held (fun _ _ => True) held seen := by
  unfold collect
  dsimp only
  split
  · exact Work.settles_pure trivial
  · exact Work.settles_emit.bind fun _ _ _ => Work.settles_pure trivial

/-- A stream of groups holds the pin of its scan until it ends. -/
theorem settles_streamGroups (part : Entry → γ) (stemLen : Nat) (token : Option Token)
    (range : KeyRange) :
    (d.streamGroups part stemLen token range).Settles bad [] (fun _ _ => True) [] seen := by
  refine Work.settles_view fun _ _ hview => ?_
  refine (settles_visit (I := fun _ => True) hview
    (fun g entry _ _ _ => settles_collect part stemLen g entry) trivial).bind fun g _ _ => ?_
  split
  · exact Work.settles_emit.bind fun _ _ _ => Work.settles_pure trivial
  · exact Work.settles_pure trivial

/-- So does a stream of prefixes. -/
theorem settles_streamStems (stemLen : Nat) (token : Option Token) (range : KeyRange) :
    (d.streamStems stemLen token range).Settles bad [] (fun _ _ => True) [] seen := by
  refine Work.settles_view fun _ _ hview => ?_
  refine (settles_visit (I := fun _ => True) hview (fun last entry _ _ _ => ?_) trivial).bind
    fun _ _ _ => Work.settles_pure trivial
  dsimp only
  split
  · exact Work.settles_pure trivial
  · exact Work.settles_emit.bind fun _ _ _ => Work.settles_pure trivial

end Dictionary

end SnapshotStore
