import SnapshotStore.Proofs.Work.Failing

/-!
# What the operations on one key do

The contents of a dictionary are those of its column.  A read answers the value of the contents that
its view refers to; a put and a removal commit one batch of one operation and answer about the value
that the key held just before; an update commits one such batch if its two sides differ and nothing
otherwise.

All of this holds of a dictionary at rest, that is one whose stripes nobody holds.
-/

namespace SnapshotStore

/-- The result type needs the previous value whenever its answer depends on it. -/
theorem ResultType.project_needed (t : ResultType) (previous : Option Bytes) :
    t.project (if t.needsPrevious then previous else none) = t.project previous := by
  cases t <;> rfl

/-- Nothing has to be done exactly when both sides of a change are equal. -/
theorem UpdateAction.ofDelta_eq_noOp_iff (previous current : Option Bytes) :
    ofDelta ⟨previous, current⟩ = .noOp ↔ previous = current := by
  cases previous with
  | none => cases current <;> simp [ofDelta]
  | some old =>
    cases current with
    | none => simp [ofDelta]
    | some new =>
      by_cases h : old = new
      · simp [ofDelta, h]
      · simp [ofDelta, h]

/-- Otherwise the new side is written, or the old one deleted. -/
theorem UpdateAction.ofDelta_of_ne {previous current : Option Bytes} (h : previous ≠ current) :
    ofDelta ⟨previous, current⟩ = (current.elim .delete .write : UpdateAction) := by
  cases current with
  | none =>
    cases previous with
    | none => exact absurd rfl h
    | some old => rfl
  | some new =>
    cases previous with
    | none => rfl
    | some old => exact if_neg fun heq => h (congrArg some heq)

namespace Dictionary

variable {ε : Type} {d : Dictionary} {w : World}

/-- The column of a dictionary exists, and nobody holds one of its stripes. -/
structure AtRest (d : Dictionary) (w : World) : Prop where
  /-- The column exists. -/
  column : w.HasColumn d.column
  /-- The stripes are idle. -/
  stripes_eq : w.stripes = (d.striping.map Stripes.idle).getD []

namespace AtRest

/-- At rest, all stripes are free. -/
theorem areIdle (h : d.AtRest w) : w.stripes.AreIdle := by
  rw [h.stripes_eq]
  cases d.striping with
  | none => exact Stripes.areIdle_nil
  | some s => exact Stripes.areIdle_idle s

/-- A dictionary is at rest again after a write. -/
theorem writes {w' : World} {n : Nat} {m : Contents} (h : d.AtRest w) (hw : w.Writes n m w') :
    d.AtRest w' := ⟨hw.hasColumn h.column, hw.stripes.trans h.stripes_eq⟩

end AtRest

/-- A read takes each stripe once. -/
theorem nodup_readStripes (d : Dictionary) (view : ReadView) (keys : List Bytes) :
    (d.readStripes view keys).Nodup := by
  unfold readStripes
  split
  · exact Striping.nodup_indices _ _
  · exact List.nodup_nil

/-- So does a write. -/
theorem nodup_writeStripes (d : Dictionary) (keys : List Bytes) :
    (d.writeStripes keys).Nodup := by
  unfold writeStripes
  split
  · exact Striping.nodup_indices _ _
  · exact List.nodup_nil

/-! ## Reads -/

/-- A point read answers the value of the contents that its view refers to. -/
theorem takes_read (hn : w.HasColumn d.column) {view : ReadView} (hview : w.CanRead view)
    (key : Bytes) (sure : Bool) :
    (d.read view key sure : Work ε _).Takes w (.done (w.seen d.column view key)) w := by
  intro b hb
  have hread := d.endsIn_read (ε := ε) hb.engine_eq hb.covers (hb.canRead hview) key sure
  rw [hb.get_eq hn hview] at hread
  exact ⟨b, hread, hb⟩

/-- A point read that is struck fails, and any other answers the value. -/
theorem endures_read (hn : w.HasColumn d.column) {view : ReadView} (hview : w.CanRead view)
    (key : Bytes) (k : Nat) :
    (d.read view key false : Work ε _).Endures k w
      (Work.AllOrNothing (w.seen d.column view key) w w) := by
  refine Work.endures_call_bind (fun failure => .nothing _) fun b hb => ?_
  obtain ⟨c, hc⟩ := hb.column_eq hn
  have hmay : b.engine.engine.mayContain d.column key
      = .ok (c.filter.mayContain b.engine.engine.options.scheme key) := by
    rw [Engine.mayContain, Engine.column_of_open hb.isClosed_eq hc]
    rfl
  refine ⟨_, _, w, by rw [Engine.answer, hmay]; rfl, hb.mend, ?_⟩
  cases hpossible : c.filter.mayContain b.engine.engine.options.scheme key with
  | false =>
    -- Nothing more is asked, and what would be answered is nothing.
    rw [hpossible] at hmay
    have hnone := hb.covers.get_eq_none hmay (hb.canRead hview)
    rw [hb.get_eq hn hview, Except.ok.injEq] at hnone
    rw [hnone]
    exact Work.endures_finish .all
  | true =>
    refine Work.endures_call (fun failure => .nothing _) fun b hb => ⟨_, _, w, ?_, hb.mend, .all⟩
    rw [Engine.answer, hb.get_eq hn hview]
    rfl

/-- A point read answers what is seen of the key. -/
theorem takes_get (h : d.AtRest w) {token : Option Token} {view : ReadView}
    (htoken : w.snapshots.resolve token = .ok view) (hview : w.CanRead view) (key : Bytes)
    (sure : Bool) :
    (d.get token key sure : Work ε _).Takes w (.done (w.seen d.column view key)) w :=
  (Work.takes_view htoken).bind
    (Work.Takes.holding_uniform h.areIdle (d.nodup_readStripes view [key]) rfl
      fun l => takes_read (w := { w with stripes := l }) h.column hview key sure)

/-- A token that is not known fails the read. -/
theorem takes_get_failed {token : Option Token} {e : StoreError}
    (htoken : w.snapshots.resolve token = .error e) (key : Bytes) (sure : Bool) :
    (d.get token key sure : Work ε _).Takes w (.failed e) w :=
  (Work.takes_view_failed htoken).bind_failed

/-- A key is there if it has a value. -/
theorem takes_containsKey (h : d.AtRest w) {token : Option Token} {view : ReadView}
    (htoken : w.snapshots.resolve token = .ok view) (hview : w.CanRead view) (key : Bytes) :
    (d.containsKey token key : Work ε _).Takes w (.done (w.seen d.column view key).isSome) w :=
  (takes_get h htoken hview key false).bind (Work.takes_pure _ _)

/-- A token that is not known fails the question for a key. -/
theorem takes_containsKey_failed {token : Option Token} {e : StoreError}
    (htoken : w.snapshots.resolve token = .error e) (key : Bytes) :
    (d.containsKey token key : Work ε _).Takes w (.failed e) w :=
  (takes_get_failed htoken key false).bind_failed

/-! ## Writes -/

/-- The value before a write is read if it is asked for. -/
theorem takes_previousFor (hn : w.HasColumn d.column) (result : ResultType) (key : Bytes) :
    (d.previousFor result key : Work ε _).Takes w
      (.done (if result.needsPrevious then w.now d.column key else none)) w := by
  unfold previousFor
  split
  · exact takes_read hn (show w.CanRead .latest from trivial) key false
  · exact Work.takes_pure none w

/-- A put answers about the value before, and commits the new one. -/
theorem takes_put (h : d.AtRest w) (key value : Bytes) (result : ResultType) :
    (d.put key value result : Work ε _).Takes w (.done (result.project (w.now d.column key)))
      (w.commit d.column [.put key value]) := by
  rw [← result.project_needed]
  refine Work.Takes.holding_uniform h.areIdle (d.nodup_writeStripes [key]) rfl fun l => ?_
  refine (takes_previousFor (w := { w with stripes := l }) h.column result key).bind ?_
  exact (Work.takes_put (w := { w with stripes := l }) h.column key value _ _).bind
    (Work.takes_pure _ _)

/-- A removal answers about the value before, and commits the deletion. -/
theorem takes_remove (h : d.AtRest w) (key : Bytes) (result : ResultType) :
    (d.remove key result : Work ε _).Takes w (.done (result.project (w.now d.column key)))
      (w.commit d.column [.delete key]) := by
  rw [← result.project_needed]
  refine Work.Takes.holding_uniform h.areIdle (d.nodup_writeStripes [key]) rfl fun l => ?_
  refine (takes_previousFor (w := { w with stripes := l }) h.column result key).bind ?_
  exact (Work.takes_delete (w := { w with stripes := l }) h.column key _ _).bind
    (Work.takes_pure _ _)

/-! ## Updates -/

/-- The operation that gives a key a new value, or none. -/
def assign (key : Bytes) : Option Bytes → WriteOp
  | some value => .put key value
  | none => .delete key

/-- The world after an update of a key: nothing is committed if the value stays as it is. -/
def updated (w : World) (n : Nat) (key : Bytes) (current : Option Bytes) : World :=
  if w.now n key = current then w else w.commit n [assign key current]

/-- The updater is shown what is stored. -/
theorem takes_propose (hn : w.HasColumn d.column) (key : Bytes) {f : Updater}
    {current : Option Bytes} (hf : f (w.now d.column key) = some current) (sure : Bool) :
    (d.propose key f sure : Work ε _).Takes w (.done ⟨w.now d.column key, current⟩) w := by
  have hconsult := Work.takes_consult (ε := ε) (w := w) f (w.now d.column key)
  rw [hf] at hconsult
  exact (takes_read hn (show w.CanRead .latest from trivial) key sure).bind
    (hconsult.bind (Work.takes_pure _ _))

/-- An updater that breaks down breaks the work down. -/
theorem takes_propose_panicked (hn : w.HasColumn d.column) (key : Bytes) {f : Updater}
    (hf : f (w.now d.column key) = none) (sure : Bool) :
    (d.propose key f sure : Work ε _).Takes w .panicked w := by
  have hconsult := Work.takes_consult (ε := ε) (w := w) f (w.now d.column key)
  rw [hf] at hconsult
  exact (takes_read hn (show w.CanRead .latest from trivial) key sure).bind
    (hconsult.bind (Work.takes_finish _ _))

/-- The action of an update commits its new side. -/
theorem takes_carryOut (hn : w.HasColumn d.column) (key : Bytes) {current : Option Bytes}
    (hne : w.now d.column key ≠ current) :
    (d.carryOut key (.ofDelta ⟨w.now d.column key, current⟩) : Work ε _).Takes w (.done ())
      (w.commit d.column [assign key current]) := by
  rw [UpdateAction.ofDelta_of_ne hne]
  cases current with
  | none => exact Work.takes_delete hn key _ _
  | some new => exact Work.takes_put hn key new _ _

/-- An update answers both sides of the change, and commits the new one if they differ. -/
theorem takes_updateAt (hn : w.HasColumn d.column) (hidle : w.stripes.AreIdle) {i : Nat}
    (hi : i < w.stripes.length) (key : Bytes) {f : Updater} {current : Option Bytes}
    (hf : f (w.now d.column key) = some current) (sure : Bool) :
    (d.updateAt i key f sure : Work ε _).Takes w (.done ⟨w.now d.column key, current⟩)
      (updated w d.column key current) := by
  have hpropose : ∀ l, (d.propose key f sure : Work ε _).Takes { w with stripes := l }
      (.done ⟨w.now d.column key, current⟩) { w with stripes := l } :=
    fun l => takes_propose (w := { w with stripes := l }) hn key hf sure
  -- Nobody else reads the stripe, so the upgrade never fails and the updater runs once.
  refine (Work.takes_lock (hidle i) .shared).bind ((hpropose _).onFailure.bind ?_)
  unfold updated
  by_cases hsame : w.now d.column key = current
  · rw [if_pos hsame, if_pos ((UpdateAction.ofDelta_eq_noOp_iff _ _).mpr hsame)]
    exact (Work.takes_unlock_taken (hidle i) .shared).bind (Work.takes_pure _ _)
  · rw [if_neg hsame, if_neg fun h => hsame ((UpdateAction.ofDelta_eq_noOp_iff _ _).mp h)]
    refine (Work.takes_upgrade hi).bind ?_
    rw [if_pos rfl]
    have hcarry : ∀ l, (d.carryOut key (.ofDelta ⟨w.now d.column key, current⟩) :
        Work ε _).Takes { w with stripes := l } (.done ())
        { w.commit d.column [assign key current] with stripes := l } :=
      fun l => takes_carryOut (w := { w with stripes := l }) hn key hsame
    unfold conclude
    exact Work.Takes.ensuring ((hcarry _).bind (Work.takes_pure _ _))
      (Work.takes_unlock_taken (w := w.commit d.column [assign key current]) (hidle i) .exclusive)

/-- An update whose updater breaks down changes nothing. -/
theorem takes_updateAt_panicked (hn : w.HasColumn d.column) (hidle : w.stripes.AreIdle) (i : Nat)
    (key : Bytes) {f : Updater} (hf : f (w.now d.column key) = none) (sure : Bool) :
    (d.updateAt i key f sure : Work ε _).Takes w .panicked w := by
  have hpropose := takes_propose_panicked (ε := ε)
    (w := { w with stripes := List.set w.stripes i Hold.shared.held }) hn key hf sure
  exact (Work.takes_lock (hidle i) .shared).bind
    (hpropose.onFailure_panicked (Work.takes_unlock_taken (hidle i) .shared)).bind_panicked

end Dictionary

end SnapshotStore
