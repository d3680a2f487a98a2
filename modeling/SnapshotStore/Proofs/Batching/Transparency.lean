import SnapshotStore.Proofs.Batching
import SnapshotStore.Proofs.Engine.Evolution

/-!
# Capped batches are transparent

An engine cannot tell a capped batch from one write of everything that was queued: wherever the caps
and the explicit flushes cut it, the newest state is in the end the one that a single write leaves,
and on the way the one that a single write of the operations flushed so far leaves
(`Engine.HasTaken`).  A range deletion thereby also deletes what was put before it, in the same
batch or in an earlier one.  Pinned states are not changed by any call.
-/

namespace SnapshotStore

namespace Engine

variable {e e' : Engine} {l l' : Ledger}

/-- An engine shows what one write of a batch leaves, and the pinned states as they were. -/
structure HasTaken (e : Engine) (n : Nat) (batch : WriteBatch) (e' : Engine) : Prop where
  /-- The newest state is the one behind the write. -/
  latest : ∃ e₁, e.write n batch = .ok e₁ ∧ ∀ m key, e'.get m .latest key = e₁.get m .latest key
  /-- The pinned states are as they were. -/
  pinned : ∀ q, 0 < e.pinCount q → ∀ m key, e'.get m (.at q) key = e.get m (.at q) key

namespace Agrees

/-- Engines whose ledgers have the same newest states show the same. -/
theorem get_latest_eq (h : e.Agrees l) (h' : e'.Agrees l') (hopen : l'.isOpen = l.isOpen)
    (hnames : l'.names = l.names) (hlatest : ∀ m, l'.history.latest m = l.history.latest m)
    (m : Nat) (key : Bytes) : e'.get m .latest key = e.get m .latest key := by
  rw [h'.get_eq, h.get_eq, hopen, hnames]
  simp only [hlatest]

/-- Further batches do not change what is pinned. -/
theorem get_at_eq (h : e.Agrees l) {more : History}
    (h' : e'.Agrees { l with history := l.history ++ more }) (hpins : e'.pins = e.pins) {q : Nat}
    (hq : 0 < e.pinCount q) (m : Nat) (key : Bytes) :
    e'.get m (.at q) key = e.get m (.at q) key := by
  have hcount : e'.pinCount q = e.pinCount q := congrArg (List.count q) hpins
  have hpast : q ≤ l.history.length :=
    h.represents.sequence_eq ▸ h.represents.pins_le q (List.count_pos_iff.mp hq)
  rw [h'.get_eq, h.get_eq]
  simp only [hcount, if_pos hq, History.contents_append hpast]

/-- An open engine takes every batch for a column that it has. -/
theorem exists_write_eq_ok (h : e.Agrees l) (hopen : l.isOpen = true) {n : Nat}
    (hn : n < l.names.length) (batch : WriteBatch) :
    ∃ e₁, e.write n batch = .ok e₁ ∧ e₁.Agrees (l.commit n batch) := by
  have hclosed : e.isClosed = false := h.isClosed_of_open hopen
  obtain ⟨e₁, hwrite⟩ : ∃ e₁, e.write n batch = .ok e₁ := by
    by_cases hne : batch = []
    · exact ⟨e, hne ▸ write_nil_of_open hclosed⟩
    · exact ⟨_, write_of_open hclosed (List.getElem?_eq_getElem (h.length_names ▸ hn)) hne⟩
  have hagrees := h.write n batch
  rw [hwrite] at hagrees
  exact ⟨e₁, hwrite, hagrees⟩

end Agrees

end Engine

/-- A commit adds to the history, if anything. -/
theorem Ledger.exists_commit_eq (l : Ledger) (n : Nat) (batch : WriteBatch) :
    ∃ more, l.commit n batch = { l with history := l.history ++ more } := by
  unfold commit
  split
  · exact ⟨_, rfl⟩
  · exact ⟨[], by rw [List.append_nil]⟩

/-- A batch is committed to a column as a whole; one without operations makes no difference. -/
theorem Ledger.latest_commit {l : Ledger} {n : Nat} (hopen : l.isOpen = true)
    (hn : n < l.names.length) (batch : WriteBatch) (m : Nat) :
    (l.commit n batch).history.latest m
      = if n = m then (l.history.latest m).applyAll batch else l.history.latest m := by
  unfold commit
  split
  · exact History.latest_concat ..
  · rename_i hnot
    have hnil : batch = [] := by
      by_contra hne
      exact hnot ⟨hopen, hn, hne⟩
    rw [hnil, Contents.applyAll_nil, ite_self]

/-- Batches that were committed one after the other are taken as one. -/
theorem Engine.Agrees.hasTaken {e e' : Engine} {l : Ledger} (h : e.Agrees l)
    (hopen : l.isOpen = true) {n : Nat} (hn : n < l.names.length) {batches : List WriteBatch}
    (h' : e'.Agrees { l with history := l.history ++ batches.map fun batch => (n, batch) })
    (hpins : e'.pins = e.pins) : e.HasTaken n batches.flatten e' := by
  refine ⟨?_, fun q hq m key => h.get_at_eq h' hpins hq m key⟩
  obtain ⟨e₁, hwrite, h₁⟩ := h.exists_write_eq_ok hopen hn batches.flatten
  obtain ⟨more, hcommit⟩ := l.exists_commit_eq n batches.flatten
  refine ⟨e₁, hwrite, h₁.get_latest_eq h' (congrArg Ledger.isOpen hcommit).symm
    (congrArg Ledger.names hcommit).symm fun m => ?_⟩
  rw [Ledger.latest_commit hopen hn]
  by_cases hm : n = m
  · rw [if_pos hm, ← hm]
    exact l.history.latest_append_batches n batches
  · rw [if_neg hm]
    exact l.history.latest_append_of_ne (by simpa using fun _ _ => hm)

/-- An engine alone, without failures, snapshots and stripes. -/
def Backend.ofEngine (e : Engine) : Backend := ⟨.reliable e, .empty, []⟩

/-- What work sees of the engine of a session. -/
def Session.world (s : Session) : World := ⟨s.ledger, s.engine.pins, .empty, []⟩

/-- What clients left of an engine is in its world, unless they closed it. -/
theorem Session.isIn_run {options : Engine.Options} {acts : List Act}
    (hopen : (run options acts).ledger.isOpen = true) :
    (Backend.ofEngine (run options acts).engine).IsIn (run options acts).world :=
  ⟨rfl, agrees_run options acts, covers_run options acts,
    (evolves_run options acts).counts (Engine.counts_new options), hopen, rfl, rfl, rfl⟩

/-- Work that only writes leaves an engine alone. -/
theorem Backend.IsIn.eq_ofEngine {b : Backend} {s : Session} {n : Nat} {batches : List WriteBatch}
    (h : b.IsIn (s.world.commits n batches)) : b = .ofEngine b.engine.engine := by
  obtain ⟨engine, snapshots, stripes⟩ := b
  obtain rfl : snapshots = .empty := h.snapshots_eq
  obtain rfl : stripes = [] := h.stripes_eq
  exact congrArg (Backend.mk · .empty []) h.engine_eq

/-- Batches that were committed behind a session are taken as one. -/
theorem Backend.IsIn.hasTaken {b : Backend} {options : Engine.Options} {acts : List Session.Act}
    {n : Nat} {batches : List WriteBatch}
    (h : b.IsIn ((Session.run options acts).world.commits n batches))
    (hn : (Session.run options acts).world.HasColumn n) :
    (Session.run options acts).engine.HasTaken n batches.flatten b.engine.engine :=
  (Session.agrees_run options acts).hasTaken h.isOpen hn h.agrees h.pins_eq

namespace CappedBatch

variable {ε : Type}

/-- A call commits at most one batch, whatever the engine answers, and takes no pin away. -/
theorem exists_endsIn_call (b : CappedBatch) (c : Call) {e : Engine} {l : Ledger}
    (h : e.Agrees l) :
    ∃ r e' more, (b.call c : Work ε _).EndsIn (.ofEngine e) (.done (r, b.next c)) (.ofEngine e') ∧
      e'.Agrees { l with history := l.history ++ more } ∧ e'.pins = e.pins := by
  cases hdue : (b.queue c).isDue c with
  | true =>
    rw [call_of_isDue hdue]
    obtain ⟨more, hcommit⟩ := l.exists_commit_eq b.column (b.queue c).pending
    have hagrees : (e.answer (.write b.column (b.queue c).pending)).2.Agrees
      (l.commit b.column (b.queue c).pending) := h.write ..
    rw [hcommit] at hagrees
    exact ⟨_, _, more, (Work.endsIn_attempt rfl _).bind (Work.endsIn_pure _ _), hagrees,
      (e.changes_answer (.write b.column (b.queue c).pending)).pins_eq⟩
  | false =>
    rw [call_of_not_isDue hdue]
    exact ⟨_, e, [], Work.endsIn_pure _ _, by rwa [List.append_nil], rfl⟩

/-- **Capped batches are transparent.**  In every state that an open engine can reach, all calls of
a capped batch succeed, whatever its caps are, and leave it below both.  The operations flushed so
far are the first ones that were queued, and the engine has taken them as if in one write;
completing the batch answers the number of all queued operations, and the engine has then taken all
of them.  No call, and no completion, changes a state that is pinned at the time. -/
theorem transparent (options : Engine.Options) (acts : List Session.Act) {n : Nat}
    (hopen : (Session.run options acts).engine.isClosed = false)
    (hn : n < (Session.run options acts).engine.columns.length) (maxOps maxBytes : Nat) :
    let e := (Session.run options acts).engine
    (∀ cs, ∃ (b : CappedBatch) (flushed : WriteBatch) (e' e'' : Engine),
      ((new n maxOps maxBytes).calls cs : Work Empty _).run (.ofEngine e)
        = (.ok (cs.map fun _ => .ok (), b), .ofEngine e') ∧
      flushed ++ b.pending = queued cs ∧
      b.pending.length < max maxOps 1 ∧ WriteBatch.byteSize b.pending < max maxBytes 1 ∧
      e.HasTaken n flushed e' ∧
      (b.complete : Work Empty _).run (.ofEngine e')
        = (.ok (.ok (queued cs).length), .ofEngine e'') ∧
      e.HasTaken n (queued cs) e'') ∧
    ∀ (b : CappedBatch) (q : Nat), 0 < e.pinCount q → ∀ m key,
      (∀ c, ((b.call c : Work Empty _).run (.ofEngine e)).2.engine.engine.get m (.at q) key
        = e.get m (.at q) key) ∧
      ((b.complete : Work Empty _).run (.ofEngine e)).2.engine.engine.get m (.at q) key
        = e.get m (.at q) key := by
  intro e
  have hagrees : e.Agrees (Session.run options acts).ledger := Session.agrees_run options acts
  have hopen' : (Session.run options acts).ledger.isOpen = true := by
    have hclosed := hagrees.isClosed_eq
    rw [show e.isClosed = false from hopen] at hclosed
    simpa using hclosed.symm
  refine ⟨fun cs => ?_, fun b q hq m key => ⟨fun c => ?_, ?_⟩⟩
  · have hcolumn : (Session.run options acts).world.HasColumn n :=
      Nat.lt_of_lt_of_eq hn hagrees.length_names.symm
    obtain ⟨b₁, hcalls, hin₁⟩ := takes_calls (ε := Empty) (b := new n maxOps maxBytes) hcolumn cs _
      (Session.isIn_run hopen')
    obtain ⟨b₂, hcomplete, hin₂⟩ := takes_complete (ε := Empty)
      (b := (new n maxOps maxBytes).after cs) (by rwa [column_after]) b₁ hin₁
    rw [column_after, ← World.commits_append] at hin₂
    have hsetup := (new n maxOps maxBytes).setup_after cs
    have hbelow := ((isBelow_new n maxOps maxBytes).after cs).lt
    rw [show ((new n maxOps maxBytes).after cs).maxOps = max maxOps 1 from congrArg (·.2.1) hsetup,
      show ((new n maxOps maxBytes).after cs).maxBytes = max maxBytes 1 from
        congrArg (·.2.2) hsetup] at hbelow
    have htaken := hin₂.hasTaken hcolumn
    rw [flatten_handedBy_flush] at htaken
    refine ⟨(new n maxOps maxBytes).after cs, ((new n maxOps maxBytes).handedBy cs).flatten,
      b₁.engine.engine, b₂.engine.engine, ?_, flatten_handedBy _ cs, hbelow.1, hbelow.2,
      hin₁.hasTaken hcolumn, ?_, htaken⟩
    · rw [← hin₁.eq_ofEngine]
      exact hcalls.run_eq
    · rw [← hin₁.eq_ofEngine, ← hin₂.eq_ofEngine, hcomplete.run_eq, written_after_flush]
      exact congrArg (fun k => (Except.ok (Except.ok k), b₂)) (Nat.zero_add _)
  · obtain ⟨r, e', more, hends, hagrees', hpins⟩ :=
      exists_endsIn_call (ε := Empty) b c hagrees
    rw [hends.run_eq]
    exact hagrees.get_at_eq hagrees' hpins hq m key
  · obtain ⟨r, e', more, hends, hagrees', hpins⟩ :=
      exists_endsIn_call (ε := Empty) b .flush hagrees
    have hcomplete : (b.complete : Work Empty _).EndsIn (.ofEngine e)
        (.done (r.map fun _ => (b.next .flush).written)) (.ofEngine e') :=
      hends.bind (Work.endsIn_pure _ _)
    rw [hcomplete.run_eq]
    exact hagrees.get_at_eq hagrees' hpins hq m key

/-- A put, the deletion of everything and a further put, through a batch without room for a byte,
behind a snapshot of one key. -/
theorem transparent_of_deleteRange :
    let scheme : Filter.Scheme :=
      ⟨fun key => (key.length.toUInt64, 0), fun _ => ⟨64, 1, by decide, by decide⟩⟩
    let e := (Session.run { scheme } [.call (.createColumn "a"), .call (.put 0 [1] [10]),
      .call .snapshot]).engine
    ∃ (b : CappedBatch) (e' e'' : Engine),
      ((new 0 2 0).calls [.push (.put [2] [20]), .push (.deleteRange .all), .push (.put [3] [30])] :
        Work Empty _).run (.ofEngine e) = (.ok ([.ok (), .ok (), .ok ()], b), .ofEngine e') ∧
      (b.complete : Work Empty _).run (.ofEngine e') = (.ok (.ok 3), .ofEngine e'') ∧
      e''.get 0 .latest [2] = .ok none ∧ e''.get 0 .latest [3] = .ok (some [30]) ∧
      e''.get 0 (.at 1) [1] = .ok (some [10]) := by
  intro scheme e
  obtain ⟨b, flushed, e', e'', hcalls, -, -, -, -, hcomplete, htaken⟩ :=
    (transparent { scheme } [.call (.createColumn "a"), .call (.put 0 [1] [10]), .call .snapshot]
      (by decide +kernel) (show 0 < e.columns.length by decide +kernel) 2 0).1
      [.push (.put [2] [20]), .push (.deleteRange .all), .push (.put [3] [30])]
  obtain ⟨e₁, hwrite, hlatest⟩ := htaken.latest
  have hread : ∀ key value, ((e.write 0 [.put [2] [20], .deleteRange .all, .put [3] [30]]).bind
      (·.get 0 .latest key)) = .ok value → e''.get 0 .latest key = .ok value := by
    intro key value h
    rw [hlatest, ← h]
    exact congrArg (Except.bind · fun e => e.get 0 .latest key) hwrite.symm
  refine ⟨b, e', e'', hcalls, hcomplete, hread _ _ (by decide +kernel),
    hread _ _ (by decide +kernel), ?_⟩
  rw [htaken.pinned 1 (by decide +kernel)]
  decide +kernel

end CappedBatch

end SnapshotStore
