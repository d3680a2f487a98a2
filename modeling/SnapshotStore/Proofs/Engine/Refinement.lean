import SnapshotStore.Proofs.Engine.Calls
import SnapshotStore.Proofs.Engine.Representation
import SnapshotStore.Proofs.Engine.Session

/-!
# The engine refines a history of plain maps

Whatever its clients do, an engine answers every read from the history that its ledger records:
pruning on writes, the removal of tombstones, compaction and the release of snapshots are never
visible to a reader.

`Engine.Agrees` ties an engine to a ledger; every act of a session keeps it (`Session.agrees_step`),
and it determines the answer of every read (`Engine.Agrees.get_eq`).
-/

namespace SnapshotStore

namespace Engine

variable {e : Engine} {l : Ledger} {n : Nat} {c : Column}

/-! ## Agreement with a ledger -/

/-- The engine is what a ledger says. -/
structure Agrees (e : Engine) (l : Ledger) : Prop where
  /-- Both are open, or none is. -/
  isClosed_eq : e.isClosed = !l.isOpen
  /-- The columns are those of the ledger. -/
  names_eq : e.columns.map (·.name) = l.names
  /-- The readers see the states of the ledger's history. -/
  represents : e.Represents l.history

/-- A new engine agrees with a ledger in which nothing is written. -/
theorem agrees_new (options : Options) : (new options).Agrees .empty :=
  ⟨rfl, rfl, represents_new options⟩

/-- Replacing a column by one of the same name keeps the names. -/
private theorem names_set {columns : List Column} (hc : columns[n]? = some c) {c' : Column}
    (hname : c'.name = c.name) : (columns.set n c').map (·.name) = columns.map (·.name) := by
  obtain ⟨hn, rfl⟩ := List.getElem?_eq_some_iff.mp hc
  refine List.ext_getElem? fun m => ?_
  rw [List.getElem?_map, List.getElem?_map]
  by_cases hm : n = m
  · subst hm
    rw [List.getElem?_set_self hn, hc, Option.map_some, Option.map_some, hname]
  · rw [List.getElem?_set_ne hm]

namespace Agrees

/-- An engine is not closed if its ledger is open. -/
theorem isClosed_of_open (h : e.Agrees l) (hopen : l.isOpen = true) : e.isClosed = false := by
  rw [h.isClosed_eq, hopen]
  rfl

/-- The ledger of a closed engine is closed. -/
theorem isOpen_of_closed (h : e.Agrees l) (hclosed : e.isClosed = true) : l.isOpen = false := by
  simpa [hclosed] using h.isClosed_eq

/-- There are as many columns as names. -/
theorem length_names (h : e.Agrees l) : l.names.length = e.columns.length := by
  rw [← h.names_eq, List.length_map]

/-- A batch is committed exactly when the ledger says so. -/
theorem write (h : e.Agrees l) (n : Nat) (batch : WriteBatch) :
    (e.writing (e.write n batch)).2.Agrees (l.commit n batch) := by
  cases hclosed : e.isClosed with
  | true =>
    have hnot := h.isOpen_of_closed hclosed
    rw [write_of_closed hclosed, Ledger.commit, if_neg (by simp [hnot])]
    exact h
  | false =>
    have hopen : l.isOpen = true := by simpa [hclosed] using h.isClosed_eq
    -- The ledger tells of a batch if it has operations and its column is known, which is when the
    -- engine takes it.
    by_cases hne : batch = []
    · rw [hne, write_nil_of_open hclosed, Ledger.commit, if_neg (by simp)]
      exact h
    · cases hc : e.columns[n]? with
      | none =>
        have hn : ¬ n < l.names.length := by
          rw [h.length_names]
          simpa using hc
        rw [write_of_unknown hclosed hc hne, Ledger.commit, if_neg (fun hand => hn hand.2.1)]
        exact h
      | some c =>
        have hn : n < l.names.length := h.length_names ▸ (List.getElem?_eq_some_iff.mp hc).1
        rw [write_of_open hclosed hc hne, Ledger.commit, if_pos ⟨hopen, hn, hne⟩]
        refine ⟨h.isClosed_eq, ?_, h.represents.write hc batch⟩
        exact (names_set hc (name_applyBatch e.options c batch)).trans h.names_eq

/-- Compaction is not seen in the ledger. -/
theorem compact (h : e.Agrees l) (n : Nat) : (e.writing (e.compact n)).2.Agrees l := by
  cases hclosed : e.isClosed with
  | true =>
    rw [compact_of_closed hclosed]
    exact h
  | false =>
    cases hc : e.columns[n]? with
    | none =>
      rw [compact_of_unknown hclosed hc]
      exact h
    | some c =>
      rw [compact_of_open hclosed hc]
      refine ⟨h.isClosed_eq, ?_, h.represents.compact hc⟩
      have hname : (c.compact e.options.scheme e.pruneThreshold
        e.options.filterCapacity).name = c.name := rfl
      exact (names_set hc hname).trans h.names_eq

/-- A pin between the prune threshold and the newest sequence is not seen in the ledger. -/
theorem pin (h : e.Agrees l) {s : Nat} (hs : e.pruneThreshold ≤ s) (hle : s ≤ e.sequence) :
    (e.pin s).Agrees l := ⟨h.isClosed_eq, h.names_eq, h.represents.pin hs hle⟩

/-- Nor is it seen that a pin goes. -/
theorem unpin (h : e.Agrees l) (s : Nat) : (e.unpin s).Agrees l :=
  ⟨h.isClosed_eq, h.names_eq, h.represents.unpin s⟩

/-- To close an engine is to close its ledger. -/
theorem close (h : e.Agrees l) : e.close.Agrees l.close :=
  ⟨rfl, h.names_eq, h.represents.close⟩

/-- A snapshot pins the newest sequence, which the ledger does not tell. -/
theorem snapshot (h : e.Agrees l) : (e.both e.snapshot).2.Agrees l := by
  cases hclosed : e.isClosed with
  | true =>
    rw [snapshot_of_closed hclosed]
    exact h
  | false =>
    rw [snapshot_of_open hclosed]
    exact h.pin e.pruneThreshold_le_sequence (Nat.le_refl _)

/-- A scan pins at most a sequence that may be pinned. -/
theorem scan (h : e.Agrees l) (n : Nat) (view : ReadView) (range : KeyRange) :
    (e.both (e.scan n view range)).2.Agrees l := by
  cases hclosed : e.isClosed with
  | true =>
    rw [scan_of_closed hclosed]
    exact h
  | false =>
    cases hc : e.columns[n]? with
    | none =>
      rw [scan_of_unknown hclosed hc]
      exact h
    | some c =>
      cases view with
      | latest =>
        rw [scan_latest_of_open hclosed hc]
        exact h.pin e.pruneThreshold_le_sequence (Nat.le_refl _)
      | «at» s =>
        rw [scan_at_of_open hclosed hc]
        split
        · -- A sequence that is pinned already is at or above the threshold, so it may be pinned
          -- once more.
          rename_i hs
          exact h.pin (pruneThreshold_le_of_mem hs) (h.represents.pins_le s hs)
        · exact h

/-- A column is created in the engine if and only if its name is new to the ledger. -/
theorem createColumn (h : e.Agrees l) (name : String) :
    (e.both (e.createColumn name)).2.Agrees (l.call (.createColumn name)) := by
  cases hclosed : e.isClosed with
  | true =>
    have hnot := h.isOpen_of_closed hclosed
    rw [createColumn_of_closed hclosed, Ledger.call, if_neg (by simp [hnot])]
    exact h
  | false =>
    have hopen : l.isOpen = true := by simpa [hclosed] using h.isClosed_eq
    -- The names of the ledger are those of the columns, so both sides decide alike.
    by_cases hmem : name ∈ l.names
    · have hn := createColumn_of_mem hclosed (h.names_eq ▸ hmem)
      rw [hn, Ledger.call, if_neg (by simp [hmem])]
      exact h
    · rw [createColumn_of_not_mem hclosed (h.names_eq ▸ hmem), Ledger.call, if_pos ⟨hopen, hmem⟩]
      refine ⟨h.isClosed_eq, ?_, h.represents.addColumn name _⟩
      simp [both, h.names_eq, Column.empty]

/-- Every call keeps the agreement. -/
theorem call (h : e.Agrees l) (c : EngineCall) : (e.answer c).2.Agrees (l.call c) := by
  cases c with
  | createColumn name => exact h.createColumn name
  | put n key value => exact h.write n [.put key value]
  | delete n key => exact h.write n [.delete key]
  | write n batch => exact h.write n batch
  | scan n view range => exact h.scan n view range
  | snapshot => exact h.snapshot
  | compact n => exact h.compact n
  | get n view key => exact h
  | mayContain n key => exact h
  | next cursor => exact h
  | estimate n => exact h
  | flush => exact h

/-- What an engine answers to a read is determined by the ledger and by what is pinned. -/
theorem get_eq (h : e.Agrees l) (n : Nat) (view : ReadView) (key : Bytes) :
    e.get n view key =
      if !l.isOpen then .error .closed
      else if l.names.length ≤ n then .error (.unknownColumn n)
      else match view with
        | .latest => .ok (l.history.latest n key)
        | .at s =>
          if 0 < e.pinCount s then .ok (l.history.contents s n key)
          else .error (.snapshotReleased s) := by
  cases hclosed : e.isClosed with
  | true =>
    have hnot := h.isOpen_of_closed hclosed
    rw [get_of_closed hclosed, if_pos (by simp [hnot])]
  | false =>
    have hopen : l.isOpen = true := by simpa [hclosed] using h.isClosed_eq
    rw [if_neg (by simp [hopen]), h.length_names]
    cases hc : e.columns[n]? with
    | none =>
      have hn : e.columns.length ≤ n := by simpa using hc
      rw [get_of_unknown hclosed hc, if_pos hn]
    | some c =>
      have hn : ¬ e.columns.length ≤ n := by
        have := (List.getElem?_eq_some_iff.mp hc).1
        omega
      rw [if_neg hn]
      cases view with
      | latest => rw [get_latest_of_open hclosed hc, (h.represents.shows n c hc).latest]
      | «at» s =>
        rw [get_at_of_open hclosed hc]
        simp only [pinCount, List.count_pos_iff]
        -- What is pinned is at or above the threshold, where the chains still tell the whole
        -- history.
        by_cases hs : s ∈ e.pins
        · rw [if_pos hs, if_pos hs, h.represents.valueAt_at hc (pruneThreshold_le_of_mem hs)
            (h.represents.pins_le s hs)]
        · rw [if_neg hs, if_neg hs]

end Agrees

end Engine

namespace Session

/-- An act on an open reader keeps what every change of the reader keeps. -/
theorem onReader_induction {P : Session → Prop} {s : Session} {i : Nat} {f : Reader → Session}
    (hs : P s) (hf : ∀ r, s.readers[i]? = some r → r.isOpen = true → P (f r)) :
    P (s.onReader i f) := by
  unfold onReader
  split
  · rename_i r hr
    split
    · rename_i hopen
      exact hf r hr hopen
    · exact hs
  · exact hs

/-- Every act keeps the agreement. -/
theorem agrees_step (s : Session) (a : Act) (h : s.engine.Agrees s.ledger) :
    (s.step a).engine.Agrees (s.step a).ledger := by
  have hreader : ∀ i f, (∀ r, s.readers[i]? = some r → r.isOpen = true →
      (f r).engine.Agrees (f r).ledger) →
      (s.onReader i f).engine.Agrees (s.onReader i f).ledger :=
    fun i f => onReader_induction (P := fun t => t.engine.Agrees t.ledger) h
  cases a with
  | call c => exact h.call c
  | release q => exact h.unpin q
  | advance i => exact hreader i _ fun _ _ _ => h
  | turn i => exact hreader i _ fun _ _ _ => h
  | drop i => exact hreader i _ fun r _ _ => h.unpin r.cursor.sequence
  | close => exact h.close

/-- In every state an engine agrees with the ledger of what was done to it. -/
theorem agrees_run (options : Engine.Options) (acts : List Act) :
    (run options acts).engine.Agrees (run options acts).ledger :=
  run_induction (Engine.agrees_new options) agrees_step acts

/-- **Whatever the clients of an engine do, it answers every read from the history of what they
committed.**  The newest state is the one after all committed batches, whose number is the sequence
of the engine; the state at a pinned sequence is the one after that many batches; and at any other
sequence nothing is read.  So neither pruning nor compaction is ever visible. -/
theorem get_eq_history (options : Engine.Options) (acts : List Act) (n : Nat) (view : ReadView)
    (key : Bytes) :
    let s := run options acts
    s.engine.sequence = s.ledger.history.length ∧
      s.engine.get n view key =
        if !s.ledger.isOpen then .error .closed
        else if s.ledger.names.length ≤ n then .error (.unknownColumn n)
        else match view with
          | .latest => .ok (s.ledger.history.contents s.engine.sequence n key)
          | .at q =>
            if 0 < s.engine.pinCount q then .ok (s.ledger.history.contents q n key)
            else .error (.snapshotReleased q) := by
  intro s
  have h : s.engine.Agrees s.ledger := agrees_run options acts
  refine ⟨h.represents.sequence_eq, ?_⟩
  rw [h.represents.sequence_eq]
  exact h.get_eq n view key

end Session

end SnapshotStore
