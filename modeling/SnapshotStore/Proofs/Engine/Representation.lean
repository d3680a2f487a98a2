import SnapshotStore.Engine.Cursor
import SnapshotStore.Proofs.Engine.Column
import SnapshotStore.Proofs.Engine.History

/-!
# Which history an engine represents

An engine represents a history if every reader that it still has to answer sees the state of the
history that it asked for: the readers of the newest state, and those at a sequence between the
prune threshold and the newest sequence.  The threshold is the oldest pinned sequence, or the newest
one without pins, so every pinned sequence is among them.

`Column.Shows` says the same of one column while a batch is being applied to it.  Each operation of
a batch is one step of it (`Column.Shows.applyOp`), a whole batch is a fold of such steps
(`Column.Shows.applyBatch`), and from there every call of the engine keeps `Engine.Represents`.
-/

namespace SnapshotStore

/-- The readers of a column see the states that they should see: `now` at the newest state, which
may be a state in the middle of a batch with the sequence `newest`, and `past s` at a sequence `s`
before, from `oldest` on. -/
structure Column.Shows (c : Column) (oldest newest : Nat) (past : Nat → Contents)
    (now : Contents) : Prop extends c.WellFormed newest where
  /-- The newest state. -/
  latest : ∀ key, c.valueAt .latest key = now key
  /-- The states before. -/
  earlier : ∀ s, oldest ≤ s → s < newest → ∀ key, c.valueAt (.at s) key = past s key

namespace Column.Shows

variable {c : Column} {oldest newest : Nat} {past : Nat → Contents} {now : Contents}

/-- Fewer readers have to be answered when the threshold goes up. -/
theorem mono (h : c.Shows oldest newest past now) {oldest' : Nat} (hle : oldest ≤ oldest') :
    c.Shows oldest' newest past now :=
  { h with earlier := fun s hs => h.earlier s (Nat.le_trans hle hs) }

/-- A reader at the newest sequence sees the newest state. -/
theorem at_newest (h : c.Shows oldest newest past now) (key : Bytes) :
    c.valueAt (.at newest) key = now key := by
  rw [h.valueAt_newest, h.latest]

/-- When a batch begins, the newest state becomes one of the earlier ones. -/
theorem begin_batch (h : c.Shows oldest newest past (past newest)) :
    c.Shows oldest (newest + 1) past (past newest) where
  toWellFormed := h.toWellFormed.mono (Nat.le_succ _)
  latest := h.latest
  earlier s hs hlt key := by
    rcases Nat.lt_succ_iff_lt_or_eq.mp hlt with hlt | rfl
    · exact h.earlier s hs hlt key
    · exact h.at_newest key

/-- Writing a version changes the newest state at one key. -/
theorem push (h : c.Shows oldest newest past now) (scheme : Filter.Scheme) (key : Bytes)
    (value : Option Bytes) :
    (c.push scheme oldest key ⟨newest, value⟩).Shows oldest newest past
      (fun k => if k = key then value else now k) where
  toWellFormed := h.toWellFormed.push (Nat.le_refl _)
  latest k := by rw [valueAt_latest_push h.sorted, h.latest]
  earlier s hs hlt k := by rw [valueAt_at_push h.sorted hs hlt, h.earlier s hs hlt]

/-- Writing tombstones removes their keys from the newest state. -/
theorem push_tombstones (h : c.Shows oldest newest past now) (scheme : Filter.Scheme)
    (keys : List Bytes) :
    (keys.foldl (fun c key => c.push scheme oldest key ⟨newest, none⟩) c).Shows oldest newest past
      (fun k => if k ∈ keys then none else now k) := by
  induction keys generalizing c now with
  | nil => simpa using h
  | cons key keys ih =>
    have hstep := ih (h.push scheme key none)
    refine { hstep with latest := fun k => ?_ }
    rw [List.foldl_cons, hstep.latest]
    by_cases hk : k = key <;> by_cases hmem : k ∈ keys <;> simp [hk, hmem]

/-- The keys that a deletion of a range is about are the keys of the range that have a value. -/
theorem mem_liveKeysIn (h : c.Shows oldest newest past now) {range : KeyRange} {key : Bytes} :
    key ∈ c.liveKeysIn range ↔ range.contains key ∧ (now key).isSome := by
  -- The head of a chain is its newest version, which is what the column shows now.
  have hlive : ∀ chain, (key, chain) ∈ c.chains → (Chain.isLive chain ↔ (now key).isSome) := by
    intro chain hmem
    rw [← h.latest, valueAt, Column.chain, (KeyMap.get?_eq_some_iff h.sorted).mpr hmem]
    rfl
  unfold liveKeysIn
  simp only [List.mem_map, List.mem_filter, KeyMap.mem_within, KeyRange.admits_bounds]
  constructor
  · rintro ⟨⟨k, chain⟩, ⟨⟨hmem, hrange⟩, hisLive⟩, rfl⟩
    exact ⟨hrange, (hlive chain hmem).mp hisLive⟩
  · rintro ⟨hrange, hsome⟩
    cases hget : c.chains.get? key with
    | none =>
      rw [← h.latest, valueAt, Column.chain, hget] at hsome
      simp at hsome
    | some chain =>
      have hmem := KeyMap.mem_of_get? hget
      exact ⟨(key, chain), ⟨⟨hmem, hrange⟩, (hlive chain hmem).mpr hsome⟩, rfl⟩

/-- One operation of a batch changes the newest state as it changes a plain map. -/
theorem applyOp (h : c.Shows oldest newest past now) (scheme : Filter.Scheme) (op : WriteOp) :
    (Engine.applyOp scheme oldest newest c op).Shows oldest newest past (now.apply op) := by
  cases op with
  | put key value => exact h.push scheme key (some value)
  | delete key => exact h.push scheme key none
  | deleteRange range =>
    have hstep := h.push_tombstones scheme (c.liveKeysIn range)
    refine { hstep with latest := fun k => ?_ }
    rw [Engine.applyOp, hstep.latest, Contents.apply]
    by_cases hrange : range.contains k
    · cases hk : now k with
      | none => simp [hrange]
      | some v => simp [h.mem_liveKeysIn, hrange, hk]
    · simp [h.mem_liveKeysIn, hrange]

/-- A new filter shows the same contents. -/
theorem rebuildFilter (h : c.Shows oldest newest past now) (scheme : Filter.Scheme)
    (capacity : Nat) :
    (c.rebuildFilter scheme capacity).Shows oldest newest past now :=
  { h with toWellFormed := h.toWellFormed.rebuildFilter capacity }

/-- A batch changes the newest state as it changes a plain map. -/
theorem applyBatch (h : c.Shows oldest newest past now) (options : Engine.Options)
    (batch : WriteBatch) :
    (Engine.applyBatch options oldest newest c batch).Shows oldest newest past
      (now.applyAll batch) := by
  have hops : (batch.foldl (Engine.applyOp options.scheme oldest newest) c).Shows oldest newest past
      (now.applyAll batch) := by
    induction batch generalizing c now with
    | nil => exact h
    | cons op batch ih => exact ih (h.applyOp options.scheme op)
  unfold Engine.applyBatch
  simp only
  split
  · exact hops.rebuildFilter _ _
  · exact hops

/-- Compaction shows the same contents from its threshold on. -/
theorem compact (h : c.Shows oldest newest past now) (scheme : Filter.Scheme) (capacity : Nat) :
    (c.compact scheme oldest capacity).Shows oldest newest past now where
  toWellFormed := h.toWellFormed.compact capacity
  latest key := by
    rw [valueAt_compact h.sorted capacity (show ReadView.IsSpared oldest .latest from trivial),
      h.latest]
  earlier s hs hlt key := by
    rw [valueAt_compact h.sorted capacity (show ReadView.IsSpared oldest (.at s) from hs),
      h.earlier s hs hlt]

end Column.Shows

namespace Engine

variable {e : Engine} {h : History} {n : Nat} {c : Column} {key : Bytes}

/-! ## The prune threshold -/

/-- The least of some numbers is none above them. -/
private theorem foldl_min_le (pins : List Nat) (newest : Nat) :
    pins.foldl min newest ≤ newest ∧ ∀ s ∈ pins, pins.foldl min newest ≤ s := by
  induction pins generalizing newest with
  | nil => simp
  | cons p pins ih =>
    obtain ⟨hle, hall⟩ := ih (min newest p)
    refine ⟨by simp only [List.foldl_cons]; omega, fun s hs => ?_⟩
    rcases List.mem_cons.mp hs with rfl | hs
    · simp only [List.foldl_cons]
      omega
    · exact hall s hs

/-- What is below some numbers is below the least of them. -/
private theorem le_foldl_min {pins : List Nat} {newest bound : Nat} (hnewest : bound ≤ newest)
    (hpins : ∀ s ∈ pins, bound ≤ s) : bound ≤ pins.foldl min newest := by
  induction pins generalizing newest with
  | nil => exact hnewest
  | cons p pins ih =>
    have hp := hpins p (by simp)
    exact ih (by omega) fun s hs => hpins s (List.mem_cons_of_mem _ hs)

/-- The prune threshold is never above the newest sequence. -/
theorem pruneThreshold_le_sequence (e : Engine) : e.pruneThreshold ≤ e.sequence :=
  (foldl_min_le e.pins e.sequence).1

/-- The prune threshold is never above a pin. -/
theorem pruneThreshold_le_of_mem {s : Nat} (hs : s ∈ e.pins) : e.pruneThreshold ≤ s :=
  (foldl_min_le e.pins e.sequence).2 s hs

/-- The prune threshold is the greatest such number. -/
theorem le_pruneThreshold {bound : Nat} (hsequence : bound ≤ e.sequence)
    (hpins : ∀ s ∈ e.pins, bound ≤ s) : bound ≤ e.pruneThreshold :=
  le_foldl_min hsequence hpins

/-! ## Representation -/

/-- The engine answers every reader that it has to answer from the states of a history. -/
structure Represents (e : Engine) (h : History) : Prop where
  /-- Every batch took one sequence. -/
  sequence_eq : e.sequence = h.length
  /-- Nothing is pinned ahead of time. -/
  pins_le : ∀ s ∈ e.pins, s ≤ e.sequence
  /-- The batches were written to columns of the engine. -/
  column_lt : ∀ b ∈ h, b.1 < e.columns.length
  /-- The readers of every column from the prune threshold on see the states of the history. -/
  shows : ∀ (n : Nat) (c : Column), e.columns[n]? = some c →
    c.Shows e.pruneThreshold e.sequence (h.contents · n) (h.latest n)

/-- A new engine represents the empty history. -/
theorem represents_new (options : Options) : (new options).Represents [] where
  sequence_eq := rfl
  pins_le := by simp [new]
  column_lt := by simp
  shows := by simp [new]

namespace Represents

/-- A reader at a sequence from the prune threshold on sees the state of that sequence. -/
theorem valueAt_at (hr : e.Represents h) (hc : e.columns[n]? = some c) {s : Nat}
    (hs : e.pruneThreshold ≤ s) (hle : s ≤ e.sequence) (key : Bytes) :
    c.valueAt (.at s) key = h.contents s n key := by
  have hshows := hr.shows n c hc
  rcases Nat.lt_or_eq_of_le hle with hlt | rfl
  · exact hshows.earlier s hs hlt key
  · rw [hshows.at_newest, History.latest, hr.sequence_eq]

/-- Columns may change to ones that show the same, and the threshold may go up. -/
theorem update (hr : e.Represents h) {e' : Engine} (hsequence : e'.sequence = e.sequence)
    (hpins : ∀ s ∈ e'.pins, s ≤ e.sequence) (hlength : e'.columns.length = e.columns.length)
    (hthreshold : e.pruneThreshold ≤ e'.pruneThreshold)
    (hshows : ∀ (n : Nat) (c' : Column), e'.columns[n]? = some c' →
      c'.Shows e.pruneThreshold e.sequence (h.contents · n) (h.latest n)) :
    e'.Represents h where
  sequence_eq := hsequence.trans hr.sequence_eq
  pins_le s hs := hsequence ▸ hpins s hs
  column_lt b hb := hlength ▸ hr.column_lt b hb
  shows n c' hc' := hsequence ▸ (hshows n c' hc').mono hthreshold

/-- A further pin of a sequence that readers are still answered at keeps the threshold. -/
theorem pin (hr : e.Represents h) {s : Nat} (hs : e.pruneThreshold ≤ s) (hle : s ≤ e.sequence) :
    (e.pin s).Represents h := by
  refine hr.update rfl ?_ rfl ?_ fun n c hc => hr.shows n c hc
  · intro s' hs'
    rcases List.mem_cons.mp hs' with rfl | hs'
    · exact hle
    · exact hr.pins_le s' hs'
  · refine le_pruneThreshold e.pruneThreshold_le_sequence fun s' hs' => ?_
    rcases List.mem_cons.mp hs' with rfl | hs'
    · exact hs
    · exact pruneThreshold_le_of_mem hs'

/-- Taking a pin away can only raise the threshold. -/
theorem unpin (hr : e.Represents h) (s : Nat) : (e.unpin s).Represents h := by
  refine hr.update rfl (fun s' hs' => hr.pins_le s' (List.mem_of_mem_erase hs')) rfl ?_
    fun n c hc => hr.shows n c hc
  exact le_pruneThreshold e.pruneThreshold_le_sequence
    fun s' hs' => pruneThreshold_le_of_mem (List.mem_of_mem_erase hs')

/-- A closed engine represents the history up to then. -/
theorem close (hr : e.Represents h) : e.close.Represents h :=
  hr.update rfl hr.pins_le rfl (Nat.le_refl _) hr.shows

/-- A new column is empty in every state. -/
theorem addColumn (hr : e.Represents h) (name : String) (capacity : Nat) :
    ({ e with columns := e.columns ++ [.empty e.options.scheme name capacity] } :
      Engine).Represents h where
  sequence_eq := hr.sequence_eq
  pins_le := hr.pins_le
  column_lt b hb := by
    have := hr.column_lt b hb
    simp only [List.length_append]
    omega
  shows n c hc := by
    rcases Nat.lt_trichotomy n e.columns.length with hn | rfl | hn
    · rw [List.getElem?_append_left hn] at hc
      exact hr.shows n c hc
    · -- No batch of the history can be about the column, since it did not exist.
      have hempty : ∀ s, h.contents s e.columns.length = .empty := History.contents_eq_empty
        fun b hb heq => Nat.lt_irrefl _ (heq ▸ hr.column_lt b hb)
      obtain rfl : Column.empty e.options.scheme name capacity = c := by simpa using hc
      exact {
        toWellFormed := Column.wellFormed_empty name capacity _
        latest := fun key => by
          rw [Column.valueAt_empty, History.latest, hempty]
          rfl
        earlier := fun s _ _ key => by
          rw [Column.valueAt_empty]
          simp only [hempty]
          rfl }
    · rw [List.getElem?_eq_none (by simp only [List.length_append, List.length_singleton]; omega)]
        at hc
      simp at hc

/-- When a batch is written, every column sees its sequence begin. -/
private theorem shows_begun (hr : e.Represents h) (hc : e.columns[n]? = some c) :
    c.Shows e.pruneThreshold (e.sequence + 1) (h.contents · n) (h.latest n) := by
  have hshows := hr.shows n c hc
  have hnow : h.latest n = h.contents e.sequence n := by
    rw [hr.sequence_eq]
    rfl
  rw [hnow] at hshows ⊢
  exact hshows.begin_batch

/-- The past of a longer history is that of the shorter one. -/
private theorem shows_append (hr : e.Represents h) {now : Contents}
    (hshows : c.Shows e.pruneThreshold (e.sequence + 1) (h.contents · n) now) (more : History) :
    c.Shows e.pruneThreshold (e.sequence + 1) (History.contents (h ++ more) · n) now := by
  refine { hshows with earlier := fun s hs hlt key => ?_ }
  have hle : s ≤ h.length := by
    rw [← hr.sequence_eq]
    exact Nat.le_of_lt_succ hlt
  rw [hshows.earlier s hs hlt, History.contents_append hle]

/-- A batch that is written to a column becomes the next batch of the history. -/
theorem write (hr : e.Represents h) (hc : e.columns[n]? = some c) (batch : WriteBatch) :
    ({ e with
      columns := e.columns.set n
        (applyBatch e.options e.pruneThreshold (e.sequence + 1) c batch)
      sequence := e.sequence + 1 } : Engine).Represents (h ++ [(n, batch)]) where
  sequence_eq := by simp [hr.sequence_eq]
  pins_le s hs := Nat.le_succ_of_le (hr.pins_le s hs)
  column_lt b hb := by
    rw [List.length_set]
    rcases List.mem_append.mp hb with hb | hb
    · exact hr.column_lt b hb
    · obtain rfl : b = (n, batch) := by simpa using hb
      exact (List.getElem?_eq_some_iff.mp hc).1
  shows m c' hc' := by
    have hthreshold : e.pruneThreshold ≤ e.pins.foldl min (e.sequence + 1) :=
      le_foldl_min (Nat.le_succ_of_le e.pruneThreshold_le_sequence)
        fun s hs => pruneThreshold_le_of_mem hs
    refine Column.Shows.mono ?_ hthreshold
    rw [History.latest_concat]
    -- Every column sees the new sequence begin; the batch then writes to one of them.
    refine hr.shows_append ?_ _
    by_cases hm : n = m
    · subst hm
      rw [if_pos rfl]
      rw [List.getElem?_set_self (List.getElem?_eq_some_iff.mp hc).1] at hc'
      obtain rfl := Option.some.inj hc'
      exact (hr.shows_begun hc).applyBatch e.options batch
    · rw [if_neg hm]
      rw [List.getElem?_set_ne hm] at hc'
      exact hr.shows_begun hc'

/-- Compaction of a column changes no state. -/
theorem compact (hr : e.Represents h) (hc : e.columns[n]? = some c) :
    ({ e with
      columns := e.columns.set n
        (c.compact e.options.scheme e.pruneThreshold e.options.filterCapacity) } :
      Engine).Represents h := by
  refine hr.update rfl hr.pins_le (by simp) (Nat.le_refl _) fun m c' hc' => ?_
  by_cases hm : n = m
  · subst hm
    rw [List.getElem?_set_self (List.getElem?_eq_some_iff.mp hc).1] at hc'
    obtain rfl := Option.some.inj hc'
    exact (hr.shows n c hc).compact _ _
  · rw [List.getElem?_set_ne hm] at hc'
    exact hr.shows m c' hc'

end Represents

end Engine

end SnapshotStore
