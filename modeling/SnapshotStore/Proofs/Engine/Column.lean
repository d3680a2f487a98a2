import SnapshotStore.Engine.Basic
import SnapshotStore.Proofs.Engine.KeyMap

/-!
# What the readers of a column see

Pruning and the removal of chains are invisible from a threshold on: a reader at or above it, and
the reader of the newest state, see the same value before and after (`Chain.valueAt_collect`).  A
version in front of a chain is invisible to every reader below its sequence
(`Chain.valueAt_cons_of_lt`).

From the two follows what every change of a column does to its readers, seen through
`Column.valueAt`: a write changes one key of the newest state and no older state
(`valueAt_latest_push`, `valueAt_at_push`), and compaction changes nothing (`valueAt_compact`).
-/

namespace SnapshotStore

/-- The readers that pruning at a threshold has to spare. -/
def ReadView.IsSpared (threshold : Nat) : ReadView → Prop
  | .latest => True
  | .at s => threshold ≤ s

namespace Chain

variable {chain : Chain} {threshold : Nat} {view : ReadView}

/-- A chain without versions has no value. -/
@[simp] theorem valueAt_nil (view : ReadView) : valueAt [] view = none := by
  cases view <;> rfl

/-- The newest version is at the head of a chain. -/
@[simp] theorem valueAt_latest_cons (v : Version) (chain : Chain) :
    valueAt (v :: chain) .latest = v.value := rfl

/-- A reader at a sequence stops at the first version that is not newer. -/
theorem visible_at_cons (v : Version) (chain : Chain) (s : Nat) :
    visible (v :: chain) (.at s) = if v.sequence ≤ s then some v else chain.visible (.at s) := by
  by_cases h : v.sequence ≤ s <;> simp [visible, h]

/-- At a sequence, the value is that of the first version that is not younger. -/
theorem valueAt_at_cons (v : Version) (chain : Chain) (s : Nat) :
    valueAt (v :: chain) (.at s) = if v.sequence ≤ s then v.value else chain.valueAt (.at s) := by
  unfold valueAt
  rw [visible_at_cons]
  split <;> rfl

/-- A reader does not see what was written after its sequence. -/
theorem valueAt_cons_of_lt {v : Version} {s : Nat} (h : s < v.sequence) :
    valueAt (v :: chain) (.at s) = chain.valueAt (.at s) := by
  rw [valueAt_at_cons, if_neg (Nat.not_le.mpr h)]

/-- A reader at a sequence that is not older than any version sees the newest state. -/
theorem valueAt_at_eq_latest {s : Nat} (h : ∀ v ∈ chain, v.sequence ≤ s) :
    chain.valueAt (.at s) = chain.valueAt .latest := by
  cases chain with
  | nil => rfl
  | cons v rest => rw [valueAt_at_cons, if_pos (h v (by simp)), valueAt_latest_cons]

/-! ## Pruning -/

/-- Pruning makes no versions. -/
theorem mem_of_mem_prune {v : Version} (h : v ∈ chain.prune threshold) : v ∈ chain := by
  induction chain with
  | nil => exact h
  | cons w rest ih =>
    unfold prune at h
    split at h
    · simp_all
    · rcases List.mem_cons.mp h with rfl | h
      · simp
      · exact List.mem_cons_of_mem _ (ih h)

/-- What pruning drops lies behind a version that every spared reader stops at. -/
theorem visible_prune (h : view.IsSpared threshold) :
    (chain.prune threshold).visible view = chain.visible view := by
  induction chain with
  | nil => rfl
  | cons v rest ih =>
    unfold prune
    split
    · rename_i hv
      cases view with
      | latest => rfl
      | «at» s =>
        -- The head is at or below the threshold, so it is what the view sees and nothing behind it
        -- matters.
        have hs : v.sequence ≤ s := Nat.le_trans hv h
        rw [visible_at_cons, visible_at_cons, if_pos hs, if_pos hs]
    · cases view with
      | latest => rfl
      | «at» s => rw [visible_at_cons, visible_at_cons, ih]

/-- A view that pruning spares sees the same value as before. -/
theorem valueAt_prune (h : view.IsSpared threshold) :
    (chain.prune threshold).valueAt view = chain.valueAt view := by
  unfold valueAt
  rw [visible_prune h]

/-- A chain that may be removed shows nothing to anybody. -/
theorem valueAt_of_isRemovable (h : chain.isRemovable threshold) :
    chain.valueAt view = none := by
  unfold isRemovable at h
  split at h
  · rename_i v
    have hv : v.value = none := by simp_all
    cases view with
    | latest => exact hv
    | «at» s => simp [valueAt_at_cons, hv]
  · simp at h

/-- Neither pruning nor the removal of a chain is visible to a spared reader. -/
theorem valueAt_collect (h : view.IsSpared threshold) :
    ((chain.collect threshold).getD []).valueAt view = chain.valueAt view := by
  unfold collect
  by_cases hr : (chain.prune threshold).isRemovable threshold
  · have hnone : chain.valueAt view = none := by
      rw [← valueAt_of_isRemovable hr, valueAt_prune h]
    simp [hr, hnone]
  · simpa [hr] using valueAt_prune h

/-- What is kept of a chain was in it. -/
theorem mem_of_mem_collect {chain' : Chain} (h : chain.collect threshold = some chain')
    {v : Version} (hv : v ∈ chain') : v ∈ chain := by
  unfold collect at h
  simp only at h
  split at h
  · simp at h
  · simp only [Option.some.injEq] at h
    exact mem_of_mem_prune (h ▸ hv)

end Chain

namespace Column

variable {c : Column} {scheme : Filter.Scheme} {threshold : Nat} {key : Bytes} {version : Version}

/-- A column that keeps its chains in order, with no version after a sequence. -/
structure WellFormed (c : Column) (newest : Nat) : Prop where
  /-- The keys ascend. -/
  sorted : c.chains.Sorted
  /-- No version comes after `newest`. -/
  bounded : ∀ e ∈ c.chains, ∀ v ∈ e.2, v.sequence ≤ newest

/-- A bound on the sequences of a column may grow. -/
theorem WellFormed.mono {newest newest' : Nat} (h : c.WellFormed newest) (hle : newest ≤ newest') :
    c.WellFormed newest' :=
  ⟨h.sorted, fun e he v hv => Nat.le_trans (h.bounded e he v hv) hle⟩

/-- No version of a key is younger than the newest sequence, not even where the key has no chain. -/
theorem WellFormed.chain_bounded {newest : Nat} (h : c.WellFormed newest) (key : Bytes) :
    ∀ v ∈ c.chain key, v.sequence ≤ newest := by
  intro v hv
  unfold chain at hv
  cases hget : c.chains.get? key with
  | none => simp [hget] at hv
  | some chain =>
    rw [hget] at hv
    exact h.bounded _ (KeyMap.mem_of_get? hget) v hv

/-- The newest state of a column is its state at any sequence that no version comes after. -/
theorem WellFormed.valueAt_newest {newest : Nat} (h : c.WellFormed newest) (key : Bytes) :
    c.valueAt (.at newest) key = c.valueAt .latest key :=
  Chain.valueAt_at_eq_latest (h.chain_bounded key)

/-- A column without chains is well formed at any sequence. -/
theorem wellFormed_empty (name : String) (capacity newest : Nat) :
    (empty scheme name capacity).WellFormed newest :=
  ⟨KeyMap.sorted_nil, by simp [empty]⟩

/-- A column without chains has no values. -/
@[simp] theorem valueAt_empty (name : String) (capacity : Nat) (view : ReadView) (key : Bytes) :
    (empty scheme name capacity).valueAt view key = none := by
  simp [valueAt, chain, empty, KeyMap.get?]

/-! ## Writing a version -/

/-- A write puts its version in front of the chain of its key, unless it is a tombstone for a key
that is not live; then it changes nothing. -/
theorem push_cases (scheme : Filter.Scheme) (threshold : Nat) (c : Column) (key : Bytes)
    (version : Version) :
    (c.push scheme threshold key version).chains
        = c.chains.alter key (fun old => Chain.collect threshold (version :: old.getD []))
      ∨ (c.push scheme threshold key version = c ∧ version.value = none
        ∧ c.valueAt .latest key = none) := by
  unfold push
  by_cases hvalue : version.value.isSome
  · exact .inl (by simp [hvalue])
  · by_cases hlive : (c.chain key).isLive
    · exact .inl (by simp [hvalue, hlive])
    · refine .inr ⟨by simp [hvalue, hlive], by simpa using hvalue, ?_⟩
      simpa [Chain.isLive, valueAt] using hlive

/-- What a spared reader sees of a chain with a new version in front. -/
private theorem valueAt_of_chains_eq {c' : Column} (h : c.chains.Sorted)
    (hc : c'.chains
      = c.chains.alter key (fun old => Chain.collect threshold (version :: old.getD [])))
    {view : ReadView} (hview : view.IsSpared threshold) (k : Bytes) :
    c'.valueAt view k
      = if k = key then Chain.valueAt (version :: c.chain key) view else c.valueAt view k := by
  unfold valueAt chain
  rw [hc, KeyMap.get?_alter h]
  by_cases hk : k = key
  · rw [if_pos hk, if_pos hk, Chain.valueAt_collect hview]
  · rw [if_neg hk, if_neg hk]

/-- A write is seen at its key in the newest state. -/
theorem valueAt_latest_push (h : c.chains.Sorted) (k : Bytes) :
    (c.push scheme threshold key version).valueAt .latest k
      = if k = key then version.value else c.valueAt .latest k := by
  rcases push_cases scheme threshold c key version with hc | ⟨hc, hvalue, hlatest⟩
  · rw [valueAt_of_chains_eq h hc (show ReadView.IsSpared threshold .latest from trivial),
      Chain.valueAt_latest_cons]
  · rw [hc]
    by_cases hk : k = key
    · rw [if_pos hk, hk, hlatest, hvalue]
    · rw [if_neg hk]

/-- A write is not seen in an older state. -/
theorem valueAt_at_push (h : c.chains.Sorted) {s : Nat} (hs : threshold ≤ s)
    (hlt : s < version.sequence) (k : Bytes) :
    (c.push scheme threshold key version).valueAt (.at s) k = c.valueAt (.at s) k := by
  rcases push_cases scheme threshold c key version with hc | ⟨hc, -, -⟩
  · rw [valueAt_of_chains_eq h hc (show ReadView.IsSpared threshold (.at s) from hs),
      Chain.valueAt_cons_of_lt hlt]
    by_cases hk : k = key
    · rw [if_pos hk, hk, valueAt]
    · rw [if_neg hk]
  · rw [hc]

/-- A chain after a write was there before, or is what is left of the written key's chain with the
version in front. -/
theorem mem_chains_push (h : c.chains.Sorted) {e : Bytes × Chain}
    (he : e ∈ (c.push scheme threshold key version).chains) :
    e ∈ c.chains ∨ (e.1 = key ∧ Chain.collect threshold (version :: c.chain key) = some e.2) := by
  rcases push_cases scheme threshold c key version with hc | ⟨hc, -, -⟩
  · have hsorted := h.alter key fun old => Chain.collect threshold (version :: old.getD [])
    rw [hc] at he
    have hget := (KeyMap.get?_eq_some_iff hsorted).mpr he
    rw [KeyMap.get?_alter h] at hget
    -- Another key still has the chain that it had; the key itself has the collected one.
    by_cases hk : e.1 = key
    · rw [if_pos hk] at hget
      exact .inr ⟨hk, hget⟩
    · rw [if_neg hk] at hget
      exact .inl (KeyMap.mem_of_get? hget)
  · exact .inl (hc ▸ he)

/-- A written version keeps the keys in order. -/
theorem sorted_push (h : c.chains.Sorted) :
    (c.push scheme threshold key version).chains.Sorted := by
  rcases push_cases scheme threshold c key version with hc | ⟨hc, -, -⟩
  · exact hc ▸ h.alter key _
  · rwa [hc]

/-- A version that is not younger than the newest sequence leaves a column well formed. -/
theorem WellFormed.push {newest : Nat} (h : c.WellFormed newest) (hv : version.sequence ≤ newest) :
    (c.push scheme threshold key version).WellFormed newest := by
  refine ⟨sorted_push h.sorted, fun e he v hve => ?_⟩
  rcases mem_chains_push h.sorted he with hmem | ⟨-, hcollect⟩
  · exact h.bounded e hmem v hve
  · rcases List.mem_cons.mp (Chain.mem_of_mem_collect hcollect hve) with rfl | hmem
    · exact hv
    · exact h.chain_bounded key v hmem

/-- A written version leaves the name. -/
@[simp] theorem name_push (scheme : Filter.Scheme) (threshold : Nat) (c : Column) (key : Bytes)
    (version : Version) : (c.push scheme threshold key version).name = c.name := by
  unfold push
  simp only
  split
  · rfl
  · split <;> rfl

/-! ## Compaction -/

/-- The filter is a hint, so a new one changes no value. -/
@[simp] theorem valueAt_rebuildFilter (scheme : Filter.Scheme) (capacity : Nat) (c : Column)
    (view : ReadView) (key : Bytes) :
    (c.rebuildFilter scheme capacity).valueAt view key = c.valueAt view key := rfl

/-- A new filter leaves a column well formed. -/
theorem WellFormed.rebuildFilter {newest : Nat} (h : c.WellFormed newest) (capacity : Nat) :
    (c.rebuildFilter scheme capacity).WellFormed newest := ⟨h.sorted, h.bounded⟩

/-- Compaction is not seen by a spared reader. -/
theorem valueAt_compact (h : c.chains.Sorted) (capacity : Nat) {view : ReadView}
    (hview : view.IsSpared threshold) (key : Bytes) :
    (c.compact scheme threshold capacity).valueAt view key = c.valueAt view key := by
  unfold compact
  rw [valueAt_rebuildFilter]
  unfold valueAt chain
  rw [KeyMap.get?_filterMap h]
  cases c.chains.get? key with
  | none => rfl
  | some chain => exact Chain.valueAt_collect hview

/-- Compaction leaves a column well formed: the versions that it keeps were there. -/
theorem WellFormed.compact {newest : Nat} (h : c.WellFormed newest) (capacity : Nat) :
    (c.compact scheme threshold capacity).WellFormed newest := by
  refine WellFormed.rebuildFilter ⟨h.sorted.filterMap _, fun e he v hv => ?_⟩ capacity
  obtain ⟨chain, hmem, hcollect⟩ := KeyMap.mem_filterMap.mp he
  exact h.bounded _ hmem v (Chain.mem_of_mem_collect hcollect hv)

end Column

namespace Engine

variable {scheme : Filter.Scheme} {threshold sequence : Nat}

/-- An operation leaves the name of its column. -/
@[simp] theorem name_applyOp (c : Column) (op : WriteOp) :
    (applyOp scheme threshold sequence c op).name = c.name := by
  cases op with
  | put key value => exact Column.name_push ..
  | delete key => exact Column.name_push ..
  | deleteRange range =>
    have hkeys : ∀ (keys : List Bytes) (c : Column),
        (keys.foldl (fun c key => c.push scheme threshold key ⟨sequence, none⟩) c).name = c.name := by
      intro keys
      induction keys with
      | nil => exact fun c => rfl
      | cons key keys ih => exact fun c => (ih _).trans (Column.name_push ..)
    exact hkeys _ c

/-- So does a batch. -/
@[simp] theorem name_applyBatch (options : Options) (c : Column) (batch : WriteBatch) :
    (applyBatch options threshold sequence c batch).name = c.name := by
  have hops : (batch.foldl (applyOp options.scheme threshold sequence) c).name = c.name := by
    induction batch generalizing c with
    | nil => rfl
    | cons op batch ih => rw [List.foldl_cons, ih, name_applyOp]
  unfold applyBatch
  simp only
  split
  · exact hops
  · exact hops

end Engine

end SnapshotStore
