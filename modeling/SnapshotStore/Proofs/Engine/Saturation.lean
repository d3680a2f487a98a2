import SnapshotStore.Proofs.Engine.Compaction

/-!
# Saturated filters

A filter counts the keys that are added to it, and is made anew by the batch that brings the count
above what the filter expects.  The new filter expects twice the live keys, or the least capacity of
the engine if that is more; but it gets every key that holds a value in some version
(`Column.inserted_rebuildFilter`).  A deleted key is such a key for as long as its chain is stored:
the tombstone goes in front of the value, and without compaction or another write to the key both
stay, whether somebody can see them or not.

So the count of a new filter is that of the live and of the lingering keys.  It is saturated from
the start if these are more than it expects, and then every batch makes a new one
(`Session.saturation_exact`).
-/

namespace SnapshotStore

/-! ## What a batch adds -/

namespace Filter

variable {scheme : Scheme} (f : Filter) (keys : List Bytes)

/-- Each key that is inserted counts, also one that was inserted before. -/
theorem inserted_insertAll :
    (keys.foldl (insert scheme) f).inserted = f.inserted + keys.length := by
  induction keys generalizing f with
  | nil => rfl
  | cons key keys ih =>
    rw [List.foldl_cons, ih, List.length_cons]
    exact Nat.add_right_comm ..

/-- Insertions leave the capacity. -/
theorem capacity_insertAll : (keys.foldl (insert scheme) f).capacity = f.capacity := by
  induction keys generalizing f with
  | nil => rfl
  | cons key keys ih => exact ih (f.insert scheme key)

/-- A filter is saturated if more was inserted than it is made for. -/
theorem isSaturated_iff : f.isSaturated = true ↔ f.capacity < f.inserted := decide_eq_true_iff

end Filter

/-- The key that an operation adds to the filter. -/
def WriteOp.putKey? : WriteOp → Option Bytes
  | .put key _ => some key
  | _ => none

/-- The keys that a batch adds to the filter, in order. -/
def WriteBatch.putKeys (batch : WriteBatch) : List Bytes := batch.filterMap WriteOp.putKey?

/-- A live chain holds a value. -/
theorem Chain.any_of_isLive {chain : Chain} (h : chain.isLive = true) :
    chain.any (·.value.isSome) = true := by
  cases chain with
  | nil => cases h
  | cons v rest =>
    rw [Chain.isLive, Chain.valueAt_latest_cons] at h
    rw [List.any_cons, h, Bool.true_or]

namespace Column

variable {scheme : Filter.Scheme} {c : Column} {key : Bytes}

/-- A written value is entered in the filter, a tombstone is not. -/
theorem filter_push (scheme : Filter.Scheme) (threshold : Nat) (c : Column) (key : Bytes)
    (version : Version) : (c.push scheme threshold key version).filter
      = if version.value.isSome then c.filter.insert scheme key else c.filter := by
  unfold push
  simp only
  split
  · rfl
  · split <;> rfl

/-! ## Keys that are stored -/

/-- The keys whose newest version is a value. -/
def liveStored (c : Column) : List Bytes := (c.chains.filter (·.2.isLive)).map (·.1)

/-- The keys that hold a value, but not in their newest version. -/
def lingering (c : Column) : List Bytes :=
  (c.chains.filter fun e => !e.2.isLive && e.2.any (·.value.isSome)).map (·.1)

/-- What a new filter gets are the live and the lingering keys. -/
theorem inserted_rebuildFilter (scheme : Filter.Scheme) (capacity : Nat) (c : Column) :
    (c.rebuildFilter scheme capacity).filter.inserted
      = c.liveStored.length + c.lingering.length := by
  -- A key that has a stored value is live or lingers, and not both.
  have hsplit : c.chains.countP (fun e => e.2.any (·.value.isSome))
      = c.chains.countP (·.2.isLive)
        + c.chains.countP fun e => !e.2.isLive && e.2.any (·.value.isSome) := by
    induction c.chains with
    | nil => rfl
    | cons e chains ih =>
      rw [List.countP_cons, List.countP_cons, List.countP_cons, ih]
      cases hlive : e.2.isLive with
      | true => simp [Chain.any_of_isLive hlive, Nat.add_right_comm]
      | false => simp [Nat.add_assoc]
  unfold rebuildFilter liveStored lingering
  simp only [Filter.inserted_insertAll, Filter.empty, Nat.zero_add, List.length_map,
    ← List.countP_eq_length_filter]
  exact hsplit

/-- What a new filter expects. -/
theorem capacity_rebuildFilter (hcounts : c.Counts) (capacity : Nat) :
    (c.rebuildFilter scheme capacity).filter.capacity
      = max (2 * c.liveStored.length) (max capacity 1) := by
  unfold rebuildFilter liveStored
  simp only [Filter.capacity_insertAll, Filter.empty, List.length_map,
    ← List.countP_eq_length_filter, hcounts.liveKeys_eq]
  omega

/-- A key is live if it has a value now. -/
theorem mem_liveStored (h : c.chains.Sorted) :
    key ∈ c.liveStored ↔ (c.valueAt .latest key).isSome := by
  unfold liveStored valueAt chain
  constructor
  · intro hkey
    obtain ⟨⟨k, chain⟩, hmem, rfl⟩ := List.mem_map.mp hkey
    obtain ⟨hmem, hlive⟩ := List.mem_filter.mp hmem
    rw [(KeyMap.get?_eq_some_iff h).mpr hmem]
    exact hlive
  · intro hsome
    -- A key without a chain has no value.
    cases hget : c.chains.get? key with
    | none =>
      rw [hget] at hsome
      simp at hsome
    | some chain =>
      rw [hget] at hsome
      exact List.mem_map.mpr ⟨(key, chain),
        List.mem_filter.mpr ⟨KeyMap.mem_of_get? hget, hsome⟩, rfl⟩

/-- A key lingers if it has no value now, but some version of it that is still stored has one. -/
theorem mem_lingering (h : c.chains.Sorted) :
    key ∈ c.lingering
      ↔ c.valueAt .latest key = none ∧ ∃ v ∈ c.chain key, v.value.isSome = true := by
  unfold lingering valueAt chain
  constructor
  · intro hkey
    obtain ⟨⟨k, chain⟩, hmem, rfl⟩ := List.mem_map.mp hkey
    obtain ⟨hmem, hholds⟩ := List.mem_filter.mp hmem
    rw [Bool.and_eq_true, Bool.not_eq_true', List.any_eq_true] at hholds
    rw [(KeyMap.get?_eq_some_iff h).mpr hmem]
    exact ⟨Option.isSome_eq_false_iff.mp hholds.1 |> Option.isNone_iff_eq_none.mp, hholds.2⟩
  · rintro ⟨hnone, v, hv, hvalue⟩
    cases hget : c.chains.get? key with
    | none =>
      rw [hget] at hv
      cases hv
    | some chain =>
      rw [hget] at hnone hv
      refine List.mem_map.mpr ⟨(key, chain), List.mem_filter.mpr ⟨KeyMap.mem_of_get? hget, ?_⟩, rfl⟩
      rw [Bool.and_eq_true, Bool.not_eq_true', List.any_eq_true]
      exact ⟨by rw [Chain.isLive]; exact congrArg Option.isSome hnone, v, hv, hvalue⟩

/-- No key is live and lingering, and none is stored twice. -/
theorem nodup_stored (h : c.chains.Sorted) : (c.liveStored ++ c.lingering).Nodup := by
  have hnodup : ∀ p, ((c.chains.filter p).map (·.1)).Nodup := fun p =>
    List.Pairwise.map _ (fun x y hlt heq => List.lt_irrefl _ (heq ▸ hlt)) (h.filter p)
  refine List.nodup_append.mpr ⟨hnodup _, hnodup _, fun key hlive key' hlingers heq => ?_⟩
  have hsome := (mem_liveStored h).mp hlive
  rw [heq, ((mem_lingering h).mp hlingers).1] at hsome
  cases hsome

end Column

/-! ## Batches -/

namespace Engine

variable {scheme : Filter.Scheme} {options : Options} {threshold sequence : Nat} {c : Column}
  {batch : WriteBatch}

/-- An operation adds the key that it puts, and no other. -/
theorem filter_applyOp (c : Column) (op : WriteOp) :
    (applyOp scheme threshold sequence c op).filter
      = op.putKey?.toList.foldl (Filter.insert scheme) c.filter := by
  cases op with
  | put key value => exact Column.filter_push ..
  | delete key => exact Column.filter_push ..
  | deleteRange range =>
    -- A deleted range is one tombstone for each live key of it.
    have hkeys : ∀ (keys : List Bytes) (c : Column),
        (keys.foldl (fun c key => c.push scheme threshold key ⟨sequence, none⟩) c).filter
          = c.filter := by
      intro keys
      induction keys with
      | nil => exact fun _ => rfl
      | cons key keys ih =>
        exact fun c => (ih _).trans (Column.filter_push scheme threshold c key _)
    exact hkeys _ c

/-- The operations of a batch enter the keys that it puts, in their order. -/
theorem filter_applyOps (batch : WriteBatch) (c : Column) :
    (batch.foldl (applyOp scheme threshold sequence) c).filter
      = batch.putKeys.foldl (Filter.insert scheme) c.filter := by
  induction batch generalizing c with
  | nil => rfl
  | cons op batch ih =>
    rw [List.foldl_cons, ih, filter_applyOp]
    unfold WriteBatch.putKeys
    cases hkey : op.putKey? with
    | none => rw [List.filterMap_cons_none hkey]; rfl
    | some key => rw [List.filterMap_cons_some hkey]; rfl

/-- A batch that the filter has room for adds its keys. -/
theorem filter_applyBatch_of_fits
    (hfits : c.filter.inserted + batch.putKeys.length ≤ c.filter.capacity) :
    (applyBatch options threshold sequence c batch).filter
      = batch.putKeys.foldl (Filter.insert options.scheme) c.filter := by
  have hfilter : (batch.foldl (applyOp options.scheme threshold sequence) c).filter
      = batch.putKeys.foldl (Filter.insert options.scheme) c.filter := filter_applyOps batch c
  unfold applyBatch
  rw [if_neg ?_]
  · exact hfilter
  · rw [hfilter, Filter.isSaturated_iff, Filter.inserted_insertAll, Filter.capacity_insertAll]
    omega

/-- A batch that the filter has no room for makes it anew. -/
theorem filter_applyBatch_of_exceeds
    (hexceeds : c.filter.capacity < c.filter.inserted + batch.putKeys.length) :
    (applyBatch options threshold sequence c batch).filter
      = ((applyBatch options threshold sequence c batch).rebuildFilter options.scheme
          options.filterCapacity).filter := by
  unfold applyBatch
  rw [if_pos ?_]
  · rfl
  · rw [filter_applyOps, Filter.isSaturated_iff, Filter.inserted_insertAll,
      Filter.capacity_insertAll]
    exact hexceeds

/-- **A batch leaves a saturated filter exactly if it made a new one that is too small**: one for
which the live and the lingering keys are more than twice the live ones, and more than the least
capacity. -/
theorem isSaturated_applyBatch
    (hcounts : (applyBatch options threshold sequence c batch).Counts) :
    (applyBatch options threshold sequence c batch).filter.isSaturated = true
      ↔ c.filter.capacity < c.filter.inserted + batch.putKeys.length ∧
        let c' := applyBatch options threshold sequence c batch
        max (2 * c'.liveStored.length) (max options.filterCapacity 1)
          < c'.liveStored.length + c'.lingering.length := by
  rw [Filter.isSaturated_iff]
  rcases Nat.lt_or_ge c.filter.capacity (c.filter.inserted + batch.putKeys.length) with
    hexceeds | hfits
  · rw [filter_applyBatch_of_exceeds hexceeds, Column.inserted_rebuildFilter,
      Column.capacity_rebuildFilter hcounts]
    exact ⟨fun hlt => ⟨hexceeds, hlt⟩, fun h => h.2⟩
  · rw [filter_applyBatch_of_fits hfits, Filter.inserted_insertAll, Filter.capacity_insertAll]
    exact ⟨fun hlt => absurd hlt (Nat.not_lt.mpr hfits), fun h => h.1⟩

variable {e e' : Engine} {n : Nat}

/-- The options of an engine never change. -/
theorem Evolves.options_eq (h : e.Evolves e') : e'.options = e.options := by
  induction h with
  | refl => rfl
  | answer _ call ih => exact (changes_answer _ call).options_eq.trans ih
  | unpin _ s ih => exact ih
  | close _ ih => exact ih

/-- A batch that an open engine applies, and the column after it. -/
theorem exists_write (hopen : e.isClosed = false) (hc : e.columns[n]? = some c) (hne : batch ≠ []) :
    ∃ e', e.write n batch = .ok e' ∧ e.Evolves e' ∧ e'.isClosed = false ∧
      e'.columns[n]?
        = some (applyBatch e.options e.pruneThreshold (e.sequence + 1) c batch) := by
  have hwrite := write_of_open hopen hc hne
  have hevolves : e.Evolves (e.answer (.write n batch)).2 := .answer .refl _
  have hlt : n < e.columns.length := (List.getElem?_eq_some_iff.mp hc).1
  refine ⟨_, hwrite, ?_, hopen, List.getElem?_set_self hlt⟩
  simpa only [answer, writing, hwrite] using hevolves

end Engine

/-! ## Sessions -/

namespace Session

/-- **When a filter is saturated.**  After any run, a batch that the filter of its column has room
for adds its keys to the filter; any other batch makes the filter anew.  The filter is saturated
after the batch exactly if it was made anew and the keys that hold a value in some version, live or
lingering, are more than it expects: twice the live keys, and at least the capacity that the engine
was made with.  After a batch that left the filter saturated the next one makes it anew again,
whatever is in that batch. -/
theorem saturation_exact (options : Engine.Options) (acts : List Act) {n : Nat} {c : Column}
    {batch : WriteBatch} (hopen : (run options acts).engine.isClosed = false)
    (hc : (run options acts).engine.columns[n]? = some c) (hne : batch ≠ []) :
    ∃ (e' : Engine) (c' : Column) (live lingering : List Bytes),
      (run options acts).engine.write n batch = .ok e' ∧ e'.columns[n]? = some c' ∧
      (live ++ lingering).Nodup ∧
      (∀ key, key ∈ live ↔ (e'.newest n key).isSome) ∧
      (∀ key, key ∈ lingering ↔ e'.newest n key = none ∧ ∃ v ∈ c'.chain key, v.value.isSome) ∧
      (c.filter.inserted + batch.putKeys.length ≤ c.filter.capacity →
        c'.filter = batch.putKeys.foldl (Filter.insert options.scheme) c.filter) ∧
      (c.filter.capacity < c.filter.inserted + batch.putKeys.length →
        c'.filter = (c'.rebuildFilter options.scheme options.filterCapacity).filter) ∧
      (c'.filter.isSaturated ↔ c.filter.capacity < c.filter.inserted + batch.putKeys.length ∧
        max (2 * live.length) (max options.filterCapacity 1) < live.length + lingering.length) ∧
      (c'.filter.isSaturated → ∀ next : WriteBatch, next ≠ [] →
        ∃ e'' c'', e'.write n next = .ok e'' ∧ e''.columns[n]? = some c'' ∧
          c''.filter = (c''.rebuildFilter options.scheme options.filterCapacity).filter) := by
  have hevolves := evolves_run options acts
  obtain ⟨e', hwrite, hevolves', hopen', hc'⟩ := Engine.exists_write hopen hc hne
  have hoptions : (run options acts).engine.options = options := hevolves.options_eq
  have hoptions' : e'.options = options := hevolves'.options_eq.trans hoptions
  -- The counter of live keys decides for which capacity a filter is rebuilt, so it has to be right.
  have hcounts := (hevolves.trans hevolves').counts (Engine.counts_new options) _
    (List.mem_of_getElem? hc')
  rw [hoptions] at hc' hcounts
  refine ⟨e', _, _, _, hwrite, hc', Column.nodup_stored hcounts.sorted, fun key => ?_,
    fun key => ?_, Engine.filter_applyBatch_of_fits, Engine.filter_applyBatch_of_exceeds,
    Engine.isSaturated_applyBatch hcounts, fun hsaturated next hnext => ?_⟩
  · rw [Column.mem_liveStored hcounts.sorted, Engine.newest_of_open hopen' hc']
  · rw [Column.mem_lingering hcounts.sorted, Engine.newest_of_open hopen' hc']
  · obtain ⟨e'', hwrite', -, -, hc''⟩ := Engine.exists_write hopen' hc' hnext
    rw [hoptions'] at hc''
    refine ⟨e'', _, hwrite', hc'', Engine.filter_applyBatch_of_exceeds ?_⟩
    exact Nat.lt_of_lt_of_le (Filter.isSaturated_iff _ |>.mp hsaturated) (Nat.le_add_right ..)

/-- Two keys that were written and deleted linger beside a live one, so a filter for two keys gets
three.  It is made anew by the next batch, which only deletes a key that is not there. -/
theorem saturation_exact_of_lingering :
    let scheme : Filter.Scheme :=
      ⟨fun key => (key.length.toUInt64, 0), fun _ => ⟨64, 1, by decide, by decide⟩⟩
    let options : Engine.Options := { filterCapacity := 1, scheme }
    let e := (run options [.call (.createColumn "a"), .call (.put 0 [0] [7]),
      .call (.delete 0 [0]), .call (.put 0 [1] [7]), .call (.delete 0 [1])]).engine
    ∃ e' c' e'' c'', e.write 0 [.put [2] [7]] = .ok e' ∧ e'.columns[0]? = some c' ∧
      c'.filter.isSaturated = true ∧ e'.write 0 [.delete [3]] = .ok e'' ∧
      e''.columns[0]? = some c'' ∧ c''.filter = (c''.rebuildFilter scheme 1).filter := by
  intro scheme options e
  obtain ⟨c, hc⟩ : ∃ c, e.columns[0]? = some c := ⟨_, rfl⟩
  obtain ⟨e', c', live, lingering, hwrite, hc', -, -, -, -, -, -, hagain⟩ :=
    saturation_exact options _ (by decide +kernel) hc (List.cons_ne_nil (.put [2] [7]) [])
  have hsaturated : c'.filter.isSaturated = true := by
    have hcolumn : ((e.write 0 [.put [2] [7]]).toOption.bind (·.columns[0]?)).map
        (·.filter.isSaturated) = some true := by decide +kernel
    rw [show e.write 0 [.put [2] [7]] = .ok e' from hwrite] at hcolumn
    simpa only [Except.toOption, Option.bind_some, hc', Option.map_some, Option.some.injEq]
      using hcolumn
  obtain ⟨e'', c'', hwrite', hc'', hnew⟩ := hagain hsaturated [.delete [3]] (List.cons_ne_nil _ _)
  exact ⟨e', c', e'', c'', hwrite, hc', hsaturated, hwrite', hc'', hnew⟩

/-- A filter that was made anew can be saturated, and made anew again by the next batch: one that
was kept would count four keys after it. -/
theorem saturated_after_rebuild :
    let scheme : Filter.Scheme :=
      ⟨fun key => (key.length.toUInt64, 0), fun _ => ⟨64, 1, by decide, by decide⟩⟩
    let acts : List Act := [.call (.createColumn "a"), .call (.put 0 [0] [7]),
      .call (.delete 0 [0]), .call (.put 0 [1] [7]), .call (.delete 0 [1])]
    let counts (acts : List Act) : List (Nat × Nat × Bool) :=
      (run { filterCapacity := 1, scheme } acts).engine.columns.map fun c =>
        (c.filter.inserted, c.filter.capacity, c.filter.isSaturated)
    counts acts = [(2, 2, false)] ∧
      counts (acts ++ [.call (.put 0 [2] [7])]) = [(3, 2, true)] ∧
      counts (acts ++ [.call (.put 0 [2] [7]), .call (.put 0 [2] [8])]) = [(3, 2, true)] := by
  decide +kernel

end Session

end SnapshotStore
