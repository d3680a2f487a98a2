import SnapshotStore.Proofs.Engine.Calls
import SnapshotStore.Proofs.Engine.Cursor

/-!
# The estimate is exact

A column counts its live keys as it is written to (`Column.Counts`).  A value adds one if its key
was not live, a tombstone takes one away if it was, and neither pruning nor compaction changes
whether a key is live.  So the estimate of an engine is the number of keys whose newest version is a
value.
-/

namespace SnapshotStore

namespace Chain

/-- A chain that is gone was not live. -/
theorem any_isLive (chain : Option Chain) : chain.any isLive = (chain.getD []).isLive := by
  cases chain <;> rfl

/-- Collecting a chain does not change whether its key is live. -/
theorem any_isLive_collect (threshold : Nat) (chain : Chain) :
    (chain.collect threshold).any isLive = chain.isLive := by
  have hspared : ReadView.latest.IsSpared threshold := trivial
  have hvalue : ((chain.collect threshold).getD []).valueAt .latest = chain.valueAt .latest :=
    valueAt_collect hspared
  rw [any_isLive, isLive, hvalue]
  rfl

end Chain

namespace Column

variable {c : Column} {scheme : Filter.Scheme} {threshold : Nat} {key : Bytes} {version : Version}

/-- The counter of a column is the number of its live keys. -/
structure Counts (c : Column) : Prop where
  /-- The keys ascend strictly. -/
  sorted : c.chains.Sorted
  /-- The counter is exact. -/
  liveKeys_eq : c.liveKeys = c.chains.countP (·.2.isLive)

/-- A column without chains counts no live keys. -/
theorem counts_empty (name : String) (capacity : Nat) : (empty scheme name capacity).Counts :=
  ⟨KeyMap.sorted_nil, rfl⟩

/-- A write to a key counts what the key becomes instead of what it was. -/
private theorem Counts.countP_alter (h : c.Counts) (threshold : Nat) (key : Bytes)
    (version : Version) :
    (c.chains.alter key fun old => Chain.collect threshold (version :: old.getD [])).countP
        (·.2.isLive) + (c.chain key).isLive.toNat = c.liveKeys + version.value.isSome.toNat := by
  have hcount := KeyMap.countP_alter h.sorted key
    (fun old => Chain.collect threshold (version :: old.getD [])) Chain.isLive
  rw [Chain.any_isLive, Chain.any_isLive_collect, ← h.liveKeys_eq] at hcount
  exact hcount

/-- The counter follows a write: it is raised for a key that becomes live and lowered for one that
does not stay so. -/
theorem Counts.push (h : c.Counts) : (c.push scheme threshold key version).Counts := by
  have hcount := h.countP_alter threshold key version
  unfold Column.push
  by_cases hvalue : version.value.isSome <;> by_cases hlive : (c.chain key).isLive
  · simp only [hvalue, hlive, if_true, Bool.toNat_true] at hcount ⊢
    exact ⟨h.sorted.alter _ _, (Nat.add_right_cancel hcount).symm⟩
  · simp only [hvalue, hlive, if_true, Bool.toNat_true, Bool.toNat_false, Bool.false_eq_true,
      if_false] at hcount ⊢
    exact ⟨h.sorted.alter _ _, hcount.symm⟩
  · simp only [hvalue, hlive, if_true, Bool.toNat_true, Bool.toNat_false, Bool.false_eq_true,
      if_false] at hcount ⊢
    exact ⟨h.sorted.alter _ _, Nat.sub_eq_of_eq_add hcount.symm⟩
  · simpa only [hvalue, hlive, Bool.false_eq_true, if_false] using h

/-- Compaction removes no live key, so the counter stays right. -/
theorem Counts.compact (h : c.Counts) (capacity : Nat) :
    (c.compact scheme threshold capacity).Counts := by
  refine ⟨h.sorted.filterMap _, ?_⟩
  have hlive : ∀ e : Bytes × Chain,
      (((e.2.collect threshold).map (e.1, ·)).map (·.2.isLive)).getD false = e.2.isLive := by
    intro e
    rw [← Chain.any_isLive_collect threshold e.2]
    cases e.2.collect threshold <;> rfl
  show c.liveKeys = List.countP _ (List.filterMap _ c.chains)
  rw [List.countP_filterMap, h.liveKeys_eq]
  simp only [hlive]

/-- The counter is the number of entries of the newest state. -/
theorem Counts.liveKeys_eq_length (h : c.Counts) {m : Contents}
    (hm : ∀ key, c.valueAt .latest key = m key) {entries : List Entry}
    (hlists : m.Lists .all entries) : c.liveKeys = entries.length := by
  have hall : c.chains.within KeyRange.all.lowerBound KeyRange.all.upperBound = c.chains :=
    List.filter_eq_self.mpr fun _ _ => rfl
  have hentries : (c.chains.within KeyRange.all.lowerBound KeyRange.all.upperBound).visibleEntries
      .latest = entries := by
    refine KeyMap.Sorted.eq_of_mem_iff ((h.sorted.within _ _).visibleEntries _) hlists.sorted
      fun ⟨key, value⟩ => ?_
    rw [mem_visibleEntries h.sorted, hm, hlists.mem_iff, KeyRange.admits_bounds, and_comm]
  rw [hall] at hentries
  rw [h.liveKeys_eq, ← hentries, KeyMap.visibleEntries, List.length_filterMap_eq_countP]
  simp only [Option.isSome_map, Chain.isLive]

end Column

namespace Engine

variable {e e' : Engine}

/-- The counters of all columns are exact. -/
def Counts (e : Engine) : Prop := ∀ c ∈ e.columns, c.Counts

/-- A new engine has no columns. -/
theorem counts_new (options : Options) : (new options).Counts := by simp [Counts, new]

/-- A change of an engine keeps its counters exact. -/
theorem Changes.counts {pinned : List Nat} (hchange : e.Changes pinned e') (h : e.Counts) :
    e'.Counts :=
  hchange.forall_columns (fun _ => Column.counts_empty _ _) (fun _ _ _ _ hc => hc.push)
    (fun _ hc => ⟨hc.sorted, hc.liveKeys_eq⟩) (fun _ _ hc => hc.compact _) h

end Engine

end SnapshotStore
