import SnapshotStore.Engine.KeyMap

/-!
# Lookups in ordered maps

A map is read through `KeyMap.get?`.  On maps whose keys ascend strictly, a lookup finds exactly the
bindings of the list, and every operation is one equation for lookups: `get?_alter` for a change of
one key, `get?_filterMap` for a change of all values, `mem_within` for an interval.

An interval given by the bounds of a range holds exactly the keys of the range
(`KeyRange.admits_bounds`).
-/

namespace SnapshotStore

namespace KeyMap

variable {α β : Type}

/-- The keys ascend strictly. -/
def Sorted (m : KeyMap α) : Prop := m.Pairwise fun x y => x.1 < y.1

/-- The empty map is sorted. -/
theorem sorted_nil : Sorted ([] : KeyMap α) := List.Pairwise.nil

/-- Some entries of a sorted map are sorted. -/
theorem Sorted.filter {m : KeyMap α} (h : m.Sorted) (p : Bytes × α → Bool) :
    Sorted (m.filter p) := List.Pairwise.filter p h

/-- A sorted map without its first entry is sorted. -/
theorem Sorted.tail {e : Bytes × α} {m : KeyMap α} (h : Sorted (e :: m)) : Sorted m :=
  (List.pairwise_cons.mp h).2

/-! ## Lookups -/

/-- A value that is found under a key is stored there. -/
theorem mem_of_get? {m : KeyMap α} {key : Bytes} {v : α} (h : m.get? key = some v) :
    (key, v) ∈ m := by
  induction m with
  | nil => simp [get?] at h
  | cons e m ih =>
    obtain ⟨k, w⟩ := e
    unfold get? at h
    split at h
    · rename_i hk
      obtain rfl := hk
      simp_all
    · exact List.mem_cons_of_mem _ (ih h)

/-- A lookup finds exactly the bindings of the list. -/
theorem get?_eq_some_iff {m : KeyMap α} (h : m.Sorted) {key : Bytes} {v : α} :
    m.get? key = some v ↔ (key, v) ∈ m := by
  refine ⟨mem_of_get?, fun hv => ?_⟩
  induction m with
  | nil => simp at hv
  | cons e m ih =>
    obtain ⟨k, w⟩ := e
    have hlt := (List.pairwise_cons.mp h).1
    unfold get?
    rcases List.mem_cons.mp hv with hv' | hv'
    · simp_all
    · have hne : k ≠ key := fun hk => List.lt_irrefl key (by simpa [hk] using hlt _ hv')
      rw [if_neg hne]
      exact ih h.tail hv'

/-- Nothing is found under a key that no entry has. -/
theorem get?_eq_none_iff {m : KeyMap α} {key : Bytes} :
    m.get? key = none ↔ ∀ e ∈ m, e.1 ≠ key := by
  induction m with
  | nil => simp [get?]
  | cons e m ih =>
    obtain ⟨k, w⟩ := e
    unfold get?
    by_cases hk : k = key
    · simp [hk]
    · simp [hk, ih]

/-! ## Changes of one key -/

/-- What a map may hold after a change of one key. -/
theorem mem_alter {m : KeyMap α} {key : Bytes} {f : Option α → Option α} {e : Bytes × α}
    (h : e ∈ m.alter key f) : e.1 = key ∨ e ∈ m := by
  induction m with
  | nil =>
    simp only [alter, List.mem_map] at h
    obtain ⟨v, -, rfl⟩ := h
    exact .inl rfl
  | cons x m ih =>
    obtain ⟨k, w⟩ := x
    unfold alter at h
    -- The key goes before the first entry, or is that entry's, or goes behind it.
    split at h
    · rcases List.mem_append.mp h with h | h
      · obtain ⟨v, -, rfl⟩ := List.mem_map.mp h
        exact .inl rfl
      · exact .inr h
    · split at h
      · rcases List.mem_append.mp h with h | h
        · obtain ⟨v, -, rfl⟩ := List.mem_map.mp h
          exact .inl rfl
        · exact .inr (List.mem_cons_of_mem _ h)
      · rcases List.mem_cons.mp h with rfl | h
        · exact .inr (by simp)
        · exact (ih h).imp id (List.mem_cons_of_mem _)

/-- At most one binding in front of a map stays in order if its key lies below all others. -/
private theorem sorted_toList_append {key : Bytes} {o : Option α} {m : KeyMap α} (h : m.Sorted)
    (hlt : ∀ e ∈ m, key < e.1) : Sorted (o.toList.map (key, ·) ++ m) := by
  cases o with
  | none => simpa using h
  | some v => exact List.pairwise_cons.mpr ⟨hlt, h⟩

/-- A change at one key keeps the order of the keys. -/
theorem Sorted.alter {m : KeyMap α} (h : m.Sorted) (key : Bytes) (f : Option α → Option α) :
    Sorted (m.alter key f) := by
  induction m with
  | nil => simpa [KeyMap.alter] using sorted_toList_append (o := f none) sorted_nil (by simp)
  | cons x m ih =>
    obtain ⟨k, w⟩ := x
    have hlt := (List.pairwise_cons.mp h).1
    unfold KeyMap.alter
    split
    · rename_i hk
      refine sorted_toList_append h fun e he => ?_
      rcases List.mem_cons.mp he with rfl | he
      · exact hk
      · exact List.lt_trans hk (hlt e he)
    · rename_i hk
      split
      · -- The key is that of the first entry, whose place it takes.
        rename_i hkey
        exact sorted_toList_append h.tail (by simpa [hkey] using hlt)
      · rename_i hkey
        refine List.pairwise_cons.mpr ⟨fun e he => ?_, ih h.tail⟩
        -- Whatever the change leaves behind the first entry was there or is at the key, which is
        -- behind it too.
        rcases mem_alter he with heq | he
        · rw [heq]
          rcases Std.lt_trichotomy k key with hlt | heq | hgt
          · exact hlt
          · exact absurd heq.symm hkey
          · exact absurd hgt hk
        · exact hlt e he

/-- Before a map without the key, the new entry is what is found under it. -/
private theorem get?_toList_append {key : Bytes} {o : Option α} {m : KeyMap α}
    (hne : ∀ e ∈ m, e.1 ≠ key) (k : Bytes) :
    get? (o.toList.map (key, ·) ++ m) k = if k = key then o else m.get? k := by
  cases o with
  | none =>
    by_cases hk : k = key
    · subst hk
      simpa using get?_eq_none_iff.mpr hne
    · simp [hk]
  | some v =>
    by_cases hk : k = key
    · simp [get?, hk]
    · simp [get?, hk, Ne.symm hk]

/-- A change of one key is seen at that key alone. -/
theorem get?_alter {m : KeyMap α} (h : m.Sorted) (key : Bytes) (f : Option α → Option α)
    (k : Bytes) : (m.alter key f).get? k = if k = key then f (m.get? key) else m.get? k := by
  induction m with
  | nil => simpa [alter, get?] using get?_toList_append (o := f none) (m := []) (by simp) k
  | cons x m ih =>
    obtain ⟨k', w⟩ := x
    have hlt := (List.pairwise_cons.mp h).1
    unfold alter
    split
    · -- The key goes before the first one, so it was not there.
      rename_i hk
      have hne : ∀ e ∈ (k', w) :: m, e.1 ≠ key := fun e he heq => by
        subst heq
        rcases List.mem_cons.mp he with rfl | he
        · exact List.lt_irrefl _ hk
        · exact List.lt_irrefl _ (List.lt_trans hk (hlt e he))
      rw [get?_toList_append hne, get?_eq_none_iff.mpr hne]
    · split
      · rename_i hkey
        subst hkey
        have hne : ∀ e ∈ m, e.1 ≠ key := fun e he heq =>
          List.lt_irrefl key (by simpa [heq] using hlt e he)
        rw [get?_toList_append hne]
        by_cases hk : k = key
        · simp [get?, hk]
        · simp [get?, hk, Ne.symm hk]
      · -- The key is behind the first one, which may be the one that is looked up.
        rename_i hkey
        by_cases hk : k' = k
        · subst hk
          simp [get?, Ne.symm hkey]
        · rw [get?, if_neg hk, ih h.tail]
          simp [get?, hk, Ne.symm hkey]

/-- A new entry in front counts once if it has the property. -/
private theorem countP_toList_append (key : Bytes) (o : Option α) (m : KeyMap α) (p : α → Bool) :
    (o.toList.map (key, ·) ++ m).countP (p ·.2) = m.countP (p ·.2) + (o.any p).toNat := by
  cases o with
  | none => rfl
  | some v => cases hv : p v <;> simp [hv]

/-- A change of one key changes a count of values by what it takes away and what it adds. -/
theorem countP_alter {m : KeyMap α} (h : m.Sorted) (key : Bytes) (f : Option α → Option α)
    (p : α → Bool) :
    (m.alter key f).countP (p ·.2) + ((m.get? key).any p).toNat
      = m.countP (p ·.2) + ((f (m.get? key)).any p).toNat := by
  induction m with
  | nil => simpa [alter, get?] using countP_toList_append key (f none) [] p
  | cons x m ih =>
    obtain ⟨k, v⟩ := x
    have hlt := (List.pairwise_cons.mp h).1
    unfold alter
    split
    · rename_i hk
      -- The key goes before all others, so nothing was there.
      have hnone : get? ((k, v) :: m) key = none := get?_eq_none_iff.mpr fun e he heq => by
        rcases List.mem_cons.mp he with rfl | he
        · exact List.lt_irrefl key (heq ▸ hk)
        · exact List.lt_irrefl key (List.lt_trans hk (heq ▸ hlt e he : k < key))
      rw [hnone, countP_toList_append]
      rfl
    · split
      · rename_i hkey
        have hsome : get? ((k, v) :: m) key = some v := by rw [get?, if_pos hkey.symm]
        rw [hsome, countP_toList_append]
        cases hv : p v <;> simp [hv]
        omega
      · rename_i hkey
        -- The key is behind the first entry, which is counted on both sides.
        have hrest : get? ((k, v) :: m) key = get? m key := by rw [get?, if_neg (Ne.symm hkey)]
        have hcount := ih h.tail
        rw [hrest, List.countP_cons, List.countP_cons]
        omega

/-! ## Changes of all values -/

/-- A value after a change of all values comes from one before, under the same key. -/
theorem mem_filterMap {m : KeyMap α} {f : α → Option β} {key : Bytes} {v : β} :
    (key, v) ∈ m.filterMap (fun e => (f e.2).map (e.1, ·)) ↔
      ∃ w, (key, w) ∈ m ∧ f w = some v := by
  simp only [List.mem_filterMap, Option.map_eq_some_iff]
  constructor
  · rintro ⟨⟨k, w⟩, hmem, u, hu, heq⟩
    obtain ⟨rfl, rfl⟩ := Prod.mk.injEq .. ▸ heq
    exact ⟨w, hmem, hu⟩
  · rintro ⟨w, hmem, hw⟩
    exact ⟨(key, w), hmem, v, hw, rfl⟩

/-- A change of all values keeps the order of the keys. -/
theorem Sorted.filterMap {m : KeyMap α} (h : m.Sorted) (f : α → Option β) :
    Sorted (m.filterMap fun e => (f e.2).map (e.1, ·)) := by
  refine List.Pairwise.filterMap _ (fun x y hxy x' hx y' hy => ?_) h
  obtain ⟨u, -, rfl⟩ := Option.map_eq_some_iff.mp hx
  obtain ⟨v, -, rfl⟩ := Option.map_eq_some_iff.mp hy
  exact hxy

/-- A change of all values is seen through every lookup. -/
theorem get?_filterMap {m : KeyMap α} (h : m.Sorted) (f : α → Option β) (key : Bytes) :
    get? (m.filterMap fun e => (f e.2).map (e.1, ·)) key = (m.get? key).bind f := by
  ext v
  rw [get?_eq_some_iff (h.filterMap f), mem_filterMap]
  simp only [Option.bind_eq_some_iff, get?_eq_some_iff h]

/-! ## Intervals -/

/-- The entries of an interval are those with a key between its ends. -/
theorem mem_within {m : KeyMap α} {lo hi : Bound} {e : Bytes × α} :
    e ∈ m.within lo hi ↔ e ∈ m ∧ lo.admitsAbove e.1 ∧ hi.admitsBelow e.1 := by
  simp [within]

/-- The entries of an interval are sorted. -/
theorem Sorted.within {m : KeyMap α} (h : m.Sorted) (lo hi : Bound) : Sorted (m.within lo hi) :=
  h.filter _

end KeyMap

namespace KeyRange

/-- The keys between the bounds of a range are the keys of the range. -/
theorem admits_bounds (r : KeyRange) (key : Bytes) :
    (r.lowerBound.admitsAbove key ∧ r.upperBound.admitsBelow key) ↔ r.contains key := by
  obtain ⟨lower, upper, ordered⟩ := r
  cases lower with
  | none => cases upper <;> simp [lowerBound, upperBound, contains, singleKey?, Bound.admitsAbove,
      Bound.admitsBelow]
  | some lo =>
    cases upper with
    | none => simp [lowerBound, upperBound, contains, singleKey?, Bound.admitsAbove,
        Bound.admitsBelow]
    | some hi =>
      -- A range of one key is told by two ends that admit the key itself; any other range leaves
      -- out its upper end.
      by_cases heq : lo = hi
      · subst heq
        simp only [lowerBound, upperBound, contains, singleKey?, Bound.admitsAbove,
          Bound.admitsBelow, if_pos, decide_eq_true_eq]
        exact ⟨fun h => List.le_antisymm h.2 h.1, fun h => h ▸ ⟨List.le_refl _, List.le_refl _⟩⟩
      · simp [lowerBound, upperBound, contains, singleKey?, Bound.admitsAbove, Bound.admitsBelow,
          heq]

end KeyRange

end SnapshotStore
