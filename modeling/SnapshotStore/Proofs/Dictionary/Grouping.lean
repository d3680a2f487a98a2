import SnapshotStore.Proofs.Dictionary.Ranges

/-!
# Neighbours with one stem

Groups and stems are formed by comparing neighbours only.  On entries whose keys ascend this is
enough: cutting keys to a stem keeps their order, also where some keys are shorter than the stem, so
the entries of one stem stand together.  The stems without repetitions then ascend strictly
(`Dictionary.stemsOf_ascend`), and the groups of neighbours are the entries sorted out by stem
(`Dictionary.splitBy_eq_map_withStem`).
-/

namespace SnapshotStore

/-- Cutting keys to a stem keeps their order. -/
theorem Bytes.stem_le_stem {key key' : Bytes} (h : key ≤ key') (n : Nat) :
    key.stem n ≤ key'.stem n := by
  induction n generalizing key key' with
  | zero => exact List.nil_le _
  | succ n ih =>
    cases key with
    | nil => exact List.nil_le _
    | cons x key =>
      cases key' with
      | nil => exact absurd (List.nil_lt_cons x key) (List.not_lt.mpr h)
      | cons y key' =>
        rw [List.cons_le_cons_iff] at h
        rw [stem, stem, List.take_succ_cons, List.take_succ_cons, List.cons_le_cons_iff]
        exact h.imp_right fun ⟨hxy, hkey⟩ => ⟨hxy, ih hkey⟩

namespace Dictionary

variable {stemLen : Nat} {stem : Bytes} {entries group : List Entry}

/-- The stems of the keys of some entries, without repetitions. -/
def stemsOf (stemLen : Nat) (entries : List Entry) : List Bytes :=
  (entries.map (·.1.stem stemLen)).destutter (· ≠ ·)

/-- The entries whose keys have a stem. -/
def withStem (stemLen : Nat) (entries : List Entry) (stem : Bytes) : List Entry :=
  entries.filter fun e => e.1.stem stemLen = stem

theorem mem_withStem {e : Entry} :
    e ∈ withStem stemLen entries stem ↔ e ∈ entries ∧ e.1.stem stemLen = stem := by
  rw [withStem, List.mem_filter, decide_eq_true_eq]

/-- The stems of ascending keys ascend. -/
theorem pairwise_stem_le (h : KeyMap.Sorted entries) (stemLen : Nat) :
    (entries.map (·.1.stem stemLen)).Pairwise (· ≤ ·) :=
  List.pairwise_map.mpr (h.imp fun hlt => Bytes.stem_le_stem (List.le_of_lt hlt) stemLen)

/-- A stem is listed if some key has it. -/
theorem mem_stemsOf (h : KeyMap.Sorted entries) :
    stem ∈ stemsOf stemLen entries ↔ ∃ e ∈ entries, e.1.stem stemLen = stem := by
  rw [stemsOf, (pairwise_stem_le h stemLen).destutter_eq_dedup, List.mem_dedup, List.mem_map]

/-- No stem is listed twice, and they ascend. -/
theorem stemsOf_ascend (h : KeyMap.Sorted entries) (stemLen : Nat) :
    (stemsOf stemLen entries).Pairwise (· < ·) := by
  have hle := (pairwise_stem_le h stemLen).sublist (List.destutter_sublist (· ≠ ·) _)
  have hne : (stemsOf stemLen entries).Nodup := by
    rw [stemsOf, (pairwise_stem_le h stemLen).destutter_eq_dedup]
    exact List.nodup_dedup _
  exact hle.imp₂ (fun _ _ hle hne => (List.le_iff_lt_or_eq.mp hle).resolve_right hne) hne

/-- Before greater stems, the entries with the stem of a group are the group. -/
private theorem withStem_group (hstem : ∀ e ∈ group, e.1.stem stemLen = stem)
    (hgreater : ∀ e ∈ entries, stem < e.1.stem stemLen) :
    withStem stemLen (group ++ entries) stem = group := by
  rw [withStem, List.filter_append, List.filter_eq_self.mpr (by simpa using hstem),
    List.filter_eq_nil_iff.mpr, List.append_nil]
  intro e he
  simpa using (Std.ne_of_lt (hgreater e he)).symm

/-- A group of another stem has no entry with a stem. -/
private theorem withStem_append_of_ne {other : Bytes}
    (hstem : ∀ e ∈ group, e.1.stem stemLen = stem) (hne : stem ≠ other) :
    withStem stemLen (group ++ entries) other = withStem stemLen entries other := by
  rw [withStem, List.filter_append, List.filter_eq_nil_iff.mpr, List.nil_append, withStem]
  intro e he
  simpa [hstem e he] using hne

/-- Behind a group of one stem, the groups of neighbours are the entries sorted out by stem.  The
induction moves the entries into the group, until one of them has a greater stem. -/
private theorem splitBy_group_append (hne : group ≠ [])
    (hstem : ∀ e ∈ group, e.1.stem stemLen = stem)
    (hsorted : (stem :: entries.map (·.1.stem stemLen)).Pairwise (· ≤ ·)) :
    (group ++ entries).splitBy (sharesStem stemLen)
      = ((entries.map (·.1.stem stemLen)).destutter' (· ≠ ·) stem).map
          (withStem stemLen (group ++ entries)) := by
  induction entries generalizing group stem with
  | nil =>
    rw [splitBy_of_stem (by simpa using hne) (by simpa using hstem), List.map_nil,
      List.destutter'_nil, List.map_singleton, withStem_group hstem (by simp), List.append_nil]
  | cons entry rest ih =>
    rw [List.map_cons] at hsorted ⊢
    have hrest := (List.pairwise_cons.mp hsorted).2
    by_cases hsame : entry.1.stem stemLen = stem
    · subst hsame
      have hgrown : ∀ e ∈ group ++ [entry], e.1.stem stemLen = entry.1.stem stemLen := fun e he =>
        (List.mem_append.mp he).elim (hstem e) fun he => by rw [List.mem_singleton.mp he]
      rw [List.destutter'_cons_neg _ (not_not.mpr rfl), List.append_cons]
      exact ih (by simp) hgrown hrest
    · -- Everything from here on has a greater stem than the group.
      have hentry : stem < entry.1.stem stemLen :=
        (List.le_iff_lt_or_eq.mp (List.rel_of_pairwise_cons hsorted (by simp))).resolve_right
          (Ne.symm hsame)
      have hgreater : ∀ t ∈ (entry :: rest).map (·.1.stem stemLen), stem < t := by
        intro t ht
        rcases List.mem_cons.mp ht with rfl | ht
        · exact hentry
        · exact Std.lt_of_lt_of_le hentry (List.rel_of_pairwise_cons hrest ht)
      have hone : ∀ e ∈ [entry], e.1.stem stemLen = entry.1.stem stemLen := by simp
      rw [splitBy_append_of_ne hne hstem hsame, ih (by simp) hone hrest,
        List.destutter'_cons_pos _ (Ne.symm hsame), List.map_cons,
        withStem_group hstem fun e he => hgreater _ (List.mem_map.mpr ⟨e, he, rfl⟩)]
      refine congrArg (group :: ·) (List.map_congr_left fun t ht => ?_)
      have hmem := (List.destutter'_sublist _ (· ≠ ·) (entry.1.stem stemLen)).mem ht
      exact (withStem_append_of_ne hstem (Std.ne_of_lt (hgreater t hmem))).symm

/-- The groups of neighbours are the entries sorted out by stem. -/
theorem splitBy_eq_map_withStem (h : KeyMap.Sorted entries) (stemLen : Nat) :
    entries.splitBy (sharesStem stemLen)
      = (stemsOf stemLen entries).map (withStem stemLen entries) := by
  cases entries with
  | nil => rfl
  | cons entry rest =>
    have hone : ∀ e ∈ [entry], e.1.stem stemLen = entry.1.stem stemLen := by simp
    exact splitBy_group_append (List.cons_ne_nil entry []) hone (pairwise_stem_le h stemLen)

/-- Sorted out by stem, the entries are all there and in their order. -/
theorem flatMap_withStem (h : KeyMap.Sorted entries) (stemLen : Nat) :
    (stemsOf stemLen entries).flatMap (withStem stemLen entries) = entries := by
  rw [List.flatMap, ← splitBy_eq_map_withStem h, List.flatten_splitBy]

/-- Every group has the stem that is listed for it, and none is empty. -/
theorem forall₂_splitBy_stemsOf (h : KeyMap.Sorted entries) (stemLen : Nat) :
    List.Forall₂ (fun group stem => group ≠ [] ∧ ∀ e ∈ group, e.1.stem stemLen = stem)
      (entries.splitBy (sharesStem stemLen)) (stemsOf stemLen entries) := by
  rw [splitBy_eq_map_withStem h, List.forall₂_map_left_iff, List.forall₂_same]
  intro stem hstem
  obtain ⟨e, he, hstem⟩ := (mem_stemsOf h).mp hstem
  exact ⟨List.ne_nil_of_mem (mem_withStem.mpr ⟨he, hstem⟩), fun e he => (mem_withStem.mp he).2⟩

end Dictionary

end SnapshotStore
