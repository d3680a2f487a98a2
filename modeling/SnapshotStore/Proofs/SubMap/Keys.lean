import SnapshotStore.Proofs.KeyLayout
import SnapshotStore.Proofs.Database.Plain
import SnapshotStore.SubMap

/-!
# The keys of a nested map

A nested map that was made has a stem of the width of its layout, and of the keys of the width of
its layout its range has exactly those that start with the stem (`SubMap.Selects`); the whole
dictionary is the case of no stem.  So what the map writes lies in its range, and what it finds
there are tails behind its stem.
-/

namespace SnapshotStore

namespace SubMap

variable {A : SubMap} {d : Dictionary} {stem tail key : Bytes} {layout : KeyLayout}

/-- A nested map is where its stem says. -/
structure Selects (A : SubMap) : Prop where
  /-- The stem has the width of the layout. -/
  length_stem : A.stem.length = A.layout.stemLen
  /-- Of the keys of the width of the layout, the range has those that start with the stem. -/
  contains_iff : ∀ key : Bytes, key.length = A.layout.keyLen →
    (A.range.contains key = true ↔ A.stem <+: key)
  /-- A range without bounds is the range of no stem. -/
  isAll_iff : A.range.isAll = true ↔ A.layout.stemLen = 0

/-- A layout refuses a stem of another width. -/
theorem firstKey_cases (layout : KeyLayout) (stem : Bytes) :
    (stem.length = layout.stemLen ∧ ∃ key, layout.firstKey stem = .ok key) ∨
      ∃ e, layout.firstKey stem = .error e := by
  unfold KeyLayout.firstKey KeyLayout.checkWidth
  split
  · rename_i hwidth
    exact .inl ⟨hwidth, _, rfl⟩
  · exact .inr ⟨_, rfl⟩

/-- The range of a stem has bounds. -/
theorem isAll_of_range_eq_ok {range : KeyRange} (h : layout.range stem = .ok range) :
    range.isAll = false := by
  unfold KeyLayout.range KeyLayout.spanning KeyRange.between at h
  rcases firstKey_cases layout stem with ⟨hwidth, lo, hlo⟩ | ⟨e, he⟩
  · have hhi : layout.nextKey stem = .ok (KeyLayout.boundAfter stem layout.tailLen) := by
      simp [KeyLayout.nextKey, KeyLayout.checkWidth, hwidth, bind, Except.bind, pure, Except.pure]
    rw [hlo, hhi] at h
    simp only [bind, Except.bind] at h
    split at h
    · cases h
      rfl
    · cases h
  · rw [he] at h
    cases h

/-- A nested map that is made has what it was made from, and is where its stem says. -/
theorem new_eq_ok (h : new d stem layout = .ok A) :
    A.dictionary = d ∧ A.stem = stem ∧ A.layout = layout ∧ A.Selects := by
  unfold new at h
  split at h
  · rename_i hroot
    rcases firstKey_cases layout stem with ⟨hwidth, lo, hlo⟩ | ⟨e, he⟩
    · rw [hlo] at h
      cases h
      have hnil : stem = [] := List.eq_nil_of_length_eq_zero (hwidth.trans hroot)
      refine ⟨rfl, rfl, rfl, hwidth, fun key _ => ?_, iff_of_true rfl hroot⟩
      subst hnil
      exact iff_of_true rfl (List.nil_prefix)
    · rw [he] at h
      cases h
  · rename_i hroot
    cases hrange : layout.range stem with
    | ok range =>
      rw [hrange] at h
      cases h
      have hwidth : stem.length = layout.stemLen := by
        rcases firstKey_cases layout stem with ⟨hwidth, -⟩ | ⟨e, he⟩
        · exact hwidth
        · rw [KeyLayout.range, he] at hrange
          cases hrange
      obtain ⟨exact, hexact, -, hcontains⟩ := KeyLayout.spanning_exact stem layout.tailLen
      rw [← KeyLayout.range_eq_spanning hwidth] at hexact
      obtain rfl : range = exact := Except.ok.inj (hrange.symm.trans hexact)
      refine ⟨rfl, rfl, rfl, hwidth, fun key hkey => ?_, ?_⟩
      · rw [KeyLayout.keyLen, Nat.add_assoc, ← hwidth] at hkey
        rw [hcontains key hkey, List.prefix_iff_eq_take, eq_comm]
      · rw [isAll_of_range_eq_ok hrange]
        simpa using hroot
    | error e =>
      rw [hrange] at h
      cases h

/-- There is a nested map under every stem of the width of its layout. -/
theorem exists_new_eq_ok (d : Dictionary) (h : stem.length = layout.stemLen) :
    ∃ A, new d stem layout = .ok A := by
  unfold new
  split
  · rcases firstKey_cases layout stem with ⟨-, lo, hlo⟩ | ⟨e, he⟩
    · rw [hlo]
      exact ⟨_, rfl⟩
    · simp [KeyLayout.firstKey, KeyLayout.checkWidth, h, bind, Except.bind, pure, Except.pure] at he
  · obtain ⟨range, hrange, -⟩ := KeyLayout.spanning_contains stem layout.tailLen
    rw [KeyLayout.range_eq_spanning h, hrange]
    exact ⟨_, rfl⟩

/-- Which nested maps there are does not depend on the dictionary. -/
theorem new_eq_map (d d' : Dictionary) (stem : Bytes) (layout : KeyLayout) :
    new d stem layout = (new d' stem layout).map fun A => { A with dictionary := d } := by
  unfold new
  split
  · cases layout.firstKey stem <;> rfl
  · cases layout.range stem <;> rfl

/-- A tail of the right length has a full key. -/
theorem fullKey_of_length (h : tail.length = A.layout.tailLen) :
    A.fullKey tail = .ok (A.stem ++ tail) := by
  simp [fullKey, refuse, KeyLayout.checkTail, KeyLayout.checkWidth, h, Except.mapError, bind,
    Except.bind, pure, Except.pure]

/-- A tail of another width is refused. -/
theorem fullKey_of_length_ne (h : tail.length ≠ A.layout.tailLen) :
    A.fullKey tail = .error (.invalidArgument
      (KeyLayout.Mismatch.width .tail tail.length A.layout.tailLen).message) := by
  simp [fullKey, refuse, KeyLayout.checkTail, KeyLayout.checkWidth, h, Except.mapError, bind,
    Except.bind]

/-- A key that a nested map writes has its stem and the width of its layout. -/
structure Owns (A : SubMap) (key : Bytes) : Prop where
  /-- The key starts with the stem. -/
  stem_prefix : A.stem <+: key
  /-- The key has the width of the layout. -/
  length_eq : key.length = A.layout.keyLen

/-- What a nested map writes: entries with keys of its own, and deletions in its range. -/
inductive Touches (A : SubMap) : WriteOp → Prop where
  | put {key : Bytes} (value : Bytes) (h : A.Owns key) : Touches A (.put key value)
  | delete {key : Bytes} (h : A.range.contains key = true) : Touches A (.delete key)
  | deleteRange : Touches A (.deleteRange A.range)

namespace Selects

/-- The full keys are owned. -/
theorem owns_append (h : A.Selects) (htail : tail.length = A.layout.tailLen) :
    A.Owns (A.stem ++ tail) where
  stem_prefix := List.prefix_append _ _
  length_eq := by
    rw [List.length_append, h.length_stem, htail, KeyLayout.keyLen, KeyLayout.tailLen,
      Nat.add_assoc]

/-- Owned keys are in the range. -/
theorem contains (h : A.Selects) (hkey : A.Owns key) : A.range.contains key = true :=
  (h.contains_iff key hkey.length_eq).mpr hkey.stem_prefix

/-- The tail of a key of the map. -/
theorem append_strip (h : A.Selects) (hkey : A.Owns key) : A.stem ++ A.strip key = key := by
  obtain ⟨tail, rfl⟩ := hkey.stem_prefix
  rw [strip, ← h.length_stem, List.drop_left]

@[simp] theorem strip_append (h : A.Selects) (tail : Bytes) : A.strip (A.stem ++ tail) = tail := by
  rw [strip, ← h.length_stem, List.drop_left]

/-- The entries that a map is to be replaced by have keys of the map. -/
theorem owns_of_mem_fullEntries (h : A.Selects) (entries : List Entry) :
    ∀ e ∈ (A.fullEntries entries).1, A.Owns e.1 := by
  induction entries with
  | nil => simp [fullEntries]
  | cons e rest ih =>
    obtain ⟨tail, value⟩ := e
    by_cases htail : tail.length = A.layout.tailLen
    · simp only [fullEntries, fullKey_of_length htail, List.mem_cons]
      rintro e (rfl | he)
      · exact h.owns_append htail
      · exact ih e he
    · simp [fullEntries, fullKey_of_length_ne htail]

end Selects

end SubMap

end SnapshotStore
