import Mathlib.Data.List.Lex
import SnapshotStore.KeyLayout

/-!
# The ranges of a layout are exact

A full-width key lies in the range of a stem if and only if it starts with that stem.  Below a bound
that is a head followed by zeros, the head decides alone, because nothing of the same width comes
before zeros.  So the lower bound asks for a head that is not below the stem.  The upper bound asks
for one that is below the successor of the stem, which means that it is not above the stem; a stem
that has no successor is the greatest head, and the key that ends its range is above every key of
the layout.
-/

namespace SnapshotStore

namespace KeyLayout

variable {head stem suffix next tail key : Bytes} {n zeros : Nat}

/-! ## Heads and tails -/

/-- Between keys whose heads have one width, the heads decide before the tails. -/
theorem append_lt_append_iff (h : head.length = stem.length) (tail tail' : Bytes) :
    head ++ tail < stem ++ tail' ↔ head < stem ∨ head = stem ∧ tail < tail' := by
  induction head generalizing stem with
  | nil =>
    obtain rfl := List.eq_nil_of_length_eq_zero h.symm
    simp
  | cons x head ih =>
    cases stem with
    | nil => simp at h
    | cons y stem =>
      rw [List.cons_append, List.cons_append, List.cons_lt_cons_iff, List.cons_lt_cons_iff,
        ih (by simpa using h), List.cons.injEq]
      tauto

/-- Nothing that is as wide comes before zeros. -/
theorem not_lt_zeros (h : n ≤ tail.length) : ¬ tail < List.replicate n 0 := by
  induction n generalizing tail with
  | zero => exact List.not_lt_nil tail
  | succ n ih =>
    cases tail with
    | nil => simp at h
    | cons x tail =>
      rw [List.replicate_succ, List.cons_lt_cons_iff]
      rintro (hlt | ⟨-, hlt⟩)
      · exact UInt8.not_lt_zero hlt
      · exact ih (by simpa using h) hlt

/-- Nothing comes after a byte string of the same width whose bytes are all `0xff`. -/
theorem le_full (h : head.length ≤ n) : head ≤ List.replicate n 0xff := by
  induction n generalizing head with
  | zero => simp [List.eq_nil_of_length_eq_zero (Nat.le_zero.mp h)]
  | succ n ih =>
    cases head with
    | nil => exact List.nil_le _
    | cons x head =>
      rw [List.replicate_succ, List.cons_le_cons_iff]
      have hx : x ≤ 0xff := UInt8.le_iff_toNat_le.mpr (Nat.le_of_lt_succ x.toNat_lt)
      rcases UInt8.lt_or_eq_of_le hx with hlt | heq
      · exact .inl hlt
      · exact .inr ⟨heq, ih (by simpa using h)⟩

/-- A wide enough key is below a head with zeros if its own head is below that head. -/
theorem append_lt_zeroExtend_iff (h : head.length = stem.length) (htail : zeros ≤ tail.length) :
    head ++ tail < zeroExtend stem zeros ↔ head < stem := by
  rw [zeroExtend, append_lt_append_iff h]
  simp [not_lt_zeros htail]

/-! ## Successors -/

/-- The successor is as long as its stem. -/
theorem length_of_successor_eq_some (h : successor? stem = some next) :
    next.length = stem.length := by
  induction stem generalizing next with
  | nil => simp [successor?] at h
  | cons b rest ih =>
    rw [successor?] at h
    split at h
    · rename_i rest' hrest
      obtain rfl := Option.some.inj h
      simp [ih hrest]
    · split at h
      · cases h
      · obtain rfl := Option.some.inj h
        simp

/-- Only the greatest byte string of its width has no successor. -/
theorem eq_full_of_successor_eq_none (h : successor? stem = none) :
    stem = List.replicate stem.length 0xff := by
  induction stem with
  | nil => rfl
  | cons b rest ih =>
    rw [successor?] at h
    split at h
    · cases h
    · rename_i hrest
      split at h
      · rename_i hb
        rw [List.length_cons, List.replicate_succ, ← ih hrest, hb]
      · cases h

/-- A byte below `0xff` has nothing between itself and the next byte. -/
private theorem lt_add_one_iff {x b : UInt8} (hb : b ≠ 0xff) : x < b + 1 ↔ x ≤ b := by
  have hne : b.toNat ≠ 255 := fun h => hb (UInt8.toNat_inj.mp h)
  have hlt := b.toNat_lt
  rw [UInt8.lt_iff_toNat_lt, UInt8.le_iff_toNat_le, UInt8.toNat_add]
  have hone : (1 : UInt8).toNat = 1 := rfl
  rw [hone, Nat.mod_eq_of_lt (by omega)]
  omega

/-- A byte string has nothing of its width between itself and its successor. -/
theorem lt_successor_iff (h : successor? stem = some next) (hlength : head.length = stem.length) :
    head < next ↔ head ≤ stem := by
  induction stem generalizing head next with
  | nil => simp [successor?] at h
  | cons b rest ih =>
    cases head with
    | nil => simp at hlength
    | cons x head =>
      have hhead : head.length = rest.length := by simpa using hlength
      rw [successor?] at h
      split at h
      · rename_i rest' hrest
        obtain rfl := Option.some.inj h
        rw [List.cons_lt_cons_iff, List.cons_le_cons_iff, ih hrest hhead]
      · rename_i hrest
        split at h
        · cases h
        · -- The last byte that is not `0xff` carries; behind it everything was full and becomes zero.
          rename_i hb
          obtain rfl := Option.some.inj h
          have hle : head ≤ rest := by
            rw [eq_full_of_successor_eq_none hrest]
            exact le_full (Nat.le_of_eq hhead)
          rw [List.cons_lt_cons_iff, List.cons_le_cons_iff, lt_add_one_iff hb,
            UInt8.le_iff_lt_or_eq]
          simp [hle, not_lt_zeros (Nat.le_of_eq hhead.symm)]

/-! ## Bounds -/

/-- The overflow key is above every key of its width. -/
theorem lt_overflowKey (h : key.length = n) : key < overflowKey n := by
  rw [overflowKey, ← List.append_nil key, append_lt_append_iff (by simpa using h)]
  rcases List.le_iff_lt_or_eq.mp (le_full (Nat.le_of_eq h)) with hlt | heq
  · exact .inl hlt
  · exact .inr ⟨heq, List.nil_lt_cons 0 []⟩

/-- A key of the width of the layout is below the end of a stem if its own head is not above it. -/
theorem append_lt_boundAfter_iff (h : head.length = stem.length) (htail : tail.length = zeros) :
    head ++ tail < boundAfter stem zeros ↔ head ≤ stem := by
  unfold boundAfter
  split
  · rename_i next hnext
    rw [append_lt_zeroExtend_iff (h.trans (length_of_successor_eq_some hnext).symm)
      (Nat.le_of_eq htail.symm), lt_successor_iff hnext h]
  · rename_i hnone
    have hkey : head ++ tail < overflowKey (stem.length + zeros) :=
      lt_overflowKey (by rw [List.length_append, h, htail])
    have hhead : head ≤ stem := by
      rw [eq_full_of_successor_eq_none hnone]
      exact le_full (Nat.le_of_eq h)
    exact iff_of_true hkey hhead

/-- The first key with a stem is below the end of the stem. -/
theorem zeroExtend_lt_boundAfter (stem : Bytes) (zeros : Nat) :
    zeroExtend stem zeros < boundAfter stem zeros :=
  (append_lt_boundAfter_iff rfl List.length_replicate).mpr (List.le_refl stem)

/-! ## Ranges -/

/-- The range from a stem with zeros up to the end of the stem holds the keys between the two, and
it is not read as a single key. -/
theorem spanning_contains (stem : Bytes) (zeros : Nat) :
    ∃ r, spanning (zeroExtend stem zeros) (boundAfter stem zeros) = .ok r ∧ r.isSingle = false ∧
      ∀ key : Bytes,
        r.contains key ↔ zeroExtend stem zeros ≤ key ∧ key < boundAfter stem zeros := by
  have hlt := zeroExtend_lt_boundAfter stem zeros
  have hle := List.le_of_lt hlt
  have hne : zeroExtend stem zeros ≠ boundAfter stem zeros := fun h =>
    List.lt_irrefl _ (h ▸ hlt)
  have hnone : KeyRange.singleKey?
      ⟨some (zeroExtend stem zeros), some (boundAfter stem zeros), by simpa using hle⟩ = none := by
    simp [KeyRange.singleKey?, hne]
  refine ⟨_, ?_, by rw [KeyRange.isSingle, hnone]; rfl, fun key => ?_⟩
  · rw [spanning, KeyRange.between, dif_pos hle]
    rfl
  · rw [KeyRange.contains, hnone]
    simp only [Option.all_some, Bool.and_eq_true, decide_eq_true_eq]

/-- The keys from a head with zeros up to the end of the head are the keys that start with it. -/
theorem spanning_exact (stem : Bytes) (zeros : Nat) :
    ∃ r, spanning (zeroExtend stem zeros) (boundAfter stem zeros) = .ok r ∧ r.isSingle = false ∧
      ∀ key : Bytes, key.length = stem.length + zeros →
        (r.contains key ↔ key.take stem.length = stem) := by
  obtain ⟨r, hr, hsingle, hcontains⟩ := spanning_contains stem zeros
  refine ⟨r, hr, hsingle, fun key hkey => ?_⟩
  have hhead : (key.take stem.length).length = stem.length := by
    rw [List.length_take]
    omega
  have htail : (key.drop stem.length).length = zeros := by
    rw [List.length_drop]
    omega
  have hlower : zeroExtend stem zeros ≤ key ↔ stem ≤ key.take stem.length := by
    rw [← List.not_lt, ← List.not_lt, ← append_lt_zeroExtend_iff hhead (Nat.le_of_eq htail.symm),
      List.take_append_drop]
  have hupper : key < boundAfter stem zeros ↔ key.take stem.length ≤ stem := by
    rw [← append_lt_boundAfter_iff hhead htail, List.take_append_drop]
  rw [hcontains, hlower, hupper]
  refine ⟨fun h => List.le_antisymm h.2 h.1, fun h => ?_⟩
  rw [h]
  exact ⟨List.le_refl stem, List.le_refl stem⟩

variable {l : KeyLayout}

/-- The range of a stem begins with zeros and ends behind the stem. -/
theorem range_eq_spanning (hstem : stem.length = l.stemLen) :
    l.range stem = spanning (zeroExtend stem l.tailLen) (boundAfter stem l.tailLen) := by
  simp [range, firstKey, nextKey, checkWidth, hstem, bind, Except.bind, pure, Except.pure]

/-- So does the range of a suffix. -/
theorem rangeOfSuffix_eq_spanning (hstem : stem.length = l.stemLen)
    (hsuffix : suffix.length = l.suffixLen) :
    l.rangeOfSuffix stem suffix
      = spanning (zeroExtend (stem ++ suffix) l.extLen) (boundAfter (stem ++ suffix) l.extLen) := by
  simp [rangeOfSuffix, firstKeyOfSuffix, nextKeyOfSuffix, checkWidth, hstem, hsuffix, bind,
    Except.bind, pure, Except.pure]

/-- Both ranges of a layout exist for every stem and suffix of its widths and are not read as single
keys.  A full-width key lies in the range of the stem exactly if it starts with the stem, and in the
range of the stem and suffix exactly if it starts with both. -/
theorem ranges_exact (hstem : stem.length = l.stemLen) (hsuffix : suffix.length = l.suffixLen) :
    (∃ r, l.range stem = .ok r ∧ r.isSingle = false ∧
      ∀ key : Bytes, key.length = l.keyLen → (r.contains key ↔ key.take l.stemLen = stem)) ∧
    ∃ r, l.rangeOfSuffix stem suffix = .ok r ∧ r.isSingle = false ∧
      ∀ key : Bytes, key.length = l.keyLen →
        (r.contains key ↔ key.take (l.stemLen + l.suffixLen) = stem ++ suffix) := by
  have hboth : (stem ++ suffix).length = l.stemLen + l.suffixLen := by
    rw [List.length_append, hstem, hsuffix]
  constructor
  · obtain ⟨r, hr, hsingle, hcontains⟩ := spanning_exact stem l.tailLen
    rw [hstem] at hcontains
    refine ⟨r, ?_, hsingle, fun key hkey => hcontains key ?_⟩
    · simpa [range, firstKey, nextKey, checkWidth, hstem, bind, Except.bind, pure, Except.pure]
        using hr
    · rw [hkey, keyLen, tailLen, Nat.add_assoc]
  · obtain ⟨r, hr, hsingle, hcontains⟩ := spanning_exact (stem ++ suffix) l.extLen
    rw [hboth] at hcontains
    refine ⟨r, ?_, hsingle, fun key hkey => hcontains key hkey⟩
    simpa [rangeOfSuffix, firstKeyOfSuffix, nextKeyOfSuffix, checkWidth, hstem, hsuffix, bind,
      Except.bind, pure, Except.pure] using hr

/-- The last stem and the carry out of a suffix are covered, as is a layout without extension. -/
theorem ranges_exact_of_full :
    (∃ r, (KeyLayout.mk 1 1 0).range [0xff] = .ok r ∧ r.isSingle = false ∧
      ∀ key : Bytes, key.length = 2 → (r.contains key ↔ key.take 1 = [0xff])) ∧
    ∃ r, (KeyLayout.mk 1 1 0).rangeOfSuffix [0x00] [0xff] = .ok r ∧ r.isSingle = false ∧
      ∀ key : Bytes, key.length = 2 → (r.contains key ↔ key.take 2 = [0x00, 0xff]) :=
  ⟨(@ranges_exact [0xff] [0xff] ⟨1, 1, 0⟩ rfl rfl).1,
    (@ranges_exact [0x00] [0xff] ⟨1, 1, 0⟩ rfl rfl).2⟩

end KeyLayout

end SnapshotStore
