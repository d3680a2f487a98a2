import SnapshotStore.Proofs.KeyLayout

/-!
# The ranges below a stem tile the range of the stem

Keys of other widths than the layout gives lie on the boundaries of its ranges, and still each of
them lies in exactly one.  The ranges of one width leave no gap: the end of a suffix is the first
key of the next one, and the end of the last suffix is the end of the stem itself, because the carry
runs on into the stem and both overflow keys are one.  They do not overlap, because the end of a
head is never above the first key of a greater one.

A key is traced to its suffix byte by byte: the next byte is found by climbing from the byte zero
until the range of the byte ends above the key.
-/

namespace SnapshotStore

namespace KeyLayout

variable {head stem suffix next tail key : Bytes} {n zeros : Nat}

/-- The key lies between a stem with zeros and the end of the stem. -/
def Covers (stem : Bytes) (zeros : Nat) (key : Bytes) : Prop :=
  zeroExtend stem zeros ≤ key ∧ key < boundAfter stem zeros

/-! ## Carrying -/

/-- The successor is formed in the tail, and in the head only when the tail has none. -/
theorem successor?_append (head tail : Bytes) :
    successor? (head ++ tail) = match successor? tail with
      | some next => some (head ++ next)
      | none => (successor? head).map (· ++ List.replicate tail.length 0) := by
  induction head with
  | nil =>
    rw [List.nil_append]
    cases successor? tail <;> rfl
  | cons b head ih =>
    rw [List.cons_append, successor?, ih]
    cases htail : successor? tail with
    | some next => rfl
    | none =>
      cases hhead : successor? head with
      | some next => simp [successor?, hhead]
      | none =>
        by_cases hb : b = 0xff
        · simp [successor?, hhead, hb]
        · simp [successor?, hhead, hb]

theorem zeroExtend_append (stem suffix : Bytes) (zeros : Nat) :
    zeroExtend (stem ++ suffix) zeros = stem ++ zeroExtend suffix zeros :=
  List.append_assoc ..

/-- Zeros at the end of a head are read as more zeros behind it. -/
theorem zeroExtend_append_replicate (stem : Bytes) (n zeros : Nat) :
    zeroExtend (stem ++ List.replicate n 0) zeros = zeroExtend stem (n + zeros) := by
  rw [zeroExtend_append, zeroExtend, zeroExtend, List.replicate_append_replicate]

/-- A suffix with a successor ends where its successor begins. -/
theorem boundAfter_append_of_some (h : successor? suffix = some next) (zeros : Nat) :
    boundAfter (stem ++ suffix) zeros = zeroExtend (stem ++ next) zeros := by
  rw [boundAfter, successor?_append, h]

/-- The last suffix ends where its stem ends. -/
theorem boundAfter_append_of_none (h : successor? suffix = none) (zeros : Nat) :
    boundAfter (stem ++ suffix) zeros = boundAfter stem (suffix.length + zeros) := by
  rw [boundAfter, boundAfter, successor?_append, h]
  cases successor? stem with
  | some next => exact zeroExtend_append_replicate next suffix.length zeros
  | none => simp [Nat.add_assoc]

/-! ## Ranges of one width -/

/-- A head ends before a greater one begins. -/
theorem boundAfter_le_zeroExtend (h : head.length = stem.length) (hlt : head < stem)
    (zeros : Nat) : boundAfter head zeros ≤ zeroExtend stem zeros := by
  unfold boundAfter
  split
  · rename_i next hnext
    have hwidth : stem.length = next.length :=
      h.symm.trans (length_of_successor_eq_some hnext).symm
    rw [← List.not_lt, zeroExtend, append_lt_zeroExtend_iff hwidth (by simp),
      lt_successor_iff hnext h.symm, List.not_le]
    exact hlt
  · rename_i hnone
    have hle : stem ≤ head := by
      rw [eq_full_of_successor_eq_none hnone]
      exact le_full (Nat.le_of_eq h.symm)
    exact absurd hlt (List.not_lt.mpr hle)

/-- A key has one head of each width. -/
theorem Covers.eq (hhead : Covers head zeros key) (hstem : Covers stem zeros key)
    (h : head.length = stem.length) : head = stem := by
  refine List.le_antisymm (List.not_lt.mp fun hlt => ?_) (List.not_lt.mp fun hlt => ?_)
  · have hend := boundAfter_le_zeroExtend h.symm hlt zeros
    exact List.not_lt.mpr (List.le_trans hend hhead.1) hstem.2
  · have hend := boundAfter_le_zeroExtend h hlt zeros
    exact List.not_lt.mpr (List.le_trans hend hstem.1) hhead.2

/-! ## Ranges of two widths -/

/-- What is covered below a suffix is covered by the stem. -/
theorem Covers.of_append (h : Covers (stem ++ suffix) zeros key) :
    Covers stem (suffix.length + zeros) key := by
  constructor
  · refine List.le_trans ?_ h.1
    rw [zeroExtend_append, ← List.not_lt, append_lt_zeroExtend_iff rfl (by simp [zeroExtend])]
    exact List.lt_irrefl stem
  · cases hnext : successor? suffix with
    | some next =>
      have hlength : next.length = suffix.length := length_of_successor_eq_some hnext
      have hupper := h.2
      rw [boundAfter_append_of_some hnext, zeroExtend_append] at hupper
      refine List.lt_trans hupper ((append_lt_boundAfter_iff rfl ?_).mpr (List.le_refl stem))
      simp [zeroExtend, hlength]
    | none =>
      rw [← boundAfter_append_of_none hnext]
      exact h.2

/-- What a stem covers is covered below one more byte.  The induction is on the bytes that are left
above the byte that is tried. -/
theorem Covers.exists_byte (h : Covers stem (1 + zeros) key) :
    ∃ b, Covers (stem ++ [b]) zeros key := by
  have climb : ∀ left (b : UInt8), b.toNat + left = 255 → zeroExtend (stem ++ [b]) zeros ≤ key →
      ∃ b, Covers (stem ++ [b]) zeros key := by
    intro left
    induction left with
    | zero =>
      intro b hb hle
      have hfull : b = 0xff := UInt8.toNat_inj.mp hb
      have hlast : successor? [b] = none := by simp [successor?, hfull]
      refine ⟨b, hle, ?_⟩
      rw [boundAfter_append_of_none hlast]
      exact h.2
    | succ left ih =>
      intro b hb hle
      by_cases hlt : key < boundAfter (stem ++ [b]) zeros
      · exact ⟨b, hle, hlt⟩
      · have hne : b ≠ 0xff := by
          rintro rfl
          simp at hb
        have hnext : successor? [b] = some [b + 1] := by simp [successor?, hne]
        rw [boundAfter_append_of_some hnext, List.not_lt] at hlt
        refine ih (b + 1) ?_ hlt
        rw [UInt8.toNat_add]
        have hone : (1 : UInt8).toNat = 1 := rfl
        omega
  exact climb 255 0 rfl ((zeroExtend_append_replicate stem 1 zeros).symm ▸ h.1)

/-- What a stem covers is covered below one of its suffixes. -/
theorem Covers.exists_suffix (h : Covers stem (n + zeros) key) :
    ∃ suffix : Bytes, suffix.length = n ∧ Covers (stem ++ suffix) zeros key := by
  induction n generalizing stem with
  | zero => exact ⟨[], rfl, by simpa using h⟩
  | succ n ih =>
    have hfirst : Covers stem (1 + (n + zeros)) key := by
      rwa [← Nat.add_assoc, Nat.add_comm 1 n]
    obtain ⟨b, hb⟩ := hfirst.exists_byte
    obtain ⟨suffix, hlength, hcovers⟩ := ih hb
    exact ⟨b :: suffix, by simp [hlength], by simpa using hcovers⟩

/-- A key is covered by a stem exactly if it is covered below one suffix of the stem. -/
theorem covers_iff_existsUnique_suffix :
    Covers stem (n + zeros) key ↔
      ∃! suffix : Bytes, suffix.length = n ∧ Covers (stem ++ suffix) zeros key := by
  constructor
  · intro h
    obtain ⟨suffix, hlength, hcovers⟩ := h.exists_suffix
    refine ⟨suffix, ⟨hlength, hcovers⟩, ?_⟩
    rintro other ⟨hother, hcovers'⟩
    exact List.append_cancel_left (hcovers'.eq hcovers (by simp [hlength, hother]))
  · rintro ⟨suffix, ⟨rfl, hcovers⟩, -⟩
    exact hcovers.of_append

/-! ## The ranges of a layout -/

variable {l : KeyLayout}

/-- The range of a stem of the right width holds what the stem covers. -/
theorem range_contains (hstem : stem.length = l.stemLen) :
    ∃ r, l.range stem = .ok r ∧ ∀ key, r.contains key ↔ Covers stem l.tailLen key := by
  obtain ⟨r, hr, -, hcontains⟩ := spanning_contains stem l.tailLen
  exact ⟨r, (range_eq_spanning hstem).trans hr, hcontains⟩

/-- The range of a stem and a suffix of the right widths holds what the two cover. -/
theorem rangeOfSuffix_contains (hstem : stem.length = l.stemLen)
    (hsuffix : suffix.length = l.suffixLen) :
    ∃ r, l.rangeOfSuffix stem suffix = .ok r ∧
      ∀ key, r.contains key ↔ Covers (stem ++ suffix) l.extLen key := by
  obtain ⟨r, hr, -, hcontains⟩ := spanning_contains (stem ++ suffix) l.extLen
  exact ⟨r, (rangeOfSuffix_eq_spanning hstem hsuffix).trans hr, hcontains⟩

/-- **The ranges of the suffixes tile the range of their stem.**  A key of any width lies in the
range of a stem exactly if it lies in the range of exactly one suffix below it.  Outside the range
of the stem it lies in none of them, and the ranges of two stems share no key. -/
theorem suffix_ranges_tile (hstem : stem.length = l.stemLen) :
    ∃ (r : KeyRange) (below : Bytes → KeyRange),
      l.range stem = .ok r ∧
      (∀ suffix, suffix.length = l.suffixLen → l.rangeOfSuffix stem suffix = .ok (below suffix)) ∧
      (∀ key, r.contains key = true ↔
        ∃! suffix, suffix.length = l.suffixLen ∧ (below suffix).contains key = true) ∧
      (∀ key, r.contains key = false →
        ∀ suffix, suffix.length = l.suffixLen → (below suffix).contains key = false) ∧
      ∀ other, other.length = l.stemLen → other ≠ stem →
        ∃ r', l.range other = .ok r' ∧
          ∀ key, ¬ (r.contains key = true ∧ r'.contains key = true) := by
  obtain ⟨r, hr, hcontains⟩ := range_contains hstem
  choose! below hbelow hcovers using fun (suffix : Bytes) (hsuffix : suffix.length = l.suffixLen) =>
    rangeOfSuffix_contains hstem hsuffix
  have htile : ∀ key, r.contains key = true ↔
      ∃! suffix, suffix.length = l.suffixLen ∧ (below suffix).contains key = true := by
    intro key
    rw [hcontains, tailLen, covers_iff_existsUnique_suffix]
    refine existsUnique_congr fun suffix => and_congr_right fun hsuffix => ?_
    rw [hcovers suffix hsuffix]
  refine ⟨r, below, hr, hbelow, htile, fun key hout suffix hsuffix => ?_,
    fun other hother hne => ?_⟩
  · rw [Bool.eq_false_iff] at hout ⊢
    intro hin
    have hcover := ((hcovers suffix hsuffix key).mp hin).of_append
    rw [hsuffix] at hcover
    exact hout ((hcontains key).mpr hcover)
  · obtain ⟨r', hr', hcontains'⟩ := range_contains hother
    refine ⟨r', hr', fun key hboth => hne ?_⟩
    exact ((hcontains' key).mp hboth.2).eq ((hcontains key).mp hboth.1) (hother.trans hstem.symm)

/-- The last stem is covered, where both ends are overflow keys. -/
theorem suffix_ranges_tile_of_full :
    ∃ (r : KeyRange) (below : Bytes → KeyRange),
      (KeyLayout.mk 1 1 1).range [0xff] = .ok r ∧
      (∀ suffix, suffix.length = 1 →
        (KeyLayout.mk 1 1 1).rangeOfSuffix [0xff] suffix = .ok (below suffix)) ∧
      (∀ key, r.contains key = true ↔
        ∃! suffix, suffix.length = 1 ∧ (below suffix).contains key = true) ∧
      (∀ key, r.contains key = false →
        ∀ suffix, suffix.length = 1 → (below suffix).contains key = false) ∧
      ∀ other, other.length = 1 → other ≠ [0xff] →
        ∃ r', (KeyLayout.mk 1 1 1).range other = .ok r' ∧
          ∀ key, ¬ (r.contains key = true ∧ r'.contains key = true) :=
  @suffix_ranges_tile [0xff] ⟨1, 1, 1⟩ rfl

end KeyLayout

end SnapshotStore
