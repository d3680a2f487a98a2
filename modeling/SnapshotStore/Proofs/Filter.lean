import Mathlib.Data.Nat.Bitwise
import SnapshotStore.Filter

/-!
# Filters keep what was added

Setting the bit of a position sets that bit and no other (`Filter.hasBit_setBit`), although the bits
share words.  So a filter answers for every key that was added to it, whatever was added later
(`Filter.mayContain_insertAll`).
-/

namespace SnapshotStore

namespace Filter

/-! ## Single bits -/

/-- The mask of a position is one bit of a word. -/
theorem toNat_bitMask {n : Nat} (p : Fin n) : (bitMask p).toNat = 2 ^ (p.val % 64) := by
  have hlt : p.val % 64 < 64 := Nat.mod_lt _ (by decide)
  have hpow : 2 ^ (p.val % 64) < 2 ^ 64 := Nat.pow_lt_pow_right (by decide) hlt
  have hamount : (p.val % 64).toUInt64.toNat % 64 = p.val % 64 := by
    rw [Nat.toUInt64_eq, UInt64.toNat_ofNat']
    omega
  rw [bitMask, UInt64.toNat_shiftLeft, hamount, UInt64.toNat_one, Nat.one_shiftLeft]
  exact Nat.mod_eq_of_lt hpow

variable {shape : Shape}

/-- A bit of a filter is a bit of one of its words. -/
theorem hasBit_eq_testBit (w : Words shape) (p : Fin shape.bits) :
    hasBit w p = (w.get (wordIndex p)).toNat.testBit (p.val % 64) := by
  have hzero : w.get (wordIndex p) &&& bitMask p = 0
      ↔ (w.get (wordIndex p)).toNat.testBit (p.val % 64) = false := by
    rw [← UInt64.toNat_inj, UInt64.toNat_and, toNat_bitMask, Nat.and_two_pow]
    cases (w.get (wordIndex p)).toNat.testBit (p.val % 64) <;> simp
  unfold hasBit
  cases htest : (w.get (wordIndex p)).toNat.testBit (p.val % 64) with
  | false => simpa using hzero.mpr htest
  | true => simpa using fun h => Bool.noConfusion (htest.symm.trans (hzero.mp h))

/-- To set a bit changes its word only. -/
theorem get_setBit (w : Words shape) (p : Fin shape.bits) (i : Fin shape.wordCount) :
    (setBit w p).get i = if wordIndex p = i then w.get i ||| bitMask p else w.get i := by
  have hget : ∀ v : Words shape, v.get i = v[i.val] := fun _ => rfl
  rw [setBit, hget, Vector.getElem_set]
  by_cases h : wordIndex p = i
  · subst h
    rw [if_pos rfl, if_pos rfl]
  · rw [if_neg h, if_neg fun hval => h (Fin.ext hval)]
    rfl

/-- Setting a bit sets that bit and no other. -/
theorem hasBit_setBit (w : Words shape) (p q : Fin shape.bits) :
    hasBit (setBit w p) q = (decide (p = q) || hasBit w q) := by
  rw [hasBit_eq_testBit, hasBit_eq_testBit, get_setBit]
  by_cases hword : wordIndex p = wordIndex q
  · have hsame : p.val % 64 = q.val % 64 ↔ p = q := by
      have hdiv : p.val / 64 = q.val / 64 := congrArg Fin.val hword
      rw [Fin.ext_iff]
      omega
    rw [if_pos hword, UInt64.toNat_or, toNat_bitMask, Nat.testBit_or, Nat.testBit_two_pow]
    simp only [hsame, Bool.or_comm]
  · have hne : p ≠ q := fun h => hword (congrArg wordIndex h)
    rw [if_neg hword]
    simp [hne]

/-- Setting bits sets those bits and no others. -/
theorem hasBit_setBits (ps : List (Fin shape.bits)) (w : Words shape) (q : Fin shape.bits) :
    hasBit (ps.foldl setBit w) q = (ps.contains q || hasBit w q) := by
  induction ps generalizing w with
  | nil => simp
  | cons p ps ih =>
    rw [List.foldl_cons, ih, hasBit_setBit, ← Bool.or_assoc, List.contains_cons]
    congr 1
    rw [Bool.or_comm, beq_eq_decide, decide_eq_decide.mpr eq_comm]

/-! ## Keys -/

variable {scheme : Scheme} {other : Bytes}

/-- A filter answers for the added key, and for every key that it answered for before. -/
theorem mayContain_insert (f : Filter) (key : Bytes)
    (h : other = key ∨ f.mayContain scheme other = true) :
    (f.insert scheme key).mayContain scheme other = true := by
  refine List.all_eq_true.mpr fun (q : Fin f.shape.bits) hq => ?_
  change q ∈ positions f.shape (scheme.hashes other) at hq
  change hasBit ((positions f.shape (scheme.hashes key)).foldl setBit f.words) q = true
  rw [hasBit_setBits]
  rcases h with rfl | h
  · rw [List.contains_iff_mem.mpr hq, Bool.true_or]
  · rw [List.all_eq_true.mp h q hq, Bool.or_true]

/-- A filter answers for all keys that were added one after the other, and for those before. -/
theorem mayContain_insertAll (keys : List Bytes) (f : Filter)
    (h : other ∈ keys ∨ f.mayContain scheme other = true) :
    (keys.foldl (insert scheme) f).mayContain scheme other = true := by
  induction keys generalizing f with
  | nil => simpa using h
  | cons key keys ih =>
    refine ih _ ?_
    rcases h with h | h
    · exact (List.mem_cons.mp h).symm.imp id fun heq => mayContain_insert f key (.inl heq)
    · exact .inr (mayContain_insert f key (.inr h))

end Filter

end SnapshotStore
