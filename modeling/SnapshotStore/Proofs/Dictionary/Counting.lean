import SnapshotStore.Proofs.Dictionary.Walk

/-!
# What counting counts

A count is the number of the entries of its range, up to its cap if it has one
(`Dictionary.counted`).  The shards of the key space are disjoint and cover all keys, so the counts
of all shards sum up to the number of all keys (`Dictionary.sum_countP_shards`).
-/

namespace SnapshotStore.Dictionary

variable {ε : Type} {d : Dictionary} {w : World} {range : KeyRange} {entries : List Entry}
  {view : ReadView}

/-! ## One range -/

/-- The answer of a count with an optional cap. -/
def counted (cap : Option Nat) (length : Nat) : Nat :=
  match cap with
  | none => length
  | some cap => min length (max cap 1)

/-- A visitor that always goes on sees everything. -/
private theorem foldUntil_count_all (n : Nat) (entries : List Entry) :
    foldUntil (fun n (_ : Entry) => (true, n + 1)) n entries = n + entries.length := by
  induction entries generalizing n with
  | nil => rfl
  | cons entry rest ih =>
    rw [foldUntil, if_pos rfl, ih, List.length_cons, Nat.add_assoc, Nat.add_comm 1]

/-- The next entry is counted before the cap is looked at. -/
private theorem foldUntil_count_capped (cap n : Nat) (entries : List Entry) :
    foldUntil (fun n (_ : Entry) => (decide (n + 1 < cap), n + 1)) n entries
      = min (n + entries.length) (max cap (n + 1)) := by
  induction entries generalizing n with
  | nil =>
    rw [foldUntil, List.length_nil]
    omega
  | cons entry rest ih =>
    rw [foldUntil, ih, List.length_cons]
    by_cases hgo : n + 1 < cap
    · rw [if_pos (decide_eq_true hgo)]
      omega
    · rw [if_neg (by simpa using hgo)]
      omega

/-- Counting stops at the cap. -/
private theorem foldUntil_count (cap : Option Nat) (entries : List Entry) :
    foldUntil (fun n (_ : Entry) => (cap.all (n + 1 < ·), n + 1)) 0 entries
      = counted cap entries.length := by
  cases cap with
  | none => exact (foldUntil_count_all 0 entries).trans (Nat.zero_add _)
  | some cap =>
    have hcapped := foldUntil_count_capped cap 0 entries
    rwa [Nat.zero_add, Nat.zero_add] at hcapped

/-- A count answers the number of the entries of its range. -/
theorem takes_count (h : d.AtRest w) (hview : w.CanRead view)
    (hlists : (w.seen d.column view).Lists range entries) (cap : Option Nat) :
    (d.count view range cap : Work ε _).Takes w (.done (counted cap entries.length)) w := by
  rw [← foldUntil_count]
  exact takes_visit_pure h hview (fun _ _ => rfl) hlists 0

/-! ## Shards -/

/-- A range with bounds that are not equal holds what lies between them. -/
private theorem exists_ofBounds {lo hi : Option Bytes} (hlt : ∀ a ∈ lo, ∀ b ∈ hi, a < b) :
    ∃ r, KeyRange.ofBounds lo hi = .ok r ∧
      ∀ key, r.contains key = (lo.all (· ≤ key) && hi.all (key < ·)) := by
  cases lo with
  | none => cases hi <;> exact ⟨_, rfl, fun _ => rfl⟩
  | some lo =>
    cases hi with
    | none => exact ⟨_, rfl, fun _ => rfl⟩
    | some hi =>
      have hlt : lo < hi := hlt lo rfl hi rfl
      have hne : lo ≠ hi := fun heq => List.lt_irrefl hi (heq ▸ hlt)
      refine ⟨⟨some lo, some hi, by simpa using List.le_of_lt hlt⟩, dif_pos (List.le_of_lt hlt),
        fun key => ?_⟩
      simp [KeyRange.contains, KeyRange.singleKey?, hne]

/-- The first key of the shard with a number, out of `n`; the first shard has no bound below. -/
private def bound (n i : Nat) : Option Bytes :=
  if 0 < i && i < n then some [(i * 256 / n).toUInt8] else none

/-- Bounds ascend strictly. -/
private theorem bound_lt {n i : Nat} (hn : n ≤ 256) :
    ∀ a ∈ bound n i, ∀ b ∈ bound n (i + 1), a < b := by
  intro a ha b hb
  unfold bound at ha hb
  split at ha <;> split at hb
  · rename_i hi hi'
    obtain rfl := Option.some.inj ha
    obtain rfl := Option.some.inj hb
    have hlt : i + 1 < n := by simpa using hi'
    -- There are at most 256 shards, so their first bytes are at least one apart.
    have hle : i * 256 / n + 1 ≤ (i + 1) * 256 / n := by
      rw [Nat.le_div_iff_mul_le (by omega)]
      have hmul := Nat.div_mul_le_self (i * 256) n
      rw [Nat.add_mul]
      omega
    have hbyte : (i + 1) * 256 / n < 256 := Nat.div_lt_of_lt_mul (by omega)
    refine List.cons_lt_cons_iff.mpr (.inl (UInt8.lt_iff_toNat_lt.mpr ?_))
    rw [Nat.toUInt8_eq, Nat.toUInt8_eq, UInt8.toNat_ofNat_of_lt' (Nat.lt_of_le_of_lt (by omega) hbyte),
      UInt8.toNat_ofNat_of_lt' hbyte]
    exact hle
  · cases hb
  · cases ha
  · cases ha

/-- Whether a key lies below the shard with a number; behind the last shard is nothing. -/
private def isBelow (n i : Nat) (key : Bytes) : Bool :=
  match bound n i with
  | some b => key < b
  | none => i ≠ 0

/-- Only the first shard has no bound below. -/
private theorem eq_zero_of_bound {n i : Nat} (hi : i < n) (hb : bound n i = none) : i = 0 := by
  by_contra hne
  simp [bound, hi, Nat.pos_of_ne_zero hne] at hb

/-- What is below a shard is below the next one. -/
private theorem isBelow_succ {n i : Nat} (hn : n ≤ 256) (hi : i < n) {key : Bytes}
    (h : isBelow n i key = true) : isBelow n (i + 1) key = true := by
  have hlt := bound_lt (i := i) hn
  unfold isBelow at h ⊢
  cases hnext : bound n (i + 1) with
  | none => simp
  | some b' =>
    cases hb : bound n i with
    | none =>
      have hne : i ≠ 0 := by simpa [hb] using h
      exact absurd (eq_zero_of_bound hi hb) hne
    | some b =>
      have hkey : key < b := by simpa [hb] using h
      exact decide_eq_true (List.lt_trans hkey (hlt b hb b' hnext))

/-- The shard with a number. -/
private def shard (n i : Nat) : KeyRange :=
  match KeyRange.ofBounds (bound n i) (bound n (i + 1)) with
  | .ok r => r
  | .error _ => .all

/-- There are at most as many shards as first bytes, and at least one. -/
private theorem shards_eq (n : Nat) :
    shards n = (List.range (max 1 (min n 256))).map (shard (max 1 (min n 256))) := rfl

/-- A shard holds the keys that are below the next shard and not below it. -/
private theorem contains_shard {n i : Nat} (hn : n ≤ 256) (hi : i < n) (key : Bytes) :
    (shard n i).contains key = (!isBelow n i key && isBelow n (i + 1) key) := by
  obtain ⟨r, hr, hcontains⟩ := exists_ofBounds (bound_lt (i := i) hn)
  have hlower : (bound n i).all (· ≤ key) = !isBelow n i key := by
    unfold isBelow
    cases hb : bound n i with
    | none => simp [eq_zero_of_bound hi hb]
    | some b => rw [Option.all_some, ← decide_not]; rfl
  have hupper : (bound n (i + 1)).all (key < ·) = isBelow n (i + 1) key := by
    unfold isBelow
    cases bound n (i + 1) <;> simp
  have hshard : shard n i = r := by
    unfold shard
    rw [hr]
  rw [hshard, hcontains, hlower, hupper]

/-- The keys in one shard are those below its end, without those below its begin. -/
private theorem countP_shard {n i : Nat} (hn : n ≤ 256) (hi : i < n) (keys : List Bytes) :
    keys.countP (shard n i).contains + keys.countP (isBelow n i) = keys.countP (isBelow n (i + 1)) := by
  induction keys with
  | nil => rfl
  | cons key rest ih =>
    have hmono : isBelow n i key = true → isBelow n (i + 1) key = true := isBelow_succ hn hi
    simp only [List.countP_cons, contains_shard hn hi]
    cases hnext : isBelow n (i + 1) key <;> cases hbelow : isBelow n i key <;>
      simp [hnext, hbelow] at hmono ⊢ <;> omega

/-- The first shards hold the keys below the next one. -/
private theorem sum_countP_first_shards {n : Nat} (hn : n ≤ 256) (keys : List Bytes) {i : Nat}
    (hi : i ≤ n) :
    ((List.range i).map fun j => keys.countP (shard n j).contains).sum
      = keys.countP (isBelow n i) := by
  induction i with
  | zero =>
    have hbelow : ∀ key ∈ keys, ¬ isBelow n 0 key = true := fun _ _ => by simp [isBelow, bound]
    exact (List.countP_eq_zero.mpr hbelow).symm
  | succ i ih =>
    rw [List.range_succ, List.map_append, List.sum_append, ih (Nat.le_of_lt hi), Nat.add_comm]
    exact countP_shard hn hi keys

/-- Every key is in exactly one shard. -/
theorem sum_countP_shards (n : Nat) (keys : List Bytes) :
    ((shards n).map fun r => keys.countP r.contains).sum = keys.length := by
  have hcount : max 1 (min n 256) ≤ 256 := by omega
  have hall : ∀ key ∈ keys, isBelow (max 1 (min n 256)) (max 1 (min n 256)) key = true :=
    fun _ _ => by simp [isBelow, bound]
  rw [← List.countP_eq_length.mpr hall, ← sum_countP_first_shards hcount keys (Nat.le_refl _),
    shards_eq, List.map_map]
  rfl

end SnapshotStore.Dictionary
