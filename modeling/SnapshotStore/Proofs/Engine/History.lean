import SnapshotStore.WriteBatch
import SnapshotStore.Proofs.Engine.KeyMap

/-!
# Histories of plain maps

What an engine has to store is said without versions, pins and filters.  The contents of a column
are a plain map from keys to values.  A history is the list of the batches that were committed, each
with its column; the state after the first `n` of them is what they make of empty maps, operation by
operation.

* `Contents.apply`, `Contents.applyAll` — what an operation and a batch make of a map.
* `History.contents` — the map of a column after the first batches of a history.
* `Contents.Lists` — a list is exactly the entries of a range, in strictly ascending key order.
-/

namespace SnapshotStore

/-- The contents of a column. -/
abbrev Contents := Bytes → Option Bytes

namespace Contents

/-- The map without keys. -/
def empty : Contents := fun _ => none

/-- What an operation makes of a map. -/
def apply (m : Contents) : WriteOp → Contents
  | .put key value => fun k => if k = key then some value else m k
  | .delete key => fun k => if k = key then none else m k
  | .deleteRange range => fun k => if range.contains k then none else m k

/-- What a batch makes of a map, operation by operation. -/
def applyAll (m : Contents) (batch : WriteBatch) : Contents := batch.foldl apply m

/-- An empty batch changes nothing. -/
@[simp] theorem applyAll_nil (m : Contents) : m.applyAll [] = m := rfl

/-- Two batches one after the other are one batch. -/
theorem applyAll_append (m : Contents) (batch batch' : WriteBatch) :
    m.applyAll (batch ++ batch') = (m.applyAll batch).applyAll batch' := List.foldl_append

/-- A list is exactly the entries of a range, in strictly ascending key order. -/
structure Lists (m : Contents) (range : KeyRange) (entries : List Entry) : Prop where
  /-- The keys ascend strictly. -/
  sorted : entries.Pairwise fun x y => x.1 < y.1
  /-- The entries are those of the map whose key the range contains. -/
  mem_iff : ∀ key value, (key, value) ∈ entries ↔ range.contains key ∧ m key = some value

/-- The entries of a range are among all entries. -/
theorem Lists.within {m : Contents} {entries : List Entry} (h : m.Lists .all entries)
    (range : KeyRange) : m.Lists range (entries.filter fun e => range.contains e.1) where
  sorted := h.sorted.filter _
  mem_iff key value := by
    rw [List.mem_filter, h.mem_iff, and_iff_right (show KeyRange.all.contains key from rfl),
      and_comm]

end Contents

/-- The batches that were committed, oldest first, each with its column. -/
abbrev History := List (Nat × WriteBatch)

namespace History

/-- The contents of a column after the first `n` batches. -/
def contents (h : History) (n column : Nat) : Contents :=
  (h.take n).foldl (fun m b => if b.1 = column then m.applyAll b.2 else m) .empty

/-- The contents of a column after all batches. -/
def latest (h : History) (column : Nat) : Contents := h.contents h.length column

/-- Later batches do not change an earlier state. -/
theorem contents_append {h h' : History} {n : Nat} (hn : n ≤ h.length) (column : Nat) :
    contents (h ++ h') n column = h.contents n column := by
  unfold contents
  rw [List.take_append_of_le_length hn]

/-- A further batch changes the contents of its column alone. -/
theorem latest_concat (h : History) (b : Nat × WriteBatch) (column : Nat) :
    latest (h ++ [b]) column
      = if b.1 = column then (h.latest column).applyAll b.2 else h.latest column := by
  unfold latest contents
  rw [List.take_length, List.take_length, List.foldl_append, List.foldl_cons, List.foldl_nil]

/-- What further batches for a column make of its contents are their operations in order, wherever
they are cut. -/
theorem latest_append_batches (h : History) (column : Nat) (batches : List WriteBatch) :
    latest (h ++ batches.map fun batch => (column, batch)) column
      = (h.latest column).applyAll batches.flatten := by
  induction batches generalizing h with
  | nil => rw [List.map_nil, List.append_nil, List.flatten_nil, Contents.applyAll_nil]
  | cons batch rest ih =>
    rw [List.map_cons, List.append_cons, ih, latest_concat, if_pos rfl, List.flatten_cons,
      Contents.applyAll_append]

/-- Batches for other columns do not change the contents of a column. -/
theorem latest_append_of_ne (h : History) {more : History} {column : Nat}
    (hcol : ∀ b ∈ more, b.1 ≠ column) : latest (h ++ more) column = h.latest column := by
  induction more generalizing h with
  | nil => rw [List.append_nil]
  | cons b more ih =>
    rw [List.append_cons, ih _ fun b' hb' => hcol b' (List.mem_cons_of_mem _ hb'), latest_concat,
      if_neg (hcol b (by simp))]

/-- A column that no batch was written to is empty in every state. -/
theorem contents_eq_empty {h : History} {column : Nat} (hcol : ∀ b ∈ h, b.1 ≠ column) (n : Nat) :
    h.contents n column = .empty := by
  unfold contents
  have hcol' : ∀ b ∈ h.take n, b.1 ≠ column := fun b hb => hcol b (List.mem_of_mem_take hb)
  generalize h.take n = batches at hcol'
  induction batches with
  | nil => rfl
  | cons b batches ih =>
    rw [List.foldl_cons, if_neg (hcol' b (by simp))]
    exact ih fun b' hb' => hcol' b' (List.mem_cons_of_mem _ hb')

/-- What further batches for a column keep, its newest state keeps. -/
theorem latest_induction {h more : History} {column : Nat} {I : Contents → Prop}
    (hI : I (h.latest column))
    (hmore : ∀ b ∈ more, b.1 = column → ∀ op ∈ b.2, ∀ c, I c → I (c.apply op)) :
    I (latest (h ++ more) column) := by
  -- A batch keeps the property if each of its operations does.
  have hbatch : ∀ (batch : WriteBatch) (c : Contents),
      (∀ op ∈ batch, ∀ c, I c → I (c.apply op)) → I c → I (c.applyAll batch) := by
    intro batch
    induction batch with
    | nil => exact fun c _ hc => hc
    | cons op rest ih =>
      exact fun c hops hc => ih _ (fun op' hop' => hops op' (List.mem_cons_of_mem _ hop'))
        (hops op List.mem_cons_self c hc)
  induction more generalizing h with
  | nil => rwa [List.append_nil]
  | cons b rest ih =>
    rw [List.append_cons]
    refine ih ?_ fun b' hb' => hmore b' (List.mem_cons_of_mem _ hb')
    -- Only a batch on the column itself changes its contents.
    rw [latest_concat]
    split
    · rename_i hb
      exact hbatch b.2 _ (hmore b List.mem_cons_self hb) hI
    · exact hI

/-- What further batches for a column keep, all its states keep. -/
theorem contents_induction {h more : History} {column : Nat} {I : Contents → Prop}
    (hI : ∀ k, I (h.contents k column))
    (hmore : ∀ b ∈ more, b.1 = column → ∀ op ∈ b.2, ∀ c, I c → I (c.apply op)) (k : Nat) :
    I (contents (h ++ more) k column) := by
  have hlatest : ∀ (h : History) (k : Nat),
      h.contents k column = latest (h.take k) column := fun h k => by
    rw [latest, contents, contents, List.take_length]
  rw [hlatest, List.take_append]
  refine latest_induction ?_ fun b hb => hmore b (List.mem_of_mem_take hb)
  rw [← hlatest]
  exact hI k

end History

end SnapshotStore
