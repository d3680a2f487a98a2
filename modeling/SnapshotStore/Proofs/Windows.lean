import SnapshotStore.Windows

/-!
# Windows cut their input

Joined again, the windows of an input are the input, and none of them is empty.  An empty window
takes its first item whatever the bounds are, so every window makes progress.  Each other item of a
window was wanted by the ones before it, so a window without its last item is below the bounds.
-/

namespace SnapshotStore

variable {α : Type}

namespace WindowBounds

/-- The bytes of a window with those of some more items, one item after the other. -/
def addAll (b : WindowBounds α) (bytes : Nat) (items : List α) : Nat :=
  items.foldl (fun bytes x => b.add bytes (b.size x)) bytes

/-- The bytes of some items. -/
def bytes (b : WindowBounds α) (items : List α) : Nat := b.addAll 0 items

/-- The exact number of bytes of some items. -/
def total (b : WindowBounds α) (items : List α) : Nat := items.foldr (fun x n => b.size x + n) 0

/-- Exact bounds add the bytes of all items to those that a window has. -/
theorem addAll_ofNats {maxItems maxBytes : Nat} {size : α → Nat} (n : Nat) (items : List α) :
    (ofNats maxItems maxBytes size).addAll n items
      = n + (ofNats maxItems maxBytes size).total items := by
  induction items generalizing n with
  | nil => rfl
  | cons x rest ih => exact (ih (n + size x)).trans (Nat.add_assoc ..)

/-- Exact bounds count all bytes. -/
theorem bytes_ofNats {maxItems maxBytes : Nat} {size : α → Nat} (items : List α) :
    (ofNats maxItems maxBytes size).bytes items = items.foldr (fun x n => size x + n) 0 :=
  (addAll_ofNats 0 items).trans (Nat.zero_add _)

end WindowBounds

namespace Feed

/-- The items that are left. -/
def items : Feed α → List α
  | .more items => items
  | .ended => []

variable {b : WindowBounds α}

/-- What is taken into a window and what is left of the input are the input. -/
theorem fill_append (b : WindowBounds α) (n bytes : Nat) (xs : List α) :
    (b.fill n bytes xs).1 ++ (b.fill n bytes xs).2.items = xs := by
  induction xs generalizing n bytes with
  | nil =>
    unfold WindowBounds.fill
    split <;> rfl
  | cons x rest ih =>
    unfold WindowBounds.fill
    split
    · exact congrArg (x :: ·) (ih _ _)
    · rfl

/-- The first window of an input that has items takes one. -/
theorem fill_cons_ne_nil (b : WindowBounds α) (x : α) (rest : List α) :
    (b.fill 0 0 (x :: rest)).1 ≠ [] := by
  rw [WindowBounds.fill, if_pos (by simp [WindowBounds.wants])]
  simp

/-- A window wants each of its items when it has those before. -/
theorem wants_of_fill_eq {n bytes : Nat} {xs before rest : List α} {x : α}
    (h : (b.fill n bytes xs).1 = before ++ x :: rest) :
    b.wants (n + before.length) (b.addAll bytes before) = true := by
  induction xs generalizing n bytes before with
  | nil =>
    unfold WindowBounds.fill at h
    split at h <;> simp at h
  | cons y ys ih =>
    unfold WindowBounds.fill at h
    split at h
    · rename_i hwants
      cases before with
      | nil => exact hwants
      | cons z before =>
        -- One item more is in the window, and its bytes are added to those it had.
        obtain ⟨rfl, hrest⟩ := List.cons.inj h
        have hlater := ih hrest
        rwa [Nat.add_assoc, Nat.add_comm 1] at hlater
    · simp at h

/-- Nothing left means no window more. -/
theorem next?_of_items_eq_nil {feed : Feed α} (h : feed.items = []) : feed.next? b = none := by
  cases feed with
  | ended => rfl
  | more xs =>
    obtain rfl : xs = [] := h
    simp [next?, WindowBounds.fill, WindowBounds.wants]

/-- A window and what is left of the input. -/
theorem next?_of_items_ne_nil {feed : Feed α} (h : feed.items ≠ []) :
    ∃ window left, feed.next? b = some (window, left) ∧ window ≠ [] ∧
      window ++ left.items = feed.items := by
  cases feed with
  | ended => exact absurd rfl h
  | more xs =>
    obtain ⟨x, rest, rfl⟩ := List.exists_cons_of_ne_nil h
    refine ⟨_, _, ?_, fill_cons_ne_nil b x rest, fill_append b 0 0 (x :: rest)⟩
    -- The match on the filled window goes to its second case, since the window has an item.
    have hne := fill_cons_ne_nil b x rest
    unfold next?
    cases hfill : b.fill 0 0 (x :: rest) with
    | mk window left =>
      rw [hfill] at hne
      obtain ⟨y, window, rfl⟩ := List.exists_cons_of_ne_nil hne
      simp only [hfill]

/-- A window is what was filled from the input. -/
theorem fill_of_next? {xs window : List α} {left : Feed α}
    (h : (Feed.more xs).next? b = some (window, left)) : b.fill 0 0 xs = (window, left) := by
  simp only [next?] at h
  split at h
  · cases h
  · rename_i hfill
    rw [hfill]
    exact Option.some.inj h

/-- With fuel for every item, the windows of a feed join to what was left of it. -/
theorem flatten_windows {fuel : Nat} {feed : Feed α} (hfuel : feed.items.length ≤ fuel) :
    (feed.windows b fuel).flatten = feed.items := by
  induction fuel generalizing feed with
  | zero => simpa [windows] using (List.eq_nil_of_length_eq_zero (Nat.le_zero.mp hfuel)).symm
  | succ fuel ih =>
    unfold windows
    by_cases hitems : feed.items = []
    · rw [next?_of_items_eq_nil hitems, hitems]
      rfl
    · obtain ⟨window, left, hnext, hwindow, happend⟩ := next?_of_items_ne_nil (b := b) hitems
      have hlength : window.length + left.items.length = feed.items.length := by
        rw [← List.length_append, happend]
      -- A window takes an item, so the fuel that is left is still enough.
      have hpos := List.length_pos_iff.mpr hwindow
      rw [hnext, List.flatten_cons, ih (by omega), happend]

/-- No window of a feed is empty. -/
theorem ne_nil_of_mem_windows {fuel : Nat} {feed : Feed α} {window : List α}
    (h : window ∈ feed.windows b fuel) : window ≠ [] := by
  induction fuel generalizing feed with
  | zero => simp [windows] at h
  | succ fuel ih =>
    unfold windows at h
    -- The fuel is one window at a time, so a window is the first one or a later one.
    by_cases hitems : feed.items = []
    · rw [next?_of_items_eq_nil hitems] at h
      simp at h
    · obtain ⟨first, left, hnext, hfirst, -⟩ := next?_of_items_ne_nil (b := b) hitems
      rw [hnext] at h
      rcases List.mem_cons.mp h with rfl | h
      · exact hfirst
      · exact ih h

/-- An item of a window of a feed was wanted by those before it. -/
theorem wants_of_mem_windows {fuel : Nat} {feed : Feed α} {before rest : List α} {x : α}
    (h : before ++ x :: rest ∈ feed.windows b fuel) :
    b.wants before.length (b.bytes before) = true := by
  induction fuel generalizing feed with
  | zero => simp [windows] at h
  | succ fuel ih =>
    unfold windows at h
    cases feed with
    | ended => simp [next?] at h
    | more xs =>
      cases hfill : b.fill 0 0 xs with
      | mk window left =>
        cases window with
        | nil => simp [next?, hfill] at h
        | cons y window =>
          simp only [next?, hfill] at h
          rcases List.mem_cons.mp h with hfirst | hlater
          · have hwants := wants_of_fill_eq ((congrArg Prod.fst hfill).trans hfirst.symm)
            rwa [Nat.zero_add] at hwants
          · exact ih hlater

end Feed

variable {b : WindowBounds α}

/-- Joined again, the windows are the input. -/
theorem flatten_windows (b : WindowBounds α) (xs : List α) : (windows b xs).flatten = xs :=
  Feed.flatten_windows (Nat.le_refl _)

/-- No window is empty. -/
theorem ne_nil_of_mem_windows {xs window : List α} (h : window ∈ windows b xs) : window ≠ [] :=
  Feed.ne_nil_of_mem_windows h

/-- An item of a window was wanted by those before it. -/
theorem wants_of_mem_windows {xs before rest : List α} {x : α}
    (h : before ++ x :: rest ∈ windows b xs) : b.wants before.length (b.bytes before) = true :=
  Feed.wants_of_mem_windows h

end SnapshotStore
