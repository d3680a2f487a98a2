import SnapshotStore.Proofs.Work.Sending

/-!
# Work under stripes

Work that runs alone finds all stripes idle.  It takes each of its stripes at once and gives it back
idle, so stripes make no difference to what the work does: work under stripes takes the world where
the work alone takes it, with the locks as they were (`Work.Emits.holding`, and `Work.Takes.holding`
for work that sends nothing).
-/

namespace SnapshotStore

/-- The state of a lock that is held in one way by one holder. -/
def Hold.held : Hold → StampedLock
  | .shared => ⟨1, false, 0⟩
  | .exclusive => ⟨0, true, 0⟩

namespace Stripes

variable (l : Stripes) (hold : Hold) (i j : Nat)

/-- Nobody holds a stripe. -/
def AreIdle : Prop := ∀ i, l.lock i = .idle

/-- Stripes of which some are held in one way. -/
def taken (is : List Nat) : Stripes := is.foldl (fun l i => List.set l i hold.held) l

/-- The stripe that was set has the new state if there is such a stripe; the others are as
before. -/
theorem lock_set (x : StampedLock) :
    lock (List.set l i x) j = if i = j ∧ i < l.length then x else l.lock j := by
  unfold lock
  rw [List.getElem?_set]
  by_cases hij : i = j
  · subst hij
    by_cases hi : i < l.length
    · simp [hi]
    · simp [hi]
  · simp [hij]

/-- A stripe that is set to its own state is as before. -/
theorem set_lock : List.set l i (l.lock i) = l := by
  refine List.ext_getElem? fun j => ?_
  rw [List.getElem?_set]
  by_cases hij : i = j
  · subst hij
    by_cases hi : i < l.length
    · simp [lock, hi]
    · simp [hi]
  · simp [hij]

/-- The stripes of a new striping are idle. -/
theorem areIdle_idle (s : Striping) : (idle s).AreIdle := by
  intro i
  unfold lock idle
  rw [List.getElem?_replicate]
  split <;> rfl

/-- Where there are no stripes, all are idle. -/
theorem areIdle_nil : AreIdle [] := fun _ => rfl

end Stripes

namespace Striping

/-- The stripe of a key is one of the striping. -/
theorem index_lt (s : Striping) (key : Bytes) : s.index key < s.count := Nat.mod_lt _ s.count_pos

/-- So are the stripes of some keys. -/
theorem indices_lt {s : Striping} {keys : List Bytes} {i : Nat} (hi : i ∈ s.indices keys) :
    i < s.count :=
  List.mem_range.mp (List.mem_filter.mp hi).1

/-- Stripes are taken in ascending order. -/
theorem pairwise_indices (s : Striping) (keys : List Bytes) :
    (s.indices keys).Pairwise (· < ·) :=
  List.Pairwise.filter _ List.pairwise_lt_range

/-- The stripe of a key is one of the stripes of several keys. -/
theorem index_mem_indices {s : Striping} {keys : List Bytes} {key : Bytes} (hkey : key ∈ keys) :
    s.index key ∈ s.indices keys := by
  rw [indices, List.mem_filter]
  exact ⟨List.mem_range.mpr (s.index_lt key), by simpa using ⟨key, hkey, rfl⟩⟩

/-- The stripes of some keys are each named once. -/
theorem nodup_indices (s : Striping) (keys : List Bytes) : (s.indices keys).Nodup :=
  (s.pairwise_indices keys).imp Nat.ne_of_lt

/-- One key needs one stripe. -/
theorem indices_singleton (s : Striping) (key : Bytes) : s.indices [key] = [s.index key] := by
  have hfilter : s.indices [key] = (List.range s.count).filter (· == s.index key) :=
    List.filter_congr fun i _ => by rw [List.map_singleton, List.contains_cons]; simp
  rw [hfilter, List.filter_beq, List.count_eq_one_of_mem List.nodup_range
    (List.mem_range.mpr (s.index_lt key))]
  rfl

end Striping

namespace Work

variable {ε α : Type} {x : Work ε α} {b b' : Backend} {w w' : World} {r : Outcome α} {hold : Hold}
  {i k : Nat} {items : List (Except StoreError ε)}

/-! ## One stripe -/

/-- An idle stripe is taken at once. -/
theorem endsIn_lock (hidle : b.stripes.lock i = .idle) (hold : Hold) :
    (lock hold i : Work ε Unit).EndsIn b (.done ()) (b.setLock i hold.held) := by
  cases hold with
  | shared =>
    refine endsIn_perform (q := .enter .shared i) (a := ()) ?_ (endsIn_finish _ _)
    simp [Backend.answer?, hidle, StampedLock.enter?, StampedLock.admitsReader, StampedLock.idle,
      Hold.held]
  | exclusive =>
    -- The announcement is taken back when the writer goes in.
    refine endsIn_perform (q := .announce i) (a := ()) rfl
      (endsIn_perform (q := .enter .exclusive i) (a := ()) ?_ (endsIn_finish _ _))
    have hannounced : (b.setLock i (b.stripes.lock i).announce).stripes.lock i
        = if i < b.stripes.length then ⟨0, false, 1⟩ else .idle := by
      rw [Backend.setLock, Stripes.lock_set, hidle]
      simp [StampedLock.announce, StampedLock.idle]
    rw [Backend.answer?, hannounced]
    by_cases hi : i < b.stripes.length
    · simp [hi, StampedLock.enter?, StampedLock.admitsWriter, Backend.setLock, Hold.held]
    · simp [hi, StampedLock.enter?, StampedLock.admitsWriter, StampedLock.idle, Backend.setLock,
        Hold.held]

/-- An idle stripe is taken at once. -/
theorem takes_lock (hidle : w.stripes.lock i = .idle) (hold : Hold) :
    (lock hold i : Work ε Unit).Takes w (.done ())
      { w with stripes := List.set w.stripes i hold.held } := fun b hb =>
  ⟨b.setLock i hold.held, endsIn_lock (by rw [hb.stripes_eq, hidle]) hold,
    hb.setLock i hold.held⟩

/-- The only reader of a stripe becomes its writer. -/
theorem takes_upgrade (hi : i < w.stripes.length) :
    (effect (.upgrade i) : Work ε Bool).Takes
      { w with stripes := List.set w.stripes i Hold.shared.held } (.done true)
      { w with stripes := List.set w.stripes i Hold.exclusive.held } := by
  intro b hb
  have hlock : b.stripes.lock i = Hold.shared.held := by
    rw [hb.stripes_eq, Stripes.lock_set, if_pos ⟨rfl, hi⟩]
  refine ⟨b.setLock i Hold.exclusive.held, endsIn_effect ?_, ?_⟩
  · rw [Backend.answer?, hlock]
    rfl
  · have hin := hb.setLock i Hold.exclusive.held
    rwa [List.set_set] at hin

/-- A stripe that was taken idle is given back idle. -/
theorem release_lock_set {l : Stripes} (hidle : l.lock i = .idle) (hold : Hold) :
    (Stripes.lock (List.set l i hold.held) i).release hold = .idle := by
  rw [Stripes.lock_set, hidle]
  split <;> cases hold <;> rfl

/-- An idle stripe that was taken is given back. -/
theorem endsIn_unlock_taken {l : Stripes} (hidle : l.lock i = .idle)
    (hstripes : b.stripes = List.set l i hold.held) :
    (unlock hold i : Work ε Unit).EndsIn b (.done ()) { b with stripes := l } := by
  refine endsIn_effect ?_
  rw [Backend.answer?, hstripes, release_lock_set hidle hold, Backend.setLock, hstripes,
    List.set_set, ← hidle, Stripes.set_lock]

/-- A stripe that the work itself took becomes idle when it is given back. -/
theorem takes_unlock_taken (hidle : w.stripes.lock i = .idle) (hold : Hold) :
    (unlock hold i : Work ε Unit).Takes { w with stripes := List.set w.stripes i hold.held }
      (.done ()) w := fun _ hb =>
  ⟨_, endsIn_unlock_taken hidle hb.stripes_eq, hb.with_stripes w.stripes⟩

/-! ## Several stripes -/

/-- Work under idle stripes runs as it does with these stripes held. -/
theorem Runs.holding {is : List Nat} (hidle : ∀ i ∈ is, b.stripes.lock i = .idle)
    (hnodup : is.Nodup) (hstripes : b'.stripes = b.stripes.taken hold is)
    (h : x.Runs k { b with stripes := b.stripes.taken hold is } items r b') :
    (Work.holding hold is x).Runs k b items r { b' with stripes := b.stripes } := by
  induction is generalizing b with
  | nil =>
    rw [← show b'.stripes = b.stripes from hstripes]
    exact h
  | cons i is ih =>
    obtain ⟨hi, hnodup⟩ := List.nodup_cons.mp hnodup
    have hfree := hidle i (by simp)
    -- The first stripe is not among the others, so these are still idle when it is taken.
    have hothers : ∀ j ∈ is, Stripes.lock (List.set b.stripes i hold.held) j = .idle := by
      intro j hj
      have hne : i ≠ j := fun heq => hi (heq ▸ hj)
      rw [Stripes.lock_set, if_neg fun hand => hne hand.1]
      exact hidle j (List.mem_cons_of_mem _ hj)
    have hinner := ih (b := b.setLock i hold.held) hothers hnodup hstripes h
    exact (endsIn_lock hfree hold).bind_runs (hinner.ensuring (endsIn_unlock_taken hfree rfl))

/-- Work that does the same under any stripes, and sends nothing, does it under idle ones. -/
theorem EndsIn.holding_uniform {is : List Nat} (hidle : b.stripes.AreIdle) (hnodup : is.Nodup)
    (hstripes : b'.stripes = b.stripes)
    (h : ∀ l, x.EndsIn { b with stripes := l } r { b' with stripes := l }) :
    (Work.holding hold is x).EndsIn b r b' := by
  have hinner := (h (b.stripes.taken hold is)).runs (0 + 1)
  have hheld := Runs.holding (fun i _ => hidle i) hnodup (by rfl) hinner
  rw [← hstripes] at hheld
  exact hheld.endsIn

/-- Work under idle stripes takes the world where it takes it with these stripes held, and sends
what it sends then. -/
theorem Emits.holding {is : List Nat} (hidle : ∀ i ∈ is, w.stripes.lock i = .idle)
    (hnodup : is.Nodup) (hstripes : w'.stripes = w.stripes.taken hold is)
    (h : x.Emits k { w with stripes := w.stripes.taken hold is } items r w') :
    (Work.holding hold is x).Emits k w items r { w' with stripes := w.stripes } := by
  intro b hb
  obtain ⟨b', hx, hb'⟩ := h _ (hb.with_stripes (w.stripes.taken hold is))
  rw [← hb.stripes_eq] at hidle hstripes hx ⊢
  exact ⟨_, hx.holding hidle hnodup (hb'.stripes_eq.trans hstripes), hb'.with_stripes _⟩

/-- Work that holds idle stripes gives them back: in the end they are as before. -/
theorem Takes.holding {is : List Nat} (hidle : ∀ i ∈ is, w.stripes.lock i = .idle)
    (hnodup : is.Nodup) (hstripes : w'.stripes = w.stripes.taken hold is)
    (h : x.Takes { w with stripes := w.stripes.taken hold is } r w') :
    (Work.holding hold is x).Takes w r { w' with stripes := w.stripes } :=
  (Emits.holding hidle hnodup hstripes (h.emits 1)).takes

/-- Work that does the same under any stripes does it under idle ones. -/
theorem Emits.holding_uniform {is : List Nat} (hidle : w.stripes.AreIdle) (hnodup : is.Nodup)
    (hstripes : w'.stripes = w.stripes)
    (h : ∀ l, x.Emits k { w with stripes := l } items r { w' with stripes := l }) :
    (Work.holding hold is x).Emits k w items r w' := by
  have hheld := Emits.holding (fun i _ => hidle i) hnodup (by rfl) (h (w.stripes.taken hold is))
  rwa [← hstripes] at hheld

/-- Work that does the same whatever the stripes are does it under its stripes as well. -/
theorem Takes.holding_uniform {is : List Nat} (hidle : w.stripes.AreIdle) (hnodup : is.Nodup)
    (hstripes : w'.stripes = w.stripes)
    (h : ∀ l, x.Takes { w with stripes := l } r { w' with stripes := l }) :
    (Work.holding hold is x).Takes w r w' :=
  (Emits.holding_uniform hidle hnodup hstripes fun l => (h l).emits 1).takes

/-- What work writes under its stripes is what it writes without. -/
theorem Makes.holding {is : List Nat} {n : Nat} {m : Contents} (hidle : w.stripes.AreIdle)
    (hnodup : is.Nodup) (h : ∀ l, x.Makes { w with stripes := l } r n m) :
    (Work.holding hold is x).Makes w r n m := by
  obtain ⟨w₁, hx, hw₁⟩ := h (w.stripes.taken hold is)
  exact ⟨{ w₁ with stripes := w.stripes },
    Takes.holding (fun i _ => hidle i) hnodup hw₁.stripes hx, hw₁.with_stripes⟩

end Work

end SnapshotStore
