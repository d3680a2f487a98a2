import SnapshotStore.Proofs.Lock.Exclusion

/-!
# Nobody sleeps at a lock that is free

A holder that goes out wakes others only on conditions: the last reader wakes one writer if one
waits, and the writer wakes one writer if one waits and all readers otherwise.  New writers may go
in before the one that was woken.  Still every sleeper has somebody who will wake it
(`Room.Attentive`): for a reader that is the writer, or a writer that waits; for a writer it is a
holder, or a writer that was woken and will look.
-/

namespace SnapshotStore

namespace Room

variable {r r' : Room} {i pick : Nat} {a b : Seat} {hold : Hold} {p : Seat → Bool}

/-- The number of threads that sleep with a wish. -/
def parked (r : Room) (wish : Hold) : Nat := r.tally (· = .parked wish)

/-- The number of threads that were woken with a wish and have not looked yet. -/
def woken (r : Room) (wish : Hold) : Nat := r.tally (· = .woken wish)

/-- When a thread changes its seat, a kind can get its first thread only by the new seat. -/
theorem tally_pos_of_place (hi : r.seats[i]? = some a) (h : 0 < (r.place i b).tally p) :
    p b = true ∨ 0 < r.tally p := by
  have hplace := tally_place hi b p
  cases hb : p b with
  | true => exact .inl rfl
  | false => rw [hb, Bool.toNat_false] at hplace; omega

/-- When a thread changes its seat, a kind can lose its last thread only by the old seat. -/
theorem tally_place_pos (hi : r.seats[i]? = some a) (b : Seat) (h : 0 < r.tally p) :
    p a = true ∨ 0 < (r.place i b).tally p := by
  have hplace := tally_place hi b p
  cases ha : p a with
  | true => exact .inl rfl
  | false => rw [ha, Bool.toNat_false] at hplace; omega

/-- Every sleeper has somebody who will wake it. -/
structure Attentive (r : Room) : Prop where
  /-- Readers sleep behind a writer, or behind one that waits. -/
  readers : 0 < r.parked .shared → r.lock.hasWriter = true ∨ 0 < r.lock.waiting
  /-- Writers sleep behind a holder, or behind a writer that will look. -/
  writers : 0 < r.parked .exclusive →
    r.lock.hasWriter = true ∨ 0 < r.lock.readers ∨ 0 < r.woken .exclusive

/-- In an empty room nobody sleeps. -/
theorem attentive_vacant (n : Nat) : (vacant n).Attentive := by
  have hnone : ∀ wish, (vacant n).parked wish = 0 := fun wish =>
    List.countP_eq_zero.mpr fun s hs => by simp [List.eq_of_mem_replicate hs]
  exact ⟨fun h => absurd h (by simp [hnone]), fun h => absurd h (by simp [hnone])⟩

/-- If nobody waits as a writer, then no writer sleeps. -/
theorem parked_exclusive_le_queued (r : Room) : r.parked .exclusive ≤ r.queued :=
  List.countP_mono_left fun s _ hs => by simp [of_decide_eq_true hs, Seat.isQueued]

/-- A sleeping writer is woken if there is one. -/
theorem woken_wakeWriter (r : Room) (pick : Nat) (h : 0 < (r.wakeWriter pick).parked .exclusive) :
    0 < (r.wakeWriter pick).woken .exclusive := by
  rcases r.wakeWriter_cases pick with ⟨hnone, hsame⟩ | ⟨i, hi, hwake⟩
  · rw [hsame, parked, hnone] at h
    contradiction
  · rw [hwake]
    exact tally_pos_iff.mpr ⟨i, _, getElem?_place hi _, by simp⟩

/-- A reader is turned away for a writer, or for one that waits. -/
theorem enter?_shared_eq_none_iff {l : StampedLock} :
    l.enter? .shared = none ↔ l.hasWriter = true ∨ 0 < l.waiting := by
  simp [StampedLock.enter?, StampedLock.admitsReader, or_iff_not_imp_left, Nat.pos_iff_ne_zero]

/-- A writer is turned away for any holder. -/
theorem enter?_exclusive_eq_none_iff {l : StampedLock} :
    l.enter? .exclusive = none ↔ l.hasWriter = true ∨ 0 < l.readers := by
  simp [StampedLock.enter?, StampedLock.admitsWriter, or_iff_not_imp_left, Nat.pos_iff_ne_zero]

namespace Attentive

/-- One thread changes its seat, and the lock has the reasons that it and the others need. -/
theorem change (h : r.Attentive) (hi : r.seats[i]? = some a) (lock : StampedLock) (b : Seat)
    (hreaders : b = .parked .shared ∨ r.lock.hasWriter = true ∨ 0 < r.lock.waiting →
      lock.hasWriter = true ∨ 0 < lock.waiting)
    (hwriters : b = .parked .exclusive ∨ r.lock.hasWriter = true ∨ 0 < r.lock.readers ∨
        a = .woken .exclusive →
      lock.hasWriter = true ∨ 0 < lock.readers ∨ b = .woken .exclusive) :
    ({ r with lock }.place i b).Attentive := by
  constructor
  · intro hparked
    rcases tally_pos_of_place (r := { r with lock }) hi hparked with hb | hparked
    · exact hreaders (.inl (of_decide_eq_true hb))
    · exact hreaders (.inr (h.readers hparked))
  · intro hparked
    -- Who sleeps now slept before, with a reason, or is the thread that sat down to sleep.
    have hreason : b = .parked .exclusive ∨ r.lock.hasWriter = true ∨ 0 < r.lock.readers ∨
        0 < r.woken .exclusive := by
      rcases tally_pos_of_place (r := { r with lock }) hi hparked with hb | hparked
      · exact .inl (of_decide_eq_true hb)
      · exact .inr (h.writers hparked)
    have hseat : b = .woken .exclusive → 0 < ({ r with lock }.place i b).woken .exclusive := by
      rintro rfl
      exact tally_pos_iff.mpr ⟨i, _, getElem?_place (r := { r with lock }) hi _, by simp⟩
    rcases hreason with hb | hwriter | hreader | hwoken
    · exact (hwriters (.inl hb)).imp_right (.imp_right hseat)
    · exact (hwriters (.inr (.inl hwriter))).imp_right (.imp_right hseat)
    · exact (hwriters (.inr (.inr (.inl hreader)))).imp_right (.imp_right hseat)
    · rcases tally_place_pos (r := { r with lock }) hi b hwoken with ha | hwoken
      · exact (hwriters (.inr (.inr (.inr (of_decide_eq_true ha))))).imp_right (.imp_right hseat)
      · exact .inr (.inr hwoken)

/-- The last reader wakes a writer that waits. -/
theorem leave_last (hlast : (r.lock.release .shared).readers = 0) (hwaiting : 0 < r.lock.waiting)
    (i pick : Nat) : r.leave i .shared pick
      = ({ r with lock := r.lock.release .shared }.place i .away).wakeWriter pick :=
  if_pos (by rw [hlast]; exact decide_eq_true hwaiting)

/-- So does a writer that goes out. -/
theorem leave_writer (hwaiting : 0 < r.lock.waiting) (i pick : Nat) : r.leave i .exclusive pick
    = ({ r with lock := r.lock.release .exclusive }.place i .away).wakeWriter pick :=
  if_pos hwaiting

/-- If no writer waits, a writer that goes out wakes all readers. -/
theorem leave_writer_of_none (hwaiting : ¬ 0 < r.lock.waiting) (i pick : Nat) :
    r.leave i .exclusive pick
      = ({ r with lock := r.lock.release .exclusive }.place i .away).wakeReaders :=
  if_neg hwaiting

/-- Who goes out leaves no sleeper alone. -/
theorem leave (h : r.Attentive) (horderly : r.Orderly) (hi : r.seats[i]? = some (.holding hold))
    (pick : Nat) : (r.leave i hold pick).Attentive := by
  have hafter := horderly.passage (.leave hi pick)
  constructor
  · intro hparked
    cases hold with
    | shared =>
      -- Whether or not a writer is woken, the readers sleep on, behind what they slept behind
      -- before.
      have hbefore : 0 < (r.place i .away).parked .shared := by
        unfold Room.leave at hparked
        dsimp only at hparked
        split at hparked
        · rwa [parked, tally_wakeWriter _ pick rfl] at hparked
        · exact hparked
      rcases tally_pos_of_place hi hbefore with hb | hbefore
      · cases hb
      · rw [lock_leave]
        exact h.readers hbefore
    | exclusive =>
      rw [lock_leave]
      by_cases hwaiting : 0 < r.lock.waiting
      · exact .inr hwaiting
      · rw [parked, leave_writer_of_none hwaiting, tally_parked_wakeReaders] at hparked
        contradiction
  · intro hparked
    -- A writer sleeps, so it is counted as waiting.
    have hwaiting : 0 < r.lock.waiting := by
      have hqueued := Nat.lt_of_lt_of_le hparked (parked_exclusive_le_queued _)
      rw [← hafter.waiting_eq, lock_leave] at hqueued
      cases hold <;> exact hqueued
    cases hold with
    | shared =>
      by_cases hlast : (r.lock.release .shared).readers = 0
      · rw [leave_last hlast hwaiting] at hparked ⊢
        exact .inr (.inr (woken_wakeWriter _ pick hparked))
      · rw [lock_leave]
        exact .inr (.inl (Nat.pos_of_ne_zero hlast))
    | exclusive =>
      rw [leave_writer hwaiting] at hparked ⊢
      exact .inr (.inr (woken_wakeWriter _ pick hparked))

/-- Every passage leaves no sleeper alone. -/
theorem passage (h : r.Attentive) (horderly : r.Orderly) (hstep : Passage i r r') :
    r'.Attentive := by
  cases hstep with
  | ask hi ha wish =>
    cases wish with
    | shared =>
      refine h.change hi r.lock (.woken .shared) ?_ ?_
      · rintro (hb | hlock)
        · cases hb
        · exact hlock
      · rcases ha with rfl | rfl <;> simp
    | exclusive =>
      exact h.change hi _ (.woken .exclusive) (fun _ => .inr (Nat.succ_pos _))
        fun _ => .inr (.inr rfl)
  | @enter i r wish lock hi hlock =>
    cases wish with
    | shared =>
      obtain ⟨hfree, hnone, rfl⟩ := StampedLock.enter?_shared_eq_some_iff.mp hlock
      refine h.change hi _ _ ?_ fun _ => .inr (.inl (Nat.succ_pos _))
      simp [hfree, hnone]
    | exclusive =>
      obtain ⟨-, -, rfl⟩ := StampedLock.enter?_exclusive_eq_some_iff.mp hlock
      exact h.change hi _ _ (fun _ => .inl rfl) fun _ => .inl rfl
  | @park i r wish hi hlock =>
    cases wish with
    | shared =>
      refine h.change hi r.lock _ (fun _ => enter?_shared_eq_none_iff.mp hlock) ?_
      simp
    | exclusive =>
      have hheld := enter?_exclusive_eq_none_iff.mp hlock
      refine h.change hi r.lock _ ?_ fun _ => ?_
      · simp
      · exact hheld.imp_right .inl
  | upgrade hi hlock =>
    obtain ⟨-, -, rfl⟩ := StampedLock.upgrade?_eq_some_iff.mp hlock
    exact h.change hi _ _ (fun _ => .inl rfl) fun _ => .inl rfl
  | leave hi pick => exact h.leave horderly hi pick
  | turn hi => exact h.change hi r.lock .returning (by simp) (by simp)

end Attentive

/-- In every reachable room somebody will wake each sleeper. -/
theorem Reachable.attentive (h : r.Reachable) : r.Attentive := by
  have hboth : r.Orderly ∧ r.Attentive := by
    refine h.of_passages (P := fun r => r.Orderly ∧ r.Attentive)
      (fun n => ⟨orderly_vacant n, attentive_vacant n⟩) ?_
    rintro i r r' hstep ⟨horderly, hattentive⟩
    exact ⟨horderly.passage hstep, hattentive.passage horderly hstep⟩
  exact hboth.2

/-- A seat is counted if somebody sits there. -/
theorem tally_seat_pos_iff : 0 < r.tally (· = a) ↔ a ∈ r.seats := by
  rw [tally, List.countP_pos_iff]
  constructor
  · rintro ⟨s, hs, heq⟩
    exact of_decide_eq_true heq ▸ hs
  · intro ha
    exact ⟨a, ha, decide_eq_true rfl⟩

/-- A reader sleeps behind a writer that holds the lock or waits for it. -/
theorem Reachable.reader_asleep (h : r.Reachable) (hparked : .parked .shared ∈ r.seats) :
    .holding .exclusive ∈ r.seats ∨ ∃ s ∈ r.seats, s.isQueued = true := by
  rcases h.attentive.readers (tally_seat_pos_iff.mpr hparked) with hwriter | hwaiting
  · refine .inl (tally_seat_pos_iff.mp ?_)
    rw [← holders, ← h.orderly.writer_eq, hwriter]
    exact Nat.one_pos
  · rw [h.orderly.waiting_eq] at hwaiting
    exact .inr (List.countP_pos_iff.mp hwaiting)

/-- A writer sleeps behind a holder or a writer that will look. -/
theorem Reachable.writer_asleep (h : r.Reachable) (hparked : .parked .exclusive ∈ r.seats) :
    (∃ hold, .holding hold ∈ r.seats) ∨ .woken .exclusive ∈ r.seats := by
  rcases h.attentive.writers (tally_seat_pos_iff.mpr hparked) with hwriter | hreader | hwoken
  · refine .inl ⟨.exclusive, tally_seat_pos_iff.mp ?_⟩
    rw [← holders, ← h.orderly.writer_eq, hwriter]
    exact Nat.one_pos
  · rw [h.orderly.readers_eq] at hreader
    exact .inl ⟨.shared, tally_seat_pos_iff.mp hreader⟩
  · exact .inr (tally_seat_pos_iff.mp hwoken)

/-- In no room that comes about is the lock free, every thread that was woken done with looking, and
somebody asleep; and nobody sleeps as a reader unless a writer holds the lock or waits for it. -/
theorem no_lost_wakeUp (h : r.Reachable) :
    ¬ ((∀ s ∈ r.seats, ∀ hold, s ≠ .holding hold) ∧ (∀ s ∈ r.seats, ∀ wish, s ≠ .woken wish) ∧
        ∃ s ∈ r.seats, ∃ wish, s = .parked wish) ∧
      (.parked .shared ∈ r.seats →
        .holding .exclusive ∈ r.seats ∨ ∃ s ∈ r.seats, s.isQueued = true) := by
  refine ⟨?_, h.reader_asleep⟩
  rintro ⟨hheld, hwoken, s, hs, wish, rfl⟩
  have hwriter : .parked .exclusive ∉ r.seats := by
    intro hparked
    rcases h.writer_asleep hparked with ⟨hold, hholder⟩ | hnext
    · exact hheld _ hholder hold rfl
    · exact hwoken _ hnext .exclusive rfl
  cases wish with
  | exclusive => exact hwriter hs
  | shared =>
    rcases h.reader_asleep hs with hholder | ⟨s, hs, hqueued⟩
    · exact hheld _ hholder .exclusive rfl
    · -- who waits as a writer sleeps or was woken
      obtain rfl | rfl : s = .parked .exclusive ∨ s = .woken .exclusive := by
        unfold Seat.isQueued at hqueued
        split at hqueued <;> simp_all
      · exact hwriter hs
      · exact hwoken _ hs .exclusive rfl

/-- Two readers, a writer asleep behind them, and a third reader asleep behind the writer. -/
theorem no_lost_wakeUp_behind_readers :
    ∃ r : Room, r.seats =
        [.holding .shared, .holding .shared, .parked .exclusive, .parked .shared] ∧
      ∃ s ∈ r.seats, s.isQueued = true :=
  ⟨(vacant 4).run [⟨0, .acquire .shared, 0⟩, ⟨1, .acquire .shared, 0⟩, ⟨2, .acquire .exclusive, 0⟩,
      ⟨3, .acquire .shared, 0⟩], rfl,
    ((no_lost_wakeUp ⟨4, _, rfl⟩).2 (by decide)).resolve_left (by decide)⟩

end Room

end SnapshotStore
