import Mathlib.Data.List.Basic
import Mathlib.Logic.Relation
import SnapshotStore.Lock.Room

/-!
# What a stamped lock excludes

The three counters of a stamped lock are tied to what its threads are doing: one reader for every
shared hold, the writer for the exclusive one, and one announcement for every thread that asked for
the exclusive hold and is not in yet (`Room.Orderly`).

Every step is cut into passages (`Room.Passage`): a thread becomes one that looks, goes in, parks,
upgrades, goes out, or means to come back after it went out.  So a reader that overtakes announced
writers by its upgrade, and one that gives its hold back to ask for the exclusive one, are cases
among others, and an invariant of passages is an invariant of rooms (`Room.Reachable.of_passages`).
-/

namespace SnapshotStore

namespace StampedLock

variable {l l' : StampedLock}

/-- A reader is let in if there is no writer and none is announced. -/
theorem enter?_shared_eq_some_iff : l.enter? .shared = some l' ↔
    l.hasWriter = false ∧ l.waiting = 0 ∧ { l with readers := l.readers + 1 } = l' := by
  simp [enter?, admitsReader, and_assoc]

/-- A writer is let in if nobody else is. -/
theorem enter?_exclusive_eq_some_iff : l.enter? .exclusive = some l' ↔
    l.hasWriter = false ∧ l.readers = 0 ∧
      { l with hasWriter := true, waiting := l.waiting - 1 } = l' := by
  simp [enter?, admitsWriter, and_assoc]

/-- A reader becomes the writer if it is the only one counted. -/
theorem upgrade?_eq_some_iff : l.upgrade? = some l' ↔
    l.readers = 1 ∧ l.hasWriter = false ∧ { l with readers := 0, hasWriter := true } = l' := by
  simp [upgrade?, and_assoc]

end StampedLock

/-- Whether a thread asked for the exclusive hold and is not in yet. -/
def Seat.isQueued : Seat → Bool
  | parked .exclusive | woken .exclusive => true
  | _ => false

/-- Who is queued asked for the exclusive hold, and sleeps or was woken. -/
theorem Seat.eq_of_isQueued {s : Seat} (h : s.isQueued = true) :
    s = .parked .exclusive ∨ s = .woken .exclusive := by
  unfold isQueued at h
  split at h <;> simp_all

/-- Whether a thread waits for the lock, asleep or just woken. -/
def Seat.isWaiting : Seat → Bool
  | parked _ | woken _ => true
  | _ => false

namespace Room

variable {r r' : Room} {i j pick : Nat} {a b s : Seat} {hold wish : Hold} {act : Action}
  {lock : StampedLock} {p : Seat → Bool}

/-! ## Seats -/

/-- The number of threads whose seat is of a kind. -/
def tally (r : Room) (p : Seat → Bool) : Nat := r.seats.countP p

/-- The number of threads that hold the lock in one way. -/
def holders (r : Room) (hold : Hold) : Nat := r.tally (· = .holding hold)

/-- The lock has no part in a count of the seats. -/
@[simp] theorem tally_with_lock (r : Room) (lock : StampedLock) (p : Seat → Bool) :
    ({ r with lock } : Room).tally p = r.tally p := rfl

/-- To take another seat does not touch the lock. -/
@[simp] theorem lock_place (r : Room) (i : Nat) (s : Seat) : (r.place i s).lock = r.lock := rfl

/-- When one thread changes its seat, a tally loses its old seat and gains its new one. -/
theorem tally_place (h : r.seats[i]? = some a) (b : Seat) (p : Seat → Bool) :
    (r.place i b).tally p + (p a).toNat = r.tally p + (p b).toNat := by
  obtain ⟨hi, rfl⟩ := List.getElem?_eq_some_iff.mp h
  have hset : (r.place i b).tally p
      = r.tally p - (if p r.seats[i] then 1 else 0) + (if p b then 1 else 0) := List.countP_set hi
  have hle : (if p r.seats[i] then 1 else 0) ≤ r.tally p := List.boole_getElem_le_countP hi
  have htoNat : ∀ x : Bool, x.toNat = if x then 1 else 0 := fun x => by cases x <;> rfl
  rw [htoNat, htoNat]
  omega

/-- A kind is counted if some thread is of it. -/
theorem tally_pos_iff :
    0 < r.tally p ↔ ∃ (i : Nat) (s : Seat), r.seats[i]? = some s ∧ p s = true := by
  rw [tally, List.countP_pos_iff]
  constructor
  · rintro ⟨s, hs, hp⟩
    obtain ⟨i, hi⟩ := List.mem_iff_getElem?.mp hs
    exact ⟨i, s, hi, hp⟩
  · rintro ⟨i, s, hi, hp⟩
    exact ⟨s, List.mem_of_getElem? hi, hp⟩

/-- Nobody is counted if no thread is of the kind. -/
theorem tally_eq_zero_iff :
    r.tally p = 0 ↔ ∀ (i : Nat) (s : Seat), r.seats[i]? = some s → p s = false := by
  rw [← Nat.le_zero, ← Nat.not_lt, tally_pos_iff]
  simp only [not_exists, not_and, Bool.not_eq_true]

/-- A thread that takes a seat sits there. -/
theorem getElem?_place (h : r.seats[i]? = some a) (b : Seat) :
    (r.place i b).seats[i]? = some b := by
  obtain ⟨hi, -⟩ := List.getElem?_eq_some_iff.mp h
  exact List.getElem?_set_self hi

/-- The other threads keep their seats. -/
theorem getElem?_place_of_ne (hij : i ≠ j) (b : Seat) : (r.place i b).seats[j]? = r.seats[j]? :=
  List.getElem?_set_ne hij

/-- A kind has one thread, and it is this one, if no other thread is of the kind. -/
theorem tally_eq_one_iff (hi : r.seats[i]? = some a) (ha : p a = true) (haway : p .away = false) :
    r.tally p = 1 ↔
      ∀ (j : Nat) (s : Seat), r.seats[j]? = some s → p s = true → j = i := by
  have hplace := tally_place hi .away p
  rw [ha, haway] at hplace
  -- Without the thread, nobody of the kind is left.
  have hrest : r.tally p = 1 ↔ (r.place i .away).tally p = 0 := by simp at hplace; omega
  rw [hrest, tally_eq_zero_iff]
  constructor
  · intro hnone j s hj hs
    by_contra hne
    have hfalse := hnone j s ((getElem?_place_of_ne (Ne.symm hne) _).trans hj)
    rw [hs] at hfalse
    cases hfalse
  · intro hone j s hj
    by_cases hne : i = j
    · subst hne
      rw [getElem?_place hi, Option.some_inj] at hj
      rw [← hj, haway]
    · rw [getElem?_place_of_ne hne] at hj
      cases hs : p s with
      | false => rfl
      | true => exact absurd (hone j s hj hs).symm hne

/-- Of two seats one after the other the later one counts. -/
theorem place_place (r : Room) (i : Nat) (a b : Seat) : (r.place i a).place i b = r.place i b :=
  congrArg (Room.mk r.lock) (List.set_set ..)

/-! ## Wake-ups -/

/-- The seat of a thread is the one with its number. -/
theorem seat_eq (h : r.seats[i]? = some a) : r.seat i = a := by rw [seat, h, Option.getD_some]

/-- Among the sleepers with a wish are the threads that sit there. -/
theorem mem_parkedFor : i ∈ r.parkedFor wish ↔ r.seats[i]? = some (.parked wish) := by
  simp only [parkedFor, List.mem_filter, List.mem_range, decide_eq_true_eq]
  constructor
  · rintro ⟨hi, hseat⟩
    rw [seat, List.getElem?_eq_getElem hi, Option.getD_some] at hseat
    rw [List.getElem?_eq_getElem hi, hseat]
  · intro h
    exact ⟨(List.getElem?_eq_some_iff.mp h).1, seat_eq h⟩

/-- A wake-up for writers wakes one parked writer, if there is one. -/
theorem wakeWriter_cases (r : Room) (pick : Nat) :
    (r.tally (· = .parked .exclusive) = 0 ∧ r.wakeWriter pick = r) ∨
      ∃ i, r.seats[i]? = some (.parked .exclusive) ∧
        r.wakeWriter pick = r.place i (.woken .exclusive) := by
  simp only [wakeWriter]
  cases hi : (r.parkedFor .exclusive)[pick % (r.parkedFor .exclusive).length]? with
  | some i => exact .inr ⟨i, mem_parkedFor.mp (List.mem_of_getElem? hi), rfl⟩
  | none =>
    -- The number is taken modulo the number of sleepers, so it finds one if there is one.
    refine .inl ⟨tally_eq_zero_iff.mpr fun j s hj => ?_, rfl⟩
    by_contra hs
    have hj' : r.seats[j]? = some (.parked .exclusive) := by simpa [hj] using hs
    have hlength : 0 < (r.parkedFor .exclusive).length :=
      List.length_pos_of_mem (mem_parkedFor.mpr hj')
    have hlt := Nat.mod_lt pick hlength
    rw [List.getElem?_eq_none_iff] at hi
    omega

/-- Whichever parked writer is to be woken, there is a choice that wakes it. -/
theorem exists_wakeWriter_eq (h : r.seats[i]? = some (.parked .exclusive)) :
    ∃ pick, r.wakeWriter pick = r.place i (.woken .exclusive) := by
  obtain ⟨pick, hpick⟩ := List.mem_iff_getElem?.mp (mem_parkedFor.mpr h)
  have hlt := (List.getElem?_eq_some_iff.mp hpick).1
  refine ⟨pick, ?_⟩
  simp only [wakeWriter, Nat.mod_eq_of_lt hlt, hpick]

/-- Waking a writer does not touch the lock. -/
@[simp] theorem lock_wakeWriter (r : Room) (pick : Nat) : (r.wakeWriter pick).lock = r.lock := by
  rcases r.wakeWriter_cases pick with ⟨-, h⟩ | ⟨i, -, h⟩
  · rw [h]
  · rw [h, lock_place]

/-- Nor does waking the readers. -/
@[simp] theorem lock_wakeReaders (r : Room) : r.wakeReaders.lock = r.lock := rfl

/-- Who is woken stays of a kind that does not tell the woken from the parked. -/
theorem tally_wakeWriter (r : Room) (pick : Nat)
    (hp : p (.parked .exclusive) = p (.woken .exclusive)) :
    (r.wakeWriter pick).tally p = r.tally p := by
  rcases r.wakeWriter_cases pick with ⟨-, h⟩ | ⟨i, hi, h⟩
  · rw [h]
  · have hplace := tally_place hi (.woken .exclusive) p
    rw [h]
    rw [hp] at hplace
    exact Nat.add_right_cancel hplace

/-- Readers that are woken change no count that takes them for sleepers anyway. -/
theorem tally_wakeReaders (r : Room) (hp : p (.parked .shared) = p (.woken .shared)) :
    r.wakeReaders.tally p = r.tally p := by
  unfold wakeReaders tally
  rw [List.countP_map]
  refine List.countP_congr fun a _ => ?_
  by_cases ha : a = .parked .shared
  · simp [ha, hp]
  · simp [ha]

/-- After a wake-up for readers no reader is parked. -/
theorem tally_parked_wakeReaders (r : Room) : r.wakeReaders.tally (· = .parked .shared) = 0 := by
  unfold wakeReaders tally
  rw [List.countP_map, List.countP_eq_zero]
  intro a _
  by_cases ha : a = .parked .shared
  · simp [ha]
  · simp [ha]

/-- Who goes out releases its hold. -/
@[simp] theorem lock_leave (r : Room) (i : Nat) (hold : Hold) (pick : Nat) :
    (r.leave i hold pick).lock = r.lock.release hold := by
  unfold leave
  cases hold with
  | shared => dsimp only; split <;> simp
  | exclusive => dsimp only; split <;> simp

/-- A kind that does not tell the woken from the parked only loses the one who goes out. -/
theorem tally_leave (r : Room) (i : Nat) (hold : Hold) (pick : Nat)
    (hreader : p (.parked .shared) = p (.woken .shared))
    (hwriter : p (.parked .exclusive) = p (.woken .exclusive)) :
    (r.leave i hold pick).tally p = (r.place i .away).tally p := by
  unfold leave
  -- Who wakes whom depends on the hold and on the writers, but a woken thread counts like a
  -- sleeper.
  cases hold with
  | shared =>
    dsimp only
    split
    · exact tally_wakeWriter _ pick hwriter
    · rfl
  | exclusive =>
    dsimp only
    split
    · exact tally_wakeWriter _ pick hwriter
    · exact tally_wakeReaders _ hreader

/-- A wake-up leaves those alone who do not wait. -/
theorem getElem?_wakeWriter (r : Room) (pick : Nat) (ha : a.isWaiting = false) :
    (r.wakeWriter pick).seats[j]? = some a ↔ r.seats[j]? = some a := by
  rcases r.wakeWriter_cases pick with ⟨-, h⟩ | ⟨i, hi, h⟩
  · rw [h]
  · rw [h]
    by_cases hij : i = j
    · subst hij
      rw [getElem?_place hi, hi]
      constructor <;> rintro ⟨⟩ <;> cases ha
    · rw [getElem?_place_of_ne hij]

/-- Who does not sleep and was not woken sits where it sat. -/
theorem getElem?_wakeReaders (r : Room) (ha : a.isWaiting = false) :
    r.wakeReaders.seats[j]? = some a ↔ r.seats[j]? = some a := by
  simp only [wakeReaders, List.getElem?_map, Option.map_eq_some_iff]
  constructor
  · rintro ⟨s, hs, h⟩
    split at h
    · subst h
      cases ha
    · exact h ▸ hs
  · intro h
    refine ⟨a, h, if_neg ?_⟩
    rintro rfl
    cases ha

/-- When a thread goes out, the others that do not wait sit where they sat. -/
theorem getElem?_leave (r : Room) (i : Nat) (hold : Hold) (pick : Nat) (ha : a.isWaiting = false) :
    (r.leave i hold pick).seats[j]? = some a ↔ (r.place i .away).seats[j]? = some a := by
  unfold leave
  cases hold with
  | shared =>
    dsimp only
    split
    · exact getElem?_wakeWriter _ pick ha
    · rfl
  | exclusive =>
    dsimp only
    split
    · exact getElem?_wakeWriter _ pick ha
    · exact getElem?_wakeReaders _ ha

/-! ## Passages -/

/-- A room in which a thread is about to look; a writer has announced itself. -/
def asking (r : Room) (i : Nat) : Hold → Room
  | .shared => r.place i (.woken .shared)
  | .exclusive => { r with lock := r.lock.announce }.place i (.woken .exclusive)

/-- What a thread does at the lock, in the smallest pieces. -/
inductive Passage : Nat → Room → Room → Prop where
  /-- A thread that neither holds nor waits asks, and is about to look. -/
  | ask {r : Room} {i : Nat} {a : Seat} (hi : r.seats[i]? = some a)
      (ha : a = .away ∨ a = .returning) (wish : Hold) : Passage i r (r.asking i wish)
  /-- A thread looks and goes in. -/
  | enter {r : Room} {i : Nat} {wish : Hold} {lock : StampedLock}
      (hi : r.seats[i]? = some (.woken wish)) (hlock : r.lock.enter? wish = some lock) :
      Passage i r ({ r with lock }.place i (.holding wish))
  /-- A thread looks and parks. -/
  | park {r : Room} {i : Nat} {wish : Hold} (hi : r.seats[i]? = some (.woken wish))
      (hlock : r.lock.enter? wish = none) : Passage i r (r.place i (.parked wish))
  /-- The only reader becomes the writer. -/
  | upgrade {r : Room} {i : Nat} {lock : StampedLock} (hi : r.seats[i]? = some (.holding .shared))
      (hlock : r.lock.upgrade? = some lock) :
      Passage i r ({ r with lock }.place i (.holding .exclusive))
  /-- A holder goes out and wakes others. -/
  | leave {r : Room} {i : Nat} {hold : Hold} (hi : r.seats[i]? = some (.holding hold))
      (pick : Nat) : Passage i r (r.leave i hold pick)
  /-- A thread that went out means to come back. -/
  | turn {r : Room} {i : Nat} (hi : r.seats[i]? = some .away) : Passage i r (r.place i .returning)

/-- Looking is going in or parking. -/
theorem Passage.look (hi : r.seats[i]? = some (.woken wish)) : Passage i r (r.look i wish) := by
  cases hlock : r.lock.enter? wish with
  | some lock => simpa only [Room.look, hlock] using Passage.enter hi hlock
  | none => simpa only [Room.look, hlock] using Passage.park hi hlock

/-- What a thread was before it looks makes no difference. -/
theorem look_place (r : Room) (i : Nat) (a : Seat) (wish : Hold) :
    (r.place i a).look i wish = r.look i wish := by
  unfold look
  rw [lock_place]
  cases r.lock.enter? wish with
  | some lock => exact place_place { r with lock } i a _
  | none => exact place_place r i a _

/-- A thread asks for the lock in two passages. -/
theorem request_eq_look (r : Room) (i : Nat) (wish : Hold) :
    r.request i wish = (r.asking i wish).look i wish := by
  cases wish with
  | shared => exact (look_place r i _ _).symm
  | exclusive => exact (look_place { r with lock := r.lock.announce } i _ _).symm

/-- Who asks is then as one that was woken: it looks at the lock itself. -/
theorem getElem?_asking (h : r.seats[i]? = some a) (wish : Hold) :
    (r.asking i wish).seats[i]? = some (.woken wish) := by
  cases wish with
  | shared => exact getElem?_place h _
  | exclusive => exact getElem?_place (r := { r with lock := r.lock.announce }) h _

/-- The passages of one thread, one after the other. -/
abbrev Passages (i : Nat) : Room → Room → Prop := Relation.ReflTransGen (Passage i)

/-- What a step of a thread comes to. -/
inductive Turn (r : Room) (i : Nat) : Room → Prop where
  /-- Nothing changes. -/
  | idle : Turn r i r
  /-- The thread asks for the lock. -/
  | request {a : Seat} (hi : r.seats[i]? = some a) (ha : a = .away ∨ a = .returning)
      (wish : Hold) : Turn r i (r.request i wish)
  /-- The thread was woken and looks. -/
  | look {wish : Hold} (hi : r.seats[i]? = some (.woken wish)) : Turn r i (r.look i wish)
  /-- The only reader becomes the writer. -/
  | upgrade {lock : StampedLock} (hi : r.seats[i]? = some (.holding .shared))
      (hlock : r.lock.upgrade? = some lock) :
      Turn r i ({ r with lock }.place i (.holding .exclusive))
  /-- A holder goes out. -/
  | leave {hold : Hold} (hi : r.seats[i]? = some (.holding hold)) (pick : Nat) :
      Turn r i (r.leave i hold pick)
  /-- A reader goes out and means to come back as the writer. -/
  | turn (hi : r.seats[i]? = some (.holding .shared)) (pick : Nat) :
      Turn r i ((r.leave i .shared pick).place i .returning)

/-- Every step is one of the turns. -/
theorem turn_of_step (h : r.step? i act pick = some r') : Turn r i r' := by
  cases hi : r.seats[i]? with
  | none => cases act <;> simp [step?, hi] at h
  | some a =>
    cases act <;> cases a <;> simp only [step?, hi, Option.some_inj, reduceCtorEq] at h
    case acquire.away hold => exact h ▸ .request hi (.inl rfl) hold
    case tryShare.away =>
      cases hlock : r.lock.enter? .shared with
      | none =>
        simp only [hlock, Option.some_inj] at h
        exact h ▸ .idle
      | some lock =>
        -- an attempt that is let in does what a request does
        have hrequest : r.request i .shared = { r with lock }.place i (.holding .shared) := by
          simp only [request, Room.look, hlock]
        simp only [hlock, Option.some_inj] at h
        exact h ▸ hrequest ▸ .request hi (.inl rfl) .shared
    case upgrade.holding hold =>
      cases hold with
      | exclusive => exact Option.some_inj.mp h ▸ .idle
      | shared =>
        cases hlock : r.lock.upgrade? with
        | none =>
          simp only [hlock, Option.some_inj] at h
          exact h ▸ .idle
        | some lock =>
          simp only [hlock, Option.some_inj] at h
          exact h ▸ .upgrade hi hlock
    case reacquire.holding hold =>
      cases hold with
      | exclusive => exact Option.some_inj.mp h ▸ .idle
      | shared => exact Option.some_inj.mp h ▸ .turn hi pick
    case drop.holding hold => exact h ▸ .leave hi pick
    case resume.returning => exact h ▸ .request hi (.inr rfl) .exclusive
    case resume.woken wish => exact h ▸ .look hi

/-- Who goes out is away. -/
theorem getElem?_leave_self (hi : r.seats[i]? = some a) (hold : Hold) (pick : Nat) :
    (r.leave i hold pick).seats[i]? = some .away :=
  (getElem?_leave r i hold pick rfl).mpr (getElem?_place hi _)

/-- A step is made of passages. -/
theorem Turn.passages (h : Turn r i r') : Passages i r r' := by
  cases h with
  | idle => exact .refl
  | request hi ha wish =>
    -- A request is an announcement and then a look.
    rw [request_eq_look]
    exact (Relation.ReflTransGen.single (.ask hi ha wish)).tail (.look (getElem?_asking hi wish))
  | look hi => exact .single (.look hi)
  | upgrade hi hlock => exact .single (.upgrade hi hlock)
  | leave hi pick => exact .single (.leave hi pick)
  | turn hi pick =>
    -- To ask for the lock again is to go out first.
    exact (Relation.ReflTransGen.single (.leave hi pick)).tail
      (.turn (getElem?_leave_self hi .shared pick))

/-- The rooms that come about: any number of threads, and any interleaving of their actions. -/
def Reachable (r : Room) : Prop := ∃ n moves, (vacant n).run moves = r

/-- A move is made of passages of its thread, or of none. -/
theorem passages_move (r : Room) (m : Move) : Passages m.thread r (r.move m) := by
  unfold move
  cases h : r.step? m.thread m.action m.pick with
  | none => exact .refl
  | some r' => exact (turn_of_step h).passages

/-- What holds of idle locks, and is kept by every passage, holds of every reachable room. -/
theorem Reachable.of_passages {P : Room → Prop} (h : r.Reachable) (hvacant : ∀ n, P (vacant n))
    (hpassage : ∀ i r r', Passage i r r' → P r → P r') : P r := by
  obtain ⟨n, moves, rfl⟩ := h
  refine List.foldlRecOn moves move (hvacant n) fun r hr m _ => ?_
  have hpassages := passages_move r m
  generalize r.move m = r' at hpassages ⊢
  induction hpassages with
  | refl => exact hr
  | tail _ hlast ih => exact hpassage _ _ _ hlast ih

/-! ## The counters -/

/-- The number of threads that asked for the exclusive hold and are not in yet. -/
def queued (r : Room) : Nat := r.tally Seat.isQueued

/-- The counters of the lock are the numbers of the threads that they stand for. -/
structure Orderly (r : Room) : Prop where
  /-- Every shared hold is counted. -/
  readers_eq : r.lock.readers = r.holders .shared
  /-- The exclusive hold is marked. -/
  writer_eq : r.lock.hasWriter.toNat = r.holders .exclusive
  /-- Every announcement is counted. -/
  waiting_eq : r.lock.waiting = r.queued
  /-- There are no readers beside the writer. -/
  alone : r.lock.hasWriter = true → r.lock.readers = 0

/-- In an empty room all counters are zero. -/
theorem orderly_vacant (n : Nat) : (vacant n).Orderly := by
  have hnone : ∀ p : Seat → Bool, p .away = false → (vacant n).tally p = 0 := fun p hp =>
    List.countP_eq_zero.mpr fun s hs => by simp [List.eq_of_mem_replicate hs, hp]
  exact
    { readers_eq := (hnone _ rfl).symm
      writer_eq := (hnone _ rfl).symm
      waiting_eq := (hnone _ rfl).symm
      alone := fun h => absurd h (by simp [vacant, StampedLock.idle]) }

namespace Orderly

/-- Beside a shared hold the readers are not zero. -/
theorem readers_pos (h : r.Orderly) (hi : r.seats[i]? = some (.holding .shared)) :
    0 < r.lock.readers := by
  rw [h.readers_eq]
  exact tally_pos_iff.mpr ⟨i, _, hi, rfl⟩

/-- Beside an exclusive hold the writer is marked. -/
theorem hasWriter (h : r.Orderly) (hi : r.seats[i]? = some (.holding .exclusive)) :
    r.lock.hasWriter = true := by
  have hpos : 0 < r.holders .exclusive := tally_pos_iff.mpr ⟨i, _, hi, rfl⟩
  rw [← h.writer_eq] at hpos
  cases hwriter : r.lock.hasWriter with
  | true => rfl
  | false => rw [hwriter] at hpos; contradiction

/-- One thread changes its seat, others may be woken, and the counters follow. -/
theorem change (h : r.Orderly) (hi : r.seats[i]? = some a)
    (htally : ∀ p : Seat → Bool, p (.parked .shared) = p (.woken .shared) →
      p (.parked .exclusive) = p (.woken .exclusive) → r'.tally p = (r.place i b).tally p)
    (hreaders : r'.lock.readers + (decide (a = .holding .shared)).toNat
      = r.lock.readers + (decide (b = .holding .shared)).toNat)
    (hwriter : r'.lock.hasWriter.toNat + (decide (a = .holding .exclusive)).toNat
      = r.lock.hasWriter.toNat + (decide (b = .holding .exclusive)).toNat)
    (hwaiting : r'.lock.waiting + a.isQueued.toNat = r.lock.waiting + b.isQueued.toNat)
    (halone : r'.lock.hasWriter = true → r'.lock.readers = 0) : r'.Orderly := by
  have hshared := tally_place hi b (· = .holding .shared)
  have hexclusive := tally_place hi b (· = .holding .exclusive)
  have hqueued := tally_place hi b Seat.isQueued
  -- Each counter and the seats that it stands for change by the same number.
  rw [← htally _ rfl rfl] at hshared hexclusive hqueued
  obtain ⟨hr, hw, hq, -⟩ := h
  unfold holders at hr hw
  unfold queued at hq
  exact
    { readers_eq := by unfold holders; omega
      writer_eq := by unfold holders; omega
      waiting_eq := by unfold queued; omega
      alone := halone }

/-- Every passage keeps the counters right. -/
theorem passage (h : r.Orderly) (hstep : Passage i r r') : r'.Orderly := by
  cases hstep with
  | ask hi ha wish =>
    cases wish with
    | shared =>
      refine h.change hi (b := .woken .shared) (fun p _ _ => rfl) ?_ ?_ ?_ h.alone
      all_goals rcases ha with rfl | rfl <;> rfl
    | exclusive =>
      refine h.change hi (b := .woken .exclusive) (fun p _ _ => rfl) ?_ ?_ ?_ h.alone
      all_goals rcases ha with rfl | rfl <;> rfl
  | @enter i r wish lock hi hlock =>
    cases wish with
    | shared =>
      obtain ⟨hfree, -, rfl⟩ := StampedLock.enter?_shared_eq_some_iff.mp hlock
      refine h.change hi (b := .holding .shared) (fun p _ _ => rfl) rfl rfl rfl fun hw => ?_
      exact absurd hw (by simp [hfree])
    | exclusive =>
      obtain ⟨hfree, hnone, rfl⟩ := StampedLock.enter?_exclusive_eq_some_iff.mp hlock
      -- It was announced, so the announcement can be taken back.
      have hpos : 0 < r.lock.waiting := by
        rw [h.waiting_eq]
        exact tally_pos_iff.mpr ⟨i, _, hi, rfl⟩
      refine h.change hi (b := .holding .exclusive) (fun p _ _ => rfl) rfl ?_ ?_ fun _ => hnone
      · simp [hfree]
      · simp [Seat.isQueued]; omega
  | @park i r wish hi hlock =>
    refine h.change hi (b := .parked wish) (fun p _ _ => rfl) rfl rfl ?_ h.alone
    cases wish <;> rfl
  | upgrade hi hlock =>
    obtain ⟨hone, hfree, rfl⟩ := StampedLock.upgrade?_eq_some_iff.mp hlock
    refine h.change hi (b := .holding .exclusive) (fun p _ _ => rfl) ?_ ?_ rfl fun _ => rfl
    · simp [hone]
    · simp [hfree]
  | @leave i r hold hi pick =>
    have htally := fun p hr hw => tally_leave (p := p) r i hold pick hr hw
    cases hold with
    | shared =>
      -- It was counted, so the counter can go down.
      have hpos := h.readers_pos hi
      refine h.change hi (b := .away) htally ?_ ?_ ?_ fun hwriter => ?_
      all_goals rw [lock_leave] at *
      · exact Nat.sub_add_cancel hpos
      · rfl
      · rfl
      · rw [h.alone hwriter] at hpos
        contradiction
    | exclusive =>
      have hwriter := h.hasWriter hi
      refine h.change hi (b := .away) htally ?_ ?_ ?_ fun hfree => ?_
      all_goals rw [lock_leave] at *
      · rfl
      · rw [hwriter]
        rfl
      · rfl
      · cases hfree
  | turn hi => exact h.change hi (b := .returning) (fun p _ _ => rfl) rfl rfl rfl h.alone

end Orderly

/-- In every reachable room the counters are right. -/
theorem Reachable.orderly (h : r.Reachable) : r.Orderly :=
  h.of_passages orderly_vacant fun _ _ _ hpassage horderly => horderly.passage hpassage

/-! ## Who is let in -/

/-- A thread that sits somewhere after another took a seat is that thread, or sat there before. -/
theorem place_cases (hi : r.seats[i]? = some a) (hj : (r.place i b).seats[j]? = some s) :
    j = i ∧ b = s ∨ r.seats[j]? = some s := by
  by_cases hij : i = j
  · subst hij
    rw [getElem?_place hi, Option.some_inj] at hj
    exact .inl ⟨rfl, hj⟩
  · rw [getElem?_place_of_ne hij] at hj
    exact .inr hj

/-- A look that ends in a new shared hold found no writer, and none announced. -/
theorem look_admits (hi : r.seats[i]? = some a)
    (hj : (r.look i wish).seats[j]? = some (.holding .shared)) :
    r.seats[j]? = some (.holding .shared) ∨
      j = i ∧ wish = .shared ∧ r.lock.hasWriter = false ∧ r.lock.waiting = 0 := by
  -- Turned away, a thread is parked; let in, it has the hold that it wished for.
  unfold look at hj
  cases hlock : r.lock.enter? wish with
  | none =>
    rw [hlock] at hj
    rcases place_cases hi hj with ⟨-, hs⟩ | hs
    · cases hs
    · exact .inl hs
  | some lock =>
    rw [hlock] at hj
    rcases place_cases (r := { r with lock }) hi hj with ⟨rfl, hs⟩ | hs
    · cases hs
      obtain ⟨hfree, hnone, -⟩ := StampedLock.enter?_shared_eq_some_iff.mp hlock
      exact .inr ⟨rfl, rfl, hfree, hnone⟩
    · exact .inl hs

/-- The same goes for a request. -/
theorem request_admits (hi : r.seats[i]? = some a)
    (hj : (r.request i wish).seats[j]? = some (.holding .shared)) :
    r.seats[j]? = some (.holding .shared) ∨
      j = i ∧ r.lock.hasWriter = false ∧ r.lock.waiting = 0 := by
  cases wish with
  | shared =>
    rcases look_admits hi hj with hs | ⟨rfl, -, hfree⟩
    · exact .inl hs
    · exact .inr ⟨rfl, hfree⟩
  | exclusive =>
    rcases look_admits (r := { r with lock := r.lock.announce }) hi hj with hs | ⟨-, hwish, -⟩
    · exact .inl hs
    · cases hwish

/-- Who goes out lets nobody in. -/
theorem leave_admits (hi : r.seats[i]? = some a)
    (hj : (r.leave i hold pick).seats[j]? = some (.holding .shared)) :
    r.seats[j]? = some (.holding .shared) := by
  rcases place_cases hi ((getElem?_leave r i hold pick rfl).mp hj) with ⟨-, hs⟩ | hs
  · cases hs
  · exact hs

/-- A step that ends in a new shared hold found no writer, and none announced. -/
theorem Turn.admits (h : Turn r i r') (hj : r'.seats[j]? = some (.holding .shared)) :
    r.seats[j]? = some (.holding .shared) ∨
      j = i ∧ r.lock.hasWriter = false ∧ r.lock.waiting = 0 := by
  cases h with
  | idle => exact .inl hj
  | request hi ha wish => exact request_admits hi hj
  | look hi =>
    rcases look_admits hi hj with hs | ⟨rfl, -, hfree⟩
    · exact .inl hs
    · exact .inr ⟨rfl, hfree⟩
  | upgrade hi hlock =>
    rcases place_cases hi hj with ⟨-, hs⟩ | hs
    · cases hs
    · exact .inl hs
  | leave hi pick => exact .inl (leave_admits hi hj)
  | turn hi pick =>
    rcases place_cases (getElem?_leave_self hi .shared pick) hj with ⟨-, hs⟩ | hs
    · cases hs
    · exact .inl (leave_admits hi hs)

/-- What a stamped lock excludes. -/
structure Exclusive (r : Room) : Prop where
  /-- The lock counts the shared holds. -/
  readers_eq : r.lock.readers = r.holders .shared
  /-- The lock has a writer if there is exactly one exclusive hold. -/
  writer_iff : r.lock.hasWriter = true ↔ r.holders .exclusive = 1
  /-- Beside an exclusive hold there is no other. -/
  alone : ∀ (i j : Nat) (hold : Hold), r.seats[i]? = some (.holding .exclusive) →
    r.seats[j]? = some (.holding hold) → j = i
  /-- The lock counts the threads that asked for the exclusive hold and are not in yet. -/
  waiting_eq : r.lock.waiting = r.queued
  /-- A thread gets a shared hold only if nobody has the exclusive one or waits for it. -/
  admits : ∀ (i : Nat) (action : Action) (pick : Nat) (r' : Room),
    r.step? i action pick = some r' → ∀ j, r'.seats[j]? = some (.holding .shared) →
      r.seats[j]? = some (.holding .shared) ∨ j = i ∧ r.holders .exclusive = 0 ∧ r.queued = 0
  /-- A reader becomes the writer if its hold is the only one, and otherwise stays as it is. -/
  upgrades : ∀ i pick : Nat, r.seats[i]? = some (.holding .shared) →
    ∃ r', r.step? i .upgrade pick = some r' ∧
      (r'.seats[i]? = some (.holding .exclusive) ↔
        ∀ (j : Nat) (hold : Hold), r.seats[j]? = some (.holding hold) → j = i) ∧
      (r'.seats[i]? ≠ some (.holding .exclusive) → r' = r)
  /-- A reader that goes out was counted. -/
  counted : ∀ (i : Nat) (action : Action) (pick : Nat), action = .drop ∨ action = .reacquire →
    r.seats[i]? = some (.holding .shared) →
      ∃ r', r.step? i action pick = some r' ∧ r'.lock.readers + 1 = r.lock.readers

namespace Orderly

/-- Beside the writer there is no other holder. -/
theorem eq_of_exclusive (h : r.Orderly) (hi : r.seats[i]? = some (.holding .exclusive))
    (hj : r.seats[j]? = some (.holding hold)) : j = i := by
  have hwriter := h.hasWriter hi
  cases hold with
  | shared =>
    have hpos := h.readers_pos hj
    rw [h.alone hwriter] at hpos
    contradiction
  | exclusive =>
    have hone : r.tally (· = .holding .exclusive) = 1 := by
      rw [← holders, ← h.writer_eq, hwriter]
      rfl
    exact (tally_eq_one_iff hi (by simp) (by simp)).mp hone j _ hj (by simp)

/-- A reader can become the writer if it is the only holder. -/
theorem upgradable_iff (h : r.Orderly) (hi : r.seats[i]? = some (.holding .shared)) :
    (∃ lock, r.lock.upgrade? = some lock) ↔
      ∀ (j : Nat) (hold : Hold), r.seats[j]? = some (.holding hold) → j = i := by
  -- The lock counts one reader exactly if nobody else holds it shared.
  have hone := tally_eq_one_iff (p := (· = .holding .shared)) hi (by simp) (by simp)
  rw [← holders, ← h.readers_eq] at hone
  constructor
  · rintro ⟨lock, hlock⟩ j hold hj
    obtain ⟨hreaders, hfree, -⟩ := StampedLock.upgrade?_eq_some_iff.mp hlock
    cases hold with
    | shared => exact hone.mp hreaders j _ hj (by simp)
    | exclusive => exact absurd (h.hasWriter hj) (by simp [hfree])
  · intro honly
    have hreaders : r.lock.readers = 1 := hone.mpr fun j s hj hs =>
      honly j .shared (by rw [hj, of_decide_eq_true hs])
    have hfree : r.lock.hasWriter = false := by
      by_contra hwriter
      rw [h.alone (by simpa using hwriter)] at hreaders
      contradiction
    exact ⟨_, StampedLock.upgrade?_eq_some_iff.mpr ⟨hreaders, hfree, rfl⟩⟩

end Orderly

/-- **Every reachable room excludes what a stamped lock has to exclude.** So its counters cannot run
below zero either: a reader that goes out was counted. -/
theorem exclusion (h : r.Reachable) : r.Exclusive := by
  have horderly := h.orderly
  exact
    { readers_eq := horderly.readers_eq
      writer_iff := by
        rw [← horderly.writer_eq]
        cases r.lock.hasWriter <;> simp
      alone := fun i j hold hi hj => horderly.eq_of_exclusive hi hj
      waiting_eq := horderly.waiting_eq
      admits := by
        intro i action pick r' hstep j hj
        rcases (turn_of_step hstep).admits hj with hs | ⟨rfl, hfree, hnone⟩
        · exact .inl hs
        · refine .inr ⟨rfl, ?_, ?_⟩
          · rw [← horderly.writer_eq, hfree]
            rfl
          · rw [← horderly.waiting_eq, hnone]
      upgrades := by
        intro i pick hi
        rw [← horderly.upgradable_iff hi]
        cases hlock : r.lock.upgrade? with
        | some lock =>
          have hseat := getElem?_place (r := { r with lock }) hi (.holding .exclusive)
          exact ⟨{ r with lock }.place i (.holding .exclusive), by simp only [step?, hi, hlock],
            by simp [hseat], fun hne => absurd hseat hne⟩
        | none => exact ⟨r, by simp only [step?, hi, hlock], by simp [hi], fun _ => rfl⟩
      counted := by
        intro i action pick haction hi
        have hpos := horderly.readers_pos hi
        have hlock : (r.leave i .shared pick).lock.readers + 1 = r.lock.readers := by
          rw [lock_leave]
          exact Nat.sub_add_cancel hpos
        rcases haction with rfl | rfl
        · exact ⟨r.leave i .shared pick, by simp only [step?, hi], hlock⟩
        · exact ⟨(r.leave i .shared pick).place i .returning, by simp only [step?, hi], hlock⟩ }

/-- A lock with a reader, and a writer that waits for it. -/
theorem exclusion_reader_and_waiting_writer :
    ∃ r : Room, r.seats = [.holding .shared, .parked .exclusive] ∧ r.lock.waiting = 1 ∧
      r.Exclusive :=
  ⟨(vacant 2).run [⟨0, .acquire .shared, 0⟩, ⟨1, .acquire .exclusive, 0⟩], rfl, rfl,
    exclusion ⟨2, _, rfl⟩⟩

end Room

end SnapshotStore
