import SnapshotStore.Dictionary.Update
import SnapshotStore.Proofs.Lock.Exclusion
import SnapshotStore.Work.Backend

/-!
# Guests at the stripes

A hall has a room for every stripe, and a seat in every room for every guest.  A guest runs one
errand after the other: some work under the stripes of many keys, some work under the stripe of one
key, or an update.  On its turn a guest performs the next effect of its work (`Hall.turn?`).  At a
stripe it acts as a thread of the room: it parks if it is not let in, and then has no turn until
somebody wakes it.  A schedule says whose turn it is, and which sleeper is woken if one is to be.

A turn changes the seat of its guest in one room as the action says (`Seat.Shift`).  Other guests
are only ever woken by it (`Room.Spares`).
-/

namespace SnapshotStore

/-! ## Errands -/

/-- Whether an effect is a step at a lock. -/
def Effect.isLocking : Effect → Bool
  | announce _ | enter .. | upgrade _ | leave .. => true
  | _ => false

/-- Work that leaves the locks alone. -/
def Work.IsLockFree {ε α : Type} : Work ε α → Prop
  | finish _ => True
  | perform q next => q.isLocking = false ∧ ∀ a, (next a).IsLockFree
  | send _ next => ∀ heard, (next heard).IsLockFree

/-- What a guest wants done; the answer is not kept. -/
inductive Errand : Type 1 where
  /-- Some work under the stripes of some keys. -/
  | bulk {α : Type} (hold : Hold) (keys : List Bytes) (body : Work Empty α)
      (hbody : body.IsLockFree)
  /-- Some work under the stripe of one key. -/
  | single {α : Type} (hold : Hold) (key : Bytes) (body : Work Empty α) (hbody : body.IsLockFree)
  /-- An update of a key. -/
  | update (d : Dictionary) (key : Bytes) (f : Updater) (sure : Bool)

/-- The work of an errand. -/
def Errand.work (s : Striping) : Errand → Work Empty Unit
  | bulk hold keys body _ => do let _ ← Work.holding hold (s.indices keys) body
  | single hold key body _ => do let _ ← Work.holding hold [s.index key] body
  | update d key f sure => do let _ ← d.updateAt (s.index key) key f sure

/-! ## The hall -/

/-- Somebody with errands. -/
structure Guest where
  /-- What is left of the present errand. -/
  work : Work Empty Unit
  /-- The errands after that. -/
  agenda : List Errand

/-- Guests at the stripes of a dictionary. -/
structure Hall where
  /-- Which stripe a key belongs to. -/
  striping : Striping
  /-- What the guests share besides the stripes. -/
  backend : Backend
  /-- The stripes, each with a seat for every guest. -/
  rooms : List Room
  /-- The guests. -/
  guests : List Guest

namespace Hall

/-- A hall in which nothing has happened yet. -/
def start (s : Striping) (b : Backend) (agendas : List (List Errand)) : Hall where
  striping := s
  backend := b
  rooms := List.replicate s.count (.vacant agendas.length)
  guests := agendas.map fun agenda => ⟨.finish (.done ()), agenda⟩

/-- What a guest is doing at a stripe. -/
def seat (h : Hall) (i k : Nat) : Seat :=
  match h.rooms[k]? with
  | some r => r.seat i
  | none => .away

/-- A guest acts at a stripe, if it can. -/
def act? (h : Hall) (i k : Nat) (a : Room.Action) (pick : Nat) : Option Hall :=
  match h.rooms[k]? with
  | some r => (r.step? i a pick).map fun r => { h with rooms := h.rooms.set k r }
  | none => none

/-- Whether a guest is in after it asked for a stripe or looked again. -/
def entered (i k : Nat) (hold : Hold) (h : Hall) : Option Unit × Hall :=
  (if h.seat i k = .holding hold then some () else none, h)

/-- An effect of a guest: its answer, unless the guest has to wait for it, and the hall after it; or
nothing, if the guest sleeps.  A writer asks for its stripe when it announces itself. -/
def perform? (h : Hall) (i pick : Nat) : (q : Effect) → Option (Option q.Answer × Hall)
  | .announce k => (h.act? i k (.acquire .exclusive) pick).map fun h => (some (), h)
  | .enter .exclusive k =>
    if h.seat i k = .holding .exclusive then some (some (), h)
    else (h.act? i k .resume pick).map (entered i k .exclusive)
  | .enter .shared k =>
    (h.act? i k (if h.seat i k = .away then .acquire .shared else .resume) pick).map
      (entered i k .shared)
  | .upgrade k => (h.act? i k .upgrade pick).map fun h =>
    (some (h.seat i k = .holding .exclusive), h)
  | .leave _ k => (h.act? i k .drop pick).map fun h => (some (), h)
  | q => (h.backend.answer? q).map fun (a, b) => (some a, { h with backend := b })

/-- A guest goes on with other work. -/
def goOn (h : Hall) (i : Nat) (g : Guest) : Hall := { h with guests := h.guests.set i g }

/-- The turn of a guest, if it has something to do and does not sleep. -/
def turn? (h : Hall) (i pick : Nat) : Option Hall :=
  match h.guests[i]? with
  | some ⟨.perform q next, agenda⟩ =>
    (h.perform? i pick q).map fun (a, h) => h.goOn i ⟨a.elim (.perform q next) next, agenda⟩
  | some ⟨.send _ next, agenda⟩ => some (h.goOn i ⟨next false, agenda⟩)
  | some ⟨.finish _, errand :: agenda⟩ => some (h.goOn i ⟨errand.work h.striping, agenda⟩)
  | _ => none

/-- Guests take turns as a schedule says: who it is, and the number that chooses whom it wakes. -/
def run (h : Hall) (schedule : List (Nat × Nat)) : Hall :=
  schedule.foldl (fun h x => (h.turn? x.1 x.2).getD h) h

end Hall

/-! ## Acting in a room -/

/-- What an action makes of the seat of the thread that takes it. -/
inductive Seat.Shift : Room.Action → Seat → Seat → Prop where
  | enter (hold : Hold) : Shift (.acquire hold) .away (.holding hold)
  | park (hold : Hold) : Shift (.acquire hold) .away (.parked hold)
  | share : Shift .tryShare .away (.holding .shared)
  | pass : Shift .tryShare .away .away
  | upgrade : Shift .upgrade (.holding .shared) (.holding .exclusive)
  | keep (hold : Hold) : Shift .upgrade (.holding hold) (.holding hold)
  | turn : Shift .reacquire (.holding .shared) .returning
  | own : Shift .reacquire (.holding .exclusive) (.holding .exclusive)
  | drop (hold : Hold) : Shift .drop (.holding hold) .away
  | enterAgain : Shift .resume .returning (.holding .exclusive)
  | parkAgain : Shift .resume .returning (.parked .exclusive)
  | enterWoken (wish : Hold) : Shift .resume (.woken wish) (.holding wish)
  | parkWoken (wish : Hold) : Shift .resume (.woken wish) (.parked wish)

namespace Room

variable {r r' : Room} {i j pick : Nat} {a : Action} {s s' : Seat} {wish : Hold}

/-- Who looks is in or parked. -/
theorem getElem?_look (hi : r.seats[i]? = some s) (wish : Hold) :
    (r.look i wish).seats[i]? = some (.holding wish) ∨
      (r.look i wish).seats[i]? = some (.parked wish) := by
  unfold look
  cases r.lock.enter? wish with
  | some lock => exact .inl (getElem?_place (r := { r with lock }) hi _)
  | none => exact .inr (getElem?_place hi _)

/-- So is who asks. -/
theorem getElem?_request (hi : r.seats[i]? = some s) (wish : Hold) :
    (r.request i wish).seats[i]? = some (.holding wish) ∨
      (r.request i wish).seats[i]? = some (.parked wish) := by
  rw [request_eq_look]
  exact getElem?_look (getElem?_asking hi wish) wish

/-- A step moves its thread as the action says. -/
theorem shift_of_step (h : r.step? i a pick = some r') (hi : r.seats[i]? = some s) :
    ∃ s', r'.seats[i]? = some s' ∧ s.Shift a s' := by
  -- The cases that are left are the seats from where the action can be taken.
  cases a <;> cases s <;> simp only [step?, hi, Option.some_inj, reduceCtorEq] at h
  case acquire.away hold =>
    subst h
    rcases getElem?_request hi hold with hs | hs
    · exact ⟨_, hs, .enter hold⟩
    · exact ⟨_, hs, .park hold⟩
  case tryShare.away =>
    cases hlock : r.lock.enter? .shared with
    | none =>
      simp only [hlock, Option.some_inj] at h
      exact ⟨_, h ▸ hi, .pass⟩
    | some lock =>
      simp only [hlock, Option.some_inj] at h
      exact ⟨_, h ▸ getElem?_place (r := { r with lock }) hi _, .share⟩
  case upgrade.holding hold =>
    cases hold with
    | exclusive => exact ⟨_, Option.some_inj.mp h ▸ hi, .keep _⟩
    | shared =>
      cases hlock : r.lock.upgrade? with
      | none =>
        simp only [hlock, Option.some_inj] at h
        exact ⟨_, h ▸ hi, .keep _⟩
      | some lock =>
        simp only [hlock, Option.some_inj] at h
        exact ⟨_, h ▸ getElem?_place (r := { r with lock }) hi _, .upgrade⟩
  case reacquire.holding hold =>
    cases hold with
    | exclusive => exact ⟨_, Option.some_inj.mp h ▸ hi, .own⟩
    | shared =>
      have hleave := getElem?_leave_self hi .shared pick
      exact ⟨_, Option.some_inj.mp h ▸ getElem?_place hleave _, .turn⟩
  case drop.holding hold => exact ⟨_, h ▸ getElem?_leave_self hi hold pick, .drop hold⟩
  case resume.returning =>
    subst h
    rcases getElem?_request hi .exclusive with hs | hs
    · exact ⟨_, hs, .enterAgain⟩
    · exact ⟨_, hs, .parkAgain⟩
  case resume.woken wish =>
    subst h
    rcases getElem?_look hi wish with hs | hs
    · exact ⟨_, hs, .enterWoken wish⟩
    · exact ⟨_, hs, .parkWoken wish⟩

/-- Whoever sits where an action starts can take it. -/
theorem exists_step (hi : r.seats[i]? = some s) (hshift : s.Shift a s') (pick : Nat) :
    ∃ r', r.step? i a pick = some r' := by
  cases hshift <;> simp only [step?, hi]
  case share | pass => cases r.lock.enter? .shared <;> exact ⟨_, rfl⟩
  case upgrade => cases r.lock.upgrade? <;> exact ⟨_, rfl⟩
  case keep hold =>
    cases hold with
    | shared => cases r.lock.upgrade? <;> exact ⟨_, rfl⟩
    | exclusive => exact ⟨_, rfl⟩
  all_goals exact ⟨_, rfl⟩

/-- A thread of one room is in the other room what it was, but may have been woken. -/
def Spares (r r' : Room) (j : Nat) : Prop :=
  r'.seats[j]? = r.seats[j]? ∨
    ∃ wish, r.seats[j]? = some (.parked wish) ∧ r'.seats[j]? = some (.woken wish)

/-- One writer is woken, and the others sit where they sat. -/
theorem spares_wakeWriter (r : Room) (pick j : Nat) : r.Spares (r.wakeWriter pick) j := by
  rcases r.wakeWriter_cases pick with ⟨-, hsame⟩ | ⟨i, hi, hwake⟩
  · exact .inl (by rw [hsame])
  · rw [hwake]
    by_cases hij : i = j
    · subst hij
      exact .inr ⟨_, hi, getElem?_place hi _⟩
    · exact .inl (getElem?_place_of_ne hij _)

/-- The sleeping readers are woken, and the others sit where they sat. -/
theorem spares_wakeReaders (r : Room) (j : Nat) : r.Spares r.wakeReaders j := by
  unfold Spares wakeReaders
  rw [List.getElem?_map]
  cases hj : r.seats[j]? with
  | none => exact .inl rfl
  | some s =>
    by_cases hs : s = .parked .shared
    · exact .inr ⟨.shared, by rw [hs], by rw [Option.map_some, if_pos hs]⟩
    · exact .inl (by rw [Option.map_some, if_neg hs])

/-- Who goes out wakes others at most. -/
theorem spares_leave (r : Room) (hij : i ≠ j) (hold : Hold) (pick : Nat) :
    r.Spares (r.leave i hold pick) j := by
  have hplace : ∀ lock : StampedLock, ({ r with lock }.place i .away).seats[j]? = r.seats[j]? :=
    fun lock => getElem?_place_of_ne (r := { r with lock }) hij .away
  -- The lock that the thread leaves behind is no part of the seats.
  have hwake : ∀ (lock : StampedLock) (r' : Room), Spares ({ r with lock }.place i .away) r' j →
      r.Spares r' j := by
    intro lock r' hspares
    rwa [Spares, hplace] at hspares
  unfold leave
  cases hold with
  | shared =>
    dsimp only
    split
    · exact hwake _ _ (spares_wakeWriter _ pick j)
    · exact .inl (hplace _)
  | exclusive =>
    dsimp only
    split
    · exact hwake _ _ (spares_wakeWriter _ pick j)
    · exact hwake _ _ (spares_wakeReaders _ j)

/-- Who looks at the lock moves nobody else. -/
theorem getElem?_look_of_ne (r : Room) (hij : i ≠ j) (wish : Hold) :
    (r.look i wish).seats[j]? = r.seats[j]? := by
  unfold look
  cases r.lock.enter? wish with
  | some lock => exact getElem?_place_of_ne (r := { r with lock }) hij _
  | none => exact getElem?_place_of_ne hij _

/-- An action wakes others at most. -/
theorem spares_of_step (h : r.step? i a pick = some r') (hij : i ≠ j) : r.Spares r' j := by
  cases turn_of_step h with
  | idle => exact .inl rfl
  | request _ _ wish =>
    cases wish with
    | shared => exact .inl (getElem?_look_of_ne r hij _)
    | exclusive => exact .inl (getElem?_look_of_ne { r with lock := r.lock.announce } hij _)
  | look => exact .inl (getElem?_look_of_ne r hij _)
  | @upgrade lock => exact .inl (getElem?_place_of_ne (r := { r with lock }) hij _)
  | leave _ pick => exact r.spares_leave hij _ pick
  | turn _ pick =>
    have hleave := r.spares_leave hij .shared pick
    rwa [Spares, ← getElem?_place_of_ne hij .returning] at hleave

/-- Only a thread that has a seat acts. -/
theorem exists_seat_of_step (h : r.step? i a pick = some r') : ∃ s, r.seats[i]? = some s := by
  cases hi : r.seats[i]? with
  | none => cases a <;> simp [step?, hi] at h
  | some s => exact ⟨s, rfl⟩

/-- There are as many seats as before. -/
theorem length_seats_of_step (h : r.step? i a pick = some r') :
    r'.seats.length = r.seats.length := by
  -- A number has a seat after the step if it had one before.
  have hseat : ∀ j : Nat, r'.seats.length ≤ j ↔ r.seats.length ≤ j := by
    intro j
    rw [← List.getElem?_eq_none_iff, ← List.getElem?_eq_none_iff]
    by_cases hij : i = j
    · subst hij
      obtain ⟨s, hi⟩ := exists_seat_of_step h
      obtain ⟨s', hi', -⟩ := shift_of_step h hi
      simp [hi, hi']
    · rcases spares_of_step h hij with hsame | ⟨wish, hj, hj'⟩
      · rw [hsame]
      · simp [hj, hj']
  exact Nat.le_antisymm ((hseat _).mpr (Nat.le_refl _)) ((hseat _).mp (Nat.le_refl _))

/-- A step from a reachable room leads to one. -/
theorem Reachable.step (hr : r.Reachable) (h : r.step? i a pick = some r') : r'.Reachable := by
  obtain ⟨n, moves, rfl⟩ := hr
  refine ⟨n, moves ++ [⟨i, a, pick⟩], ?_⟩
  rw [run, List.foldl_append]
  exact congrArg (Option.getD · _) h

end Room

/-! ## Acting in a hall -/

namespace Hall

variable {h h' : Hall} {i j k k' pick : Nat} {a : Room.Action} {r : Room}

/-- The seat at a stripe is the one in its room. -/
theorem seat_eq (hr : h.rooms[k]? = some r) (i : Nat) : h.seat i k = r.seat i := by
  unfold seat
  rw [hr]

/-- Acting at a stripe is a step in its room. -/
theorem act?_eq_some (hact : h.act? i k a pick = some h') :
    ∃ r r', h.rooms[k]? = some r ∧ r.step? i a pick = some r' ∧
      h' = { h with rooms := h.rooms.set k r' } := by
  unfold act? at hact
  cases hr : h.rooms[k]? with
  | none => rw [hr] at hact; cases hact
  | some r =>
    rw [hr] at hact
    obtain ⟨r', hstep, heq⟩ := Option.map_eq_some_iff.mp hact
    exact ⟨r, r', rfl, hstep, heq.symm⟩

/-- The other stripes stay as they are. -/
theorem seat_of_act_of_ne (hact : h.act? i k a pick = some h') (hk : k ≠ k') (j : Nat) :
    h'.seat j k' = h.seat j k' := by
  obtain ⟨r, r', -, -, rfl⟩ := act?_eq_some hact
  unfold seat
  rw [List.getElem?_set_ne hk]

/-- A guest sits where its action took it. -/
theorem shift_of_act (hact : h.act? i k a pick = some h') : (h.seat i k).Shift a (h'.seat i k) := by
  obtain ⟨r, r', hr, hstep, rfl⟩ := act?_eq_some hact
  obtain ⟨s, hi⟩ := Room.exists_seat_of_step hstep
  obtain ⟨s', hi', hshift⟩ := Room.shift_of_step hstep hi
  have hset : (h.rooms.set k r')[k]? = some r' :=
    List.getElem?_set_self (List.getElem?_eq_some_iff.mp hr).1
  rw [seat_eq hr, seat_eq hset, Room.seat_eq hi, Room.seat_eq hi']
  exact hshift

/-- Other guests stay, or are woken. -/
theorem seat_of_act_of_others (hact : h.act? i k a pick = some h') (hij : i ≠ j) (k' : Nat) :
    h'.seat j k' = h.seat j k' ∨
      ∃ wish, h.seat j k' = .parked wish ∧ h'.seat j k' = .woken wish := by
  by_cases hk : k = k'
  · subst hk
    obtain ⟨r, r', hr, hstep, rfl⟩ := act?_eq_some hact
    have hset : (h.rooms.set k r')[k]? = some r' :=
      List.getElem?_set_self (List.getElem?_eq_some_iff.mp hr).1
    rw [seat_eq hr, seat_eq hset]
    rcases Room.spares_of_step hstep hij with hsame | ⟨wish, hj, hj'⟩
    · exact .inl (congrArg (Option.getD · _) hsame)
    · exact .inr ⟨wish, Room.seat_eq hj, Room.seat_eq hj'⟩
  · exact .inl (seat_of_act_of_ne hact hk j)

end Hall

end SnapshotStore
