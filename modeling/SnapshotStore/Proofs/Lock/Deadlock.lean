import SnapshotStore.Proofs.Lock.Climbing
import SnapshotStore.Proofs.Lock.WakeUps

/-!
# Guests do not wait for each other for ever

In a hall every guest stands somewhere from where what is left of its work climbs, and sits at every
stripe accordingly (`Work.Sits`, `Hall.Sound`): it holds the stripes that it holds, and it waits at
the stripe that its work is about to enter, if anywhere.

A reader sleeps also behind a writer that only waits, but that one sleeps behind a holder, or was
woken.  So behind every sleeper there is somebody who can go on, or a holder that itself sleeps, and
then at a higher stripe.  There is a highest one.
-/

namespace SnapshotStore

open Stance

/-! ## Where a guest sits -/

namespace Work

variable {ε α β : Type} {n k : Nat} {hold wish : Hold} {held : List (Nat × Hold)} {w : Work ε α}
  {w' : Work ε β} {t t' : Stance} {s : Seat}

/-- Work is about to enter a stripe. -/
def Enters (w : Work ε α) (hold : Hold) (k : Nat) : Prop :=
  ∃ next, w = perform (.enter hold k) next

/-- The stripe that work is about to ask for. -/
def asks? : Work ε α → Option Nat
  | perform (.announce k) _ | perform (.enter .shared k) _ => some k
  | _ => none

/-- An announced writer goes in next. -/
theorem Climbs.enters {kept lost : List (Nat × Hold)} (h : w.Climbs n kept lost ⟨held, some k⟩) :
    w.Enters .exclusive k := by
  cases w with
  | finish r => cases r <;> cases h
  | perform q next =>
    obtain ⟨after, hrule, -⟩ := h
    cases hrule with
    | own => exact ⟨next, rfl⟩
  | send item next => cases h.1

/-- A guest asks for a stripe above all that it holds, and not while it waits to go in. -/
theorem Climbs.above_of_asks {kept lost : List (Nat × Hold)} (h : w.Climbs n kept lost t)
    (hasks : w.asks? = some k) : k < n ∧ IsAbove k t.held ∧ t.asked = none := by
  unfold asks? at hasks
  split at hasks
  · obtain ⟨after, hrule, -⟩ := h
    cases hasks
    cases hrule with
    | announce hk habove => exact ⟨hk, habove, rfl⟩
    | other hq => cases hq
  · obtain ⟨after, hrule, -⟩ := h
    cases hasks
    cases hrule with
    | share hk habove => exact ⟨hk, habove, rfl⟩
    | other hq => cases hq
  · cases hasks

/-- How a guest that stands somewhere before some work sits at a stripe. -/
structure Sits (w : Work ε α) (t : Stance) (k : Nat) (s : Seat) : Prop where
  /-- It holds what it holds. -/
  held : ∀ hold, (k, hold) ∈ t.held → s = .holding hold
  /-- It holds nothing else, but as a writer it may have been let in when it announced itself. -/
  holding : ∀ hold, s = .holding hold → (k, hold) ∈ t.held ∨ hold = .exclusive ∧ t.asked = some k
  /-- It waits where its work is about to go in. -/
  waiting : ∀ wish, s = .parked wish ∨ s = .woken wish → w.Enters wish k
  /-- Who announced itself is there. -/
  asked : t.asked = some k → s ≠ .away
  /-- It does not come back in one step. -/
  settled : s ≠ .returning

/-- Who neither holds a stripe nor announced itself there is away from it. -/
theorem sits_away (hheld : ∀ hold, (k, hold) ∉ t.held) (hasked : t.asked ≠ some k) :
    w.Sits t k .away :=
  ⟨fun hold h => absurd h (hheld hold), nofun, by simp, fun h => absurd h hasked, nofun⟩

/-- Who got a stripe above its others sits there. -/
theorem sits_holding (habove : IsAbove k held) :
    w.Sits ⟨(k, hold) :: held, none⟩ k (.holding hold) := by
  refine ⟨fun hold' h => ?_, fun hold' h => ?_, by simp, nofun, nofun⟩
  · rcases List.mem_cons.mp h with heq | hmem
    · cases heq
      rfl
    · exact absurd hmem habove.not_mem
  · cases h
    exact .inl List.mem_cons_self

/-- Who is about to enter a stripe may sleep there. -/
theorem sits_parked (habove : IsAbove k t.held) (hw : w.Enters wish k) :
    w.Sits t k (.parked wish) where
  held hold h := absurd h habove.not_mem
  holding _ := nofun
  waiting wish' hs := by
    obtain rfl : wish = wish' := by simpa using hs
    exact hw
  asked _ := nofun
  settled := nofun

/-- A guest that was let in when it announced itself. -/
theorem sits_let_in (habove : IsAbove k held) :
    w.Sits ⟨held, some k⟩ k (.holding .exclusive) := by
  refine ⟨fun hold h => absurd h habove.not_mem, fun hold h => ?_, by simp, nofun, nofun⟩
  cases h
  exact .inr ⟨rfl, rfl⟩

namespace Sits

/-- At a stripe that the last effect was no step of, nothing changes. -/
theorem after (h : w.Sits t k s) (hw : ∀ wish, ¬ w.Enters wish k)
    (hheld : ∀ hold, (k, hold) ∈ t'.held ↔ (k, hold) ∈ t.held)
    (hasked : t'.asked = some k ↔ t.asked = some k) : w'.Sits t' k s where
  held hold hmem := h.held hold ((hheld hold).mp hmem)
  holding hold hs := (h.holding hold hs).imp (hheld hold).mpr (And.imp_right hasked.mpr)
  waiting wish hs := absurd (h.waiting wish hs) (hw wish)
  asked hmem := h.asked (hasked.mp hmem)
  settled := h.settled

/-- At a stripe above all that it holds a guest is away, was let in when it announced itself, or
waits for its work to go in. -/
theorem cases_above (h : w.Sits t k s) (habove : IsAbove k t.held) :
    s = .away ∧ t.asked ≠ some k ∨ s = .holding .exclusive ∧ t.asked = some k ∨
      ∃ wish, w.Enters wish k ∧ (s = .parked wish ∨ s = .woken wish) := by
  cases s with
  | away => exact .inl ⟨rfl, fun hasked => h.asked hasked rfl⟩
  | holding hold =>
    rcases h.holding hold rfl with hmem | ⟨rfl, hasked⟩
    · exact absurd hmem habove.not_mem
    · exact .inr (.inl ⟨rfl, hasked⟩)
  | returning => exact absurd rfl h.settled
  | parked wish => exact .inr (.inr ⟨wish, h.waiting wish (.inl rfl), .inl rfl⟩)
  | woken wish => exact .inr (.inr ⟨wish, h.waiting wish (.inr rfl), .inr rfl⟩)

/-- Being woken changes nothing either. -/
theorem wake (h : w.Sits t k (.parked wish)) : w.Sits t k (.woken wish) where
  held hold hmem := nomatch h.held hold hmem
  holding _ := nofun
  waiting wish' hs := h.waiting wish' (by simpa using hs)
  asked _ := nofun
  settled := nofun

end Sits

end Work

/-! ## Halls -/

/-- A guest at `n` stripes stands somewhere from where its work climbs, and sits accordingly. -/
def Guest.Stands (g : Guest) (n : Nat) (seat : Nat → Seat) : Prop :=
  ∃ t, g.work.Climbs n [] [] t ∧ ∀ k < n, g.work.Sits t k (seat k)

namespace Hall

variable {x x' : Hall} {i j k pick : Nat} {g : Guest} {wish : Hold} {a : Room.Action}

/-- Whether a guest has begun an errand and not ended it. -/
def IsBusy (x : Hall) (i : Nat) : Prop := ∃ g ∈ x.guests[i]?, ∀ r, g.work ≠ .finish r

/-- Whether a guest sleeps at a stripe. -/
def IsAsleep (x : Hall) (i : Nat) : Prop := ∃ k wish, x.seat i k = .parked wish

/-- The rooms are as threads leave them, with a seat for every guest, and the guests stand. -/
structure Sound (x : Hall) : Prop where
  /-- There is a room for every stripe. -/
  length_rooms : x.rooms.length = x.striping.count
  /-- The rooms come about. -/
  reachable : ∀ r ∈ x.rooms, r.Reachable
  /-- Every guest has a seat. -/
  length_seats : ∀ r ∈ x.rooms, r.seats.length = x.guests.length
  /-- Every guest stands somewhere. -/
  stands : ∀ (i : Nat) (g : Guest), x.guests[i]? = some g → g.Stands x.striping.count (x.seat i)

/-- What a guest does to the hall: nothing at the stripes, or one action at one of them. -/
inductive Moves (x : Hall) (i : Nat) : Hall → Prop where
  | stay (b : Backend) : Moves x i { x with backend := b }
  | act {k : Nat} {a : Room.Action} {pick : Nat} {x' : Hall} (hact : x.act? i k a pick = some x') :
    Moves x i x'

/-- An effect that is no step at a lock is a step of the backend. -/
theorem perform?_of_not_isLocking (x : Hall) (i pick : Nat) {q : Effect}
    (hq : q.isLocking = false) : x.perform? i pick q
      = (x.backend.answer? q).map fun (a, b) => (some a, { x with backend := b }) := by
  cases q with
  | announce k => cases hq
  | enter hold k => cases hq
  | upgrade k => cases hq
  | leave hold k => cases hq
  | _ => rfl

/-- A move at the stripes changes no guest. -/
theorem guests_of_moves (hmoves : x.Moves i x') :
    x'.guests = x.guests ∧ x'.striping = x.striping := by
  cases hmoves with
  | stay b => exact ⟨rfl, rfl⟩
  | act hact =>
    obtain ⟨r, r', -, -, rfl⟩ := act?_eq_some hact
    exact ⟨rfl, rfl⟩

namespace Sound

/-- A guest that is spared stands as before. -/
theorem stands_of_moves (h : x.Sound) (hmoves : x.Moves i x') (hij : i ≠ j)
    (hg : x.guests[j]? = some g) : g.Stands x.striping.count (x'.seat j) := by
  obtain ⟨t, hclimbs, hsits⟩ := h.stands j g hg
  refine ⟨t, hclimbs, fun k hk => ?_⟩
  cases hmoves with
  | stay b => exact hsits k hk
  | act hact =>
    rcases seat_of_act_of_others hact hij k with hsame | ⟨wish, hparked, hwoken⟩
    · exact hsame ▸ hsits k hk
    · rw [hwoken]
      exact (hparked ▸ hsits k hk).wake

/-- After a move of a guest that stands again, all is well. -/
theorem goOn (h : x.Sound) (hmoves : x.Moves i x')
    (hg : g.Stands x.striping.count (x'.seat i)) : (x'.goOn i g).Sound := by
  obtain ⟨hguests, hstriping⟩ := guests_of_moves hmoves
  -- The room where the guest acted took one step, and the other rooms are as they were.
  have hrooms : x'.rooms.length = x.rooms.length ∧ ∀ r ∈ x'.rooms, r.Reachable ∧
      r.seats.length = x.guests.length := by
    cases hmoves with
    | stay b => exact ⟨rfl, fun r hr => ⟨h.reachable r hr, h.length_seats r hr⟩⟩
    | act hact =>
      obtain ⟨r, r', hr, hstep, rfl⟩ := act?_eq_some hact
      have hmem := List.mem_of_getElem? hr
      refine ⟨List.length_set, fun r₁ hr₁ => ?_⟩
      rcases List.mem_or_eq_of_mem_set hr₁ with hr₁ | rfl
      · exact ⟨h.reachable r₁ hr₁, h.length_seats r₁ hr₁⟩
      · exact ⟨(h.reachable r hmem).step hstep,
          (Room.length_seats_of_step hstep).trans (h.length_seats r hmem)⟩
  exact
    { length_rooms := hrooms.1.trans (h.length_rooms.trans (congrArg _ hstriping.symm))
      reachable := fun r hr => (hrooms.2 r hr).1
      length_seats := fun r hr =>
        (hrooms.2 r hr).2.trans (by rw [Hall.goOn, List.length_set, hguests])
      stands := by
        intro j g' hg'
        -- The guest that went on stands as its work says now, and the others as theirs said before.
        show g'.Stands x'.striping.count (x'.seat j)
        rw [Hall.goOn, List.getElem?_set, hguests] at hg'
        rw [hstriping]
        split at hg'
        · next hij =>
          subst hij
          split at hg'
          · exact Option.some.inj hg' ▸ hg
          · cases hg'
        · next hij => exact h.stands_of_moves hmoves hij hg' }

/-- An effect at one stripe leaves the guest where it was at the others. -/
theorem stands_of_effect {q : Effect} {next : q.Answer → Work Empty Unit} {w : Work Empty Unit}
    {t t' : Stance} {n : Nat} {agenda : List Errand} (hq : ∀ wish, ∀ j ≠ k, q ≠ .enter wish j)
    (hsits : ∀ j < n, (Work.perform q next).Sits t j (x.seat i j))
    (hseat : ∀ j ≠ k, x'.seat i j = x.seat i j) (hclimbs : w.Climbs n [] [] t')
    (hself : w.Sits t' k (x'.seat i k))
    (hothers : ∀ j ≠ k, (∀ hold, (j, hold) ∈ t'.held ↔ (j, hold) ∈ t.held) ∧
      (t'.asked = some j ↔ t.asked = some j)) :
    Guest.Stands ⟨w, agenda⟩ n (x'.seat i) := by
  refine ⟨t', hclimbs, fun j hj => ?_⟩
  -- Only at the stripe of the effect did the seat of the guest change.
  by_cases hjk : j = k
  · exact hjk ▸ hself
  · rw [hseat j hjk]
    refine (hsits j hj).after ?_ (hothers j hjk).1 (hothers j hjk).2
    rintro wish ⟨next', heq⟩
    cases heq
    exact hq wish j hjk rfl

/-- Who asks or looks again is in or parked, with the wish of its work. -/
theorem seat_of_entering {hold : Hold} {next : Unit → Work Empty Unit} {t : Stance}
    (hsits : (Work.perform (.enter hold k) next).Sits t k (x.seat i k))
    (hact : x.act? i k a pick = some x') (ha : a = .acquire hold ∨ a = .resume) :
    x'.seat i k = .holding hold ∨ x'.seat i k = .parked hold := by
  have hshift := shift_of_act hact
  generalize x.seat i k = s at hsits hshift
  generalize x'.seat i k = s' at hshift
  -- Who was woken wants what it was parked for.
  have hwoken : ∀ wish, s = .woken wish → wish = hold := by
    intro wish hs
    obtain ⟨next', heq⟩ := hsits.waiting wish (.inr hs)
    cases heq
    rfl
  rcases ha with rfl | rfl
  · cases hshift with
    | enter => exact .inl rfl
    | park => exact .inr rfl
  · cases hshift with
    | enterAgain => exact absurd rfl hsits.settled
    | parkAgain => exact absurd rfl hsits.settled
    | enterWoken wish => exact .inl (by rw [hwoken wish rfl])
    | parkWoken wish => exact .inr (by rw [hwoken wish rfl])

/-- A guest that enters a stripe holds it, or waits for it as before. -/
theorem stands_of_entering {hold : Hold} {next : Unit → Work Empty Unit} {agenda : List Errand}
    {held : List (Nat × Hold)} {asked : Option Nat} {n : Nat} (habove : IsAbove k held)
    (hasked : ∀ j ≠ k, asked ≠ some j) (hk : k < n)
    (hclimbs : (Work.perform (.enter hold k) next).Climbs n [] [] ⟨held, asked⟩)
    (hnext : (next ()).Climbs n [] [] ⟨(k, hold) :: held, none⟩)
    (hsits : ∀ j < n, (Work.perform (.enter hold k) next).Sits ⟨held, asked⟩ j (x.seat i j))
    (hact : x.act? i k a pick = some x') (ha : a = .acquire hold ∨ a = .resume) :
    Guest.Stands ⟨(entered i k hold x').1.elim (.perform (.enter hold k) next) next, agenda⟩ n
      (x'.seat i) := by
  have hq : ∀ wish, ∀ j ≠ k, Effect.enter hold k ≠ .enter wish j := by
    rintro wish j hj ⟨⟩
    exact hj rfl
  have hseat : ∀ j ≠ k, x'.seat i j = x.seat i j := fun j hj =>
    seat_of_act_of_ne hact (Ne.symm hj) i
  -- Let in, the guest goes on with its work; parked, it stays before the same effect.
  rcases seat_of_entering (hsits k hk) hact ha with hin | hparked
  · rw [entered, if_pos hin]
    refine stands_of_effect hq hsits hseat hnext (hin ▸ Work.sits_holding habove) fun j hj => ?_
    exact ⟨fun hold' => by simp [hj], by simp [hasked j hj]⟩
  · rw [entered, if_neg (by simp [hparked])]
    exact stands_of_effect hq hsits hseat hclimbs (hparked ▸ Work.sits_parked habove ⟨next, rfl⟩)
      fun j hj => ⟨fun _ => Iff.rfl, Iff.rfl⟩

/-- A guest that performs an effect stands again. -/
theorem perform (h : x.Sound) {q : Effect} {next : q.Answer → Work Empty Unit}
    {agenda : List Errand} {answer : Option q.Answer}
    (hg : x.guests[i]? = some ⟨.perform q next, agenda⟩)
    (hperform : x.perform? i pick q = some (answer, x')) :
    x.Moves i x' ∧
      Guest.Stands ⟨answer.elim (.perform q next) next, agenda⟩ x.striping.count (x'.seat i) := by
  obtain ⟨t, hclimbs, hsits⟩ := h.stands i _ hg
  obtain ⟨after, hrule, hnext⟩ := id hclimbs
  cases hrule with
  | @announce k held hk habove =>
    -- An announced writer may be let in already, and is otherwise parked.
    obtain ⟨x₁, hact, heq⟩ := Option.map_eq_some_iff.mp hperform
    cases heq
    have hself : (next ()).Sits ⟨held, some k⟩ k (x'.seat i k) := by
      have hshift := shift_of_act hact
      generalize x'.seat i k = s' at hshift
      generalize x.seat i k = s at hshift
      cases hshift with
      | enter => exact Work.sits_let_in habove
      | park => exact Work.sits_parked habove (hnext ()).enters
    exact ⟨.act hact, stands_of_effect (by simp) hsits
      (fun j hj => seat_of_act_of_ne hact (Ne.symm hj) i) (hnext ()) hself
      fun j hj => ⟨fun _ => Iff.rfl, by simp [Ne.symm hj]⟩⟩
  | @own k held hk habove =>
    by_cases hseat : x.seat i k = .holding .exclusive
    · -- it was let in when it announced itself
      rw [show x.perform? i pick (.enter .exclusive k) = some (some (), x) from if_pos hseat]
        at hperform
      cases hperform
      refine ⟨.stay x.backend, stands_of_effect ?_ hsits (fun _ _ => rfl) (hnext ())
        (hseat ▸ Work.sits_holding habove) fun j hj => ⟨by simp [hj], by simp [Ne.symm hj]⟩⟩
      rintro wish j hj ⟨⟩
      exact hj rfl
    · rw [show x.perform? i pick (.enter .exclusive k)
        = (x.act? i k .resume pick).map (entered i k .exclusive) from if_neg hseat] at hperform
      obtain ⟨x₁, hact, heq⟩ := Option.map_eq_some_iff.mp hperform
      obtain ⟨rfl, rfl⟩ := Prod.mk.inj heq
      exact ⟨.act hact, stands_of_entering habove (fun j hj heq => hj (Option.some.inj heq).symm) hk
        hclimbs (hnext ()) hsits hact (.inr rfl)⟩
  | @share k held hk habove =>
    obtain ⟨x₁, hact, heq⟩ := Option.map_eq_some_iff.mp hperform
    obtain ⟨rfl, rfl⟩ := Prod.mk.inj heq
    refine ⟨.act hact,
      stands_of_entering habove (by simp) hk hclimbs (hnext ()) hsits hact ?_⟩
    split
    · exact .inl rfl
    · exact .inr rfl
  | @upgrade k held hk habove =>
    obtain ⟨x₁, hact, heq⟩ := Option.map_eq_some_iff.mp hperform
    cases heq
    have hself : Work.Sits (next (x'.seat i k = .holding .exclusive))
        ⟨(k, if decide (x'.seat i k = .holding .exclusive) then .exclusive else .shared) :: held,
          none⟩ k (x'.seat i k) := by
      have hheld := (hsits k hk).held .shared List.mem_cons_self
      have hshift := shift_of_act hact
      rw [hheld] at hshift
      generalize x'.seat i k = s' at hshift ⊢
      cases hshift with
      | upgrade => exact Work.sits_holding habove
      | keep => exact Work.sits_holding habove
    exact ⟨.act hact, stands_of_effect (by simp) hsits
      (fun j hj => seat_of_act_of_ne hact (Ne.symm hj) i) (hnext _) hself
      fun j hj => ⟨by simp [hj], Iff.rfl⟩⟩
  | @leave k hold held hk habove =>
    obtain ⟨x₁, hact, heq⟩ := Option.map_eq_some_iff.mp hperform
    cases heq
    have hself : (next ()).Sits ⟨held, none⟩ k (x'.seat i k) := by
      have hshift := shift_of_act hact
      generalize x'.seat i k = s' at hshift
      generalize x.seat i k = s at hshift
      cases hshift
      exact Work.sits_away (fun _ => habove.not_mem) nofun
    exact ⟨.act hact, stands_of_effect (by simp) hsits
      (fun j hj => seat_of_act_of_ne hact (Ne.symm hj) i) (hnext ()) hself
      fun j hj => ⟨by simp [hj], Iff.rfl⟩⟩
  | @other q held hq =>
    rw [perform?_of_not_isLocking x i pick hq] at hperform
    obtain ⟨⟨a, b⟩, hanswer, heq⟩ := Option.map_eq_some_iff.mp hperform
    cases heq
    refine ⟨.stay b, _, hnext a, fun k hk => (hsits k hk).after ?_ (fun _ => Iff.rfl) Iff.rfl⟩
    rintro wish ⟨next', heq⟩
    cases heq
    cases hq

/-- A turn leaves everybody where its work says. -/
theorem turn (h : x.Sound) (hturn : x.turn? i pick = some x') : x'.Sound := by
  unfold turn? at hturn
  -- A guest performs an effect, finds nobody to send to, or takes its next errand.
  split at hturn
  · next q next agenda hg =>
    obtain ⟨⟨answer, x₁⟩, hperform, rfl⟩ := Option.map_eq_some_iff.mp hturn
    obtain ⟨hmoves, hstands⟩ := h.perform hg hperform
    exact h.goOn hmoves hstands
  · next item next agenda hg =>
    cases hturn
    obtain ⟨t, hclimbs, hsits⟩ := h.stands i _ hg
    refine h.goOn (.stay x.backend) ⟨t, hclimbs.2 false, fun k hk => ?_⟩
    exact (hsits k hk).after (fun wish ⟨_, heq⟩ => nomatch heq) (fun _ => Iff.rfl) Iff.rfl
  · next r errand agenda hg =>
    cases hturn
    obtain ⟨t, hclimbs, hsits⟩ := h.stands i _ hg
    obtain rfl : t = ⟨[], none⟩ := by cases r <;> exact hclimbs
    refine h.goOn (.stay x.backend) ⟨⟨[], none⟩, errand.climbs x.striping, fun k hk => ?_⟩
    exact (hsits k hk).after (fun wish ⟨_, heq⟩ => nomatch heq) (fun _ => Iff.rfl) Iff.rfl
  · cases hturn

/-- Before the first turn nobody is at any stripe. -/
theorem start (s : Striping) (b : Backend) (agendas : List (List Errand)) :
    (Hall.start s b agendas).Sound := by
  have hroom : ∀ r ∈ (Hall.start s b agendas).rooms, r = .vacant agendas.length := fun r hr =>
    List.eq_of_mem_replicate hr
  -- All seats of all rooms are empty.
  have hseat : ∀ i k, (Hall.start s b agendas).seat i k = .away := by
    intro i k
    unfold seat
    split
    · next r hr =>
      rw [hroom r (List.mem_of_getElem? hr), Room.seat, Room.vacant, List.getElem?_replicate]
      split <;> rfl
    · rfl
  exact
    { length_rooms := List.length_replicate
      reachable := fun r hr => ⟨agendas.length, [], (hroom r hr).symm⟩
      length_seats := fun r hr => by simp [hroom r hr, Room.vacant, Hall.start]
      stands := by
        intro i g hg
        obtain ⟨agenda, -, rfl⟩ := Option.map_eq_some_iff.mp ((List.getElem?_map ..).symm.trans hg)
        refine ⟨⟨[], none⟩, rfl, fun k _ => ?_⟩
        rw [hseat]
        exact Work.sits_away (fun _ => List.not_mem_nil) (Option.some_ne_none k).symm }

/-- After any number of turns everybody is where its work says. -/
theorem run (h : x.Sound) (schedule : List (Nat × Nat)) : (x.run schedule).Sound := by
  unfold Hall.run
  refine List.foldlRecOn schedule _ h fun y hy m _ => ?_
  cases hturn : y.turn? m.1 m.2 with
  | none => exact hy
  | some y' => exact hy.turn hturn

/-! ## Who can go on -/

/-- Every guest has a seat in the room of every stripe. -/
theorem exists_room (h : x.Sound) (hk : k < x.striping.count) (hg : x.guests[i]? = some g) :
    ∃ r ∈ x.rooms, x.rooms[k]? = some r ∧ r.seats[i]? = some (x.seat i k) := by
  rw [← h.length_rooms] at hk
  have hr := List.getElem?_eq_getElem hk
  have hmem := List.getElem_mem hk
  have hi : i < x.rooms[k].seats.length := by
    rw [h.length_seats _ hmem]
    exact (List.getElem?_eq_some_iff.mp hg).1
  refine ⟨_, hmem, hr, ?_⟩
  rw [seat_eq hr, Room.seat, List.getElem?_eq_getElem hi]
  rfl

/-- Only a guest is anywhere but away, and only at a stripe that there is. -/
theorem exists_guest (h : x.Sound) (hseat : x.seat i k ≠ .away) :
    k < x.striping.count ∧ ∃ g, x.guests[i]? = some g := by
  unfold seat at hseat
  split at hseat
  · next r hr =>
    obtain ⟨hk, rfl⟩ := List.getElem?_eq_some_iff.mp hr
    refine ⟨h.length_rooms ▸ hk, ?_⟩
    have hi : i < x.guests.length := by
      rw [← h.length_seats _ (List.getElem_mem hk), ← Nat.not_le]
      intro hle
      rw [Room.seat, List.getElem?_eq_none hle] at hseat
      exact hseat rfl
    exact ⟨_, List.getElem?_eq_getElem hi⟩
  · exact absurd rfl hseat

/-- A guest acts at a stripe if it sits there in the right way. -/
theorem exists_act (h : x.Sound) (hk : k < x.striping.count) (hg : x.guests[i]? = some g)
    {s s' : Seat} (hseat : x.seat i k = s) (hshift : s.Shift a s') (pick : Nat) :
    ∃ x', x.act? i k a pick = some x' := by
  obtain ⟨r, -, hr, hi⟩ := h.exists_room hk hg
  obtain ⟨r', hstep⟩ := Room.exists_step (hseat ▸ hi) hshift pick
  exact ⟨{ x with rooms := x.rooms.set k r' }, by simp only [act?, hr, hstep, Option.map_some]⟩

/-- A guest performs its next effect, unless it sleeps where it is about to go in. -/
theorem exists_perform (h : x.Sound) {q : Effect} {next : q.Answer → Work Empty Unit}
    {agenda : List Errand} (hg : x.guests[i]? = some ⟨.perform q next, agenda⟩) (pick : Nat) :
    (∃ k wish, q = .enter wish k ∧ x.seat i k = .parked wish) ∨
      ∃ y, x.perform? i pick q = some y := by
  -- The rule of the effect says where the guest sits, and from there the room lets it act.
  obtain ⟨t, ⟨after, hrule, hnext⟩, hsits⟩ := h.stands i _ hg
  cases hrule with
  | @announce k held hk habove =>
    rcases (hsits k hk).cases_above habove with ⟨haway, -⟩ | ⟨-, hasked⟩ | ⟨wish, ⟨next', heq⟩, -⟩
    · obtain ⟨x', hact⟩ := h.exists_act hk hg haway (.enter .exclusive) pick
      exact .inr ⟨_, by simp only [perform?, hact, Option.map_some]; rfl⟩
    · cases hasked
    · cases heq
  | @own k held hk habove =>
    rcases (hsits k hk).cases_above habove with ⟨-, hasked⟩ | ⟨hin, -⟩ | ⟨wish, ⟨next', heq⟩, hseat⟩
    · exact absurd rfl hasked
    · exact .inr ⟨(some (), x), if_pos hin⟩
    · cases heq
      rcases hseat with hparked | hwoken
      · exact .inl ⟨k, .exclusive, rfl, hparked⟩
      · obtain ⟨x', hact⟩ := h.exists_act hk hg hwoken (.enterWoken .exclusive) pick
        exact .inr ⟨entered i k .exclusive x', by
          simp only [perform?, hwoken, hact, Option.map_some, reduceCtorEq, if_false]⟩
  | @share k held hk habove =>
    rcases (hsits k hk).cases_above habove with
      ⟨haway, -⟩ | ⟨-, hasked⟩ | ⟨wish, ⟨next', heq⟩, hseat⟩
    · obtain ⟨x', hact⟩ := h.exists_act hk hg haway (.enter .shared) pick
      exact .inr ⟨entered i k .shared x', by
        simp only [perform?, haway, hact, Option.map_some, if_true]⟩
    · cases hasked
    · cases heq
      rcases hseat with hparked | hwoken
      · exact .inl ⟨k, .shared, rfl, hparked⟩
      · obtain ⟨x', hact⟩ := h.exists_act hk hg hwoken (.enterWoken .shared) pick
        exact .inr ⟨entered i k .shared x', by
          simp only [perform?, hwoken, hact, Option.map_some, reduceCtorEq, if_false]⟩
  | @upgrade k held hk habove =>
    have hseat := (hsits k hk).held .shared List.mem_cons_self
    obtain ⟨x', hact⟩ := h.exists_act hk hg hseat (.keep .shared) pick
    exact .inr ⟨_, by simp only [perform?, hact, Option.map_some]; rfl⟩
  | @leave k hold held hk habove =>
    have hseat := (hsits k hk).held hold List.mem_cons_self
    obtain ⟨x', hact⟩ := h.exists_act hk hg hseat (.drop hold) pick
    exact .inr ⟨_, by simp only [perform?, hact, Option.map_some]; rfl⟩
  | @other q held hq =>
    rw [perform?_of_not_isLocking x i pick hq]
    have hq' : ∀ hold j, q ≠ .enter hold j := by
      rintro hold j rfl
      cases hq
    obtain ⟨a, b, hanswer⟩ := x.backend.exists_answer hq'
    exact .inr ⟨_, by rw [hanswer, Option.map_some]⟩

/-- A sleeper is about to go in where it sleeps. -/
theorem enters_of_parked (h : x.Sound) (hparked : x.seat i k = .parked wish) :
    ∃ next agenda, x.guests[i]? = some ⟨.perform (.enter wish k) next, agenda⟩ := by
  obtain ⟨hk, ⟨w, agenda⟩, hg⟩ := h.exists_guest (i := i) (k := k) (by simp [hparked])
  obtain ⟨t, -, hsits⟩ := h.stands i _ hg
  obtain ⟨next, rfl⟩ := (hsits k hk).waiting wish (.inl hparked)
  exact ⟨next, agenda, hg⟩

/-- Who sleeps has work to do. -/
theorem isBusy_of_parked (h : x.Sound) (hparked : x.seat i k = .parked wish) : x.IsBusy i := by
  obtain ⟨next, agenda, hg⟩ := h.enters_of_parked hparked
  exact ⟨_, hg, nofun⟩

/-- A sleeper has no turn. -/
theorem turn?_of_parked (h : x.Sound) (hparked : x.seat i k = .parked wish) (pick : Nat) :
    x.turn? i pick = none := by
  obtain ⟨next, agenda, hg⟩ := h.enters_of_parked hparked
  have hact : x.act? i k .resume pick = none := by
    cases hact : x.act? i k .resume pick with
    | none => rfl
    | some x' =>
      have hshift := shift_of_act hact
      rw [hparked] at hshift
      cases hshift
  have hperform : x.perform? i pick (.enter wish k) = none := by
    cases wish <;> simp [perform?, hparked, hact]
  unfold turn?
  rw [hg]
  exact congrArg (Option.map _) hperform

/-- A busy guest has its turn, unless it sleeps where its work is about to go in. -/
theorem exists_turn (h : x.Sound) (hbusy : x.IsBusy i) (pick : Nat) :
    x.IsAsleep i ∨ ∃ x', x.turn? i pick = some x' := by
  obtain ⟨⟨w, agenda⟩, hg, hrest⟩ := hbusy
  unfold turn?
  rw [Option.mem_def.mp hg]
  -- Nobody listens to the guests, so only an effect can keep one from its turn.
  cases w with
  | finish r => exact absurd rfl (hrest r)
  | send item next => exact .inr ⟨_, rfl⟩
  | perform q next =>
    rcases h.exists_perform hg pick with ⟨k, wish, -, hparked⟩ | ⟨y, hperform⟩
    · exact .inl ⟨k, wish, hparked⟩
    · exact .inr ⟨_, by simp only [hperform, Option.map_some]; rfl⟩

/-! ## Who is waited for -/

/-- A sleeper waits for a guest that holds its stripe, or was woken. -/
theorem exists_awaited (h : x.Sound) (hparked : x.seat i k = .parked wish) :
    ∃ j, (∃ hold, x.seat j k = .holding hold) ∨ x.seat j k = .woken .exclusive := by
  obtain ⟨hk, g, hg⟩ := h.exists_guest (i := i) (k := k) (by simp [hparked])
  obtain ⟨r, hmem, hr, hi⟩ := h.exists_room hk hg
  have hwriter : .parked .exclusive ∈ r.seats →
      (∃ hold, .holding hold ∈ r.seats) ∨ .woken .exclusive ∈ r.seats :=
    (h.reachable r hmem).writer_asleep
  -- The room says that somebody is in, or that a writer was woken.
  have hawaited : (∃ hold, .holding hold ∈ r.seats) ∨ .woken .exclusive ∈ r.seats := by
    rw [hparked] at hi
    cases wish with
    | exclusive => exact hwriter (List.mem_of_getElem? hi)
    | shared =>
      rcases (h.reachable r hmem).reader_asleep (List.mem_of_getElem? hi) with
        hholder | ⟨s, hs, hqueued⟩
      · exact .inl ⟨_, hholder⟩
      · -- a reader sleeps behind a writer that waits
        rcases Seat.eq_of_isQueued hqueued with rfl | rfl
        · exact hwriter hs
        · exact .inr hs
  have hseat : ∀ s ∈ r.seats, ∃ j, x.seat j k = s := by
    intro s hs
    obtain ⟨j, hj⟩ := List.mem_iff_getElem?.mp hs
    exact ⟨j, (seat_eq hr j).trans (Room.seat_eq hj)⟩
  rcases hawaited with ⟨hold, hs⟩ | hs
  · exact (hseat _ hs).imp fun j hj => .inl ⟨hold, hj⟩
  · exact (hseat _ hs).imp fun j hj => .inr hj

/-- Behind a sleeper there is a busy guest that does not sleep, or sleeps at a higher stripe. -/
theorem exists_busy (h : x.Sound) (hparked : x.seat i k = .parked wish) :
    ∃ j, x.IsBusy j ∧ ∀ k' wish', x.seat j k' = .parked wish' → k < k' := by
  obtain ⟨j, hj⟩ := h.exists_awaited hparked
  obtain ⟨hk, ⟨w, agenda⟩, hg⟩ := h.exists_guest (i := j) (k := k) (by
    rcases hj with ⟨hold, hj⟩ | hj <;> simp [hj])
  obtain ⟨t, hclimbs, hsits⟩ := h.stands j _ hg
  -- what such a guest has to do with the stripe
  have hpart : (∃ hold, (k, hold) ∈ t.held) ∨ t.asked = some k ∨ w.Enters .exclusive k := by
    rcases hj with ⟨hold, hj⟩ | hj
    · exact ((hsits k hk).holding hold hj).imp (⟨hold, ·⟩) fun hasked => .inl hasked.2
    · exact .inr (.inr ((hsits k hk).waiting .exclusive (.inr hj)))
  refine ⟨j, ⟨_, hg, ?_⟩, fun k' wish' hparked' => ?_⟩
  · rintro r rfl
    obtain rfl : t = ⟨[], none⟩ := by cases r <;> exact hclimbs
    rcases hpart with ⟨hold, hmem⟩ | hasked | ⟨next, heq⟩
    · cases hmem
    · cases hasked
    · cases heq
  · have hne : k' ≠ k := by
      rintro rfl
      rw [hparked'] at hj
      simp at hj
    have hk' := (h.exists_guest (i := j) (k := k') (by simp [hparked'])).1
    obtain ⟨next, rfl⟩ := (hsits k' hk').waiting wish' (.inl hparked')
    obtain ⟨after, hrule, -⟩ := hclimbs
    obtain ⟨habove, hasked⟩ := hrule.above
    rcases hpart with ⟨hold, hmem⟩ | hasked' | ⟨next', heq⟩
    · exact habove _ hmem
    · exact absurd (hasked k hasked').symm hne
    · cases heq
      exact absurd rfl hne

/-- Some busy guest does not sleep, if there is one that does. -/
theorem exists_awake (h : x.Sound) (hparked : x.seat i k = .parked wish) :
    ∃ j, x.IsBusy j ∧ ¬ x.IsAsleep j := by
  induction hd : x.striping.count - k using Nat.strong_induction_on generalizing i k wish with
  | _ d ih =>
    obtain ⟨j, hbusy, habove⟩ := h.exists_busy hparked
    by_cases hasleep : x.IsAsleep j
    · obtain ⟨k', wish', hparked'⟩ := hasleep
      have hlt := habove k' wish' hparked'
      have hk' := (h.exists_guest (i := j) (k := k') (by simp [hparked'])).1
      exact ih _ (by omega) hparked' rfl
    · exact ⟨j, hbusy, hasleep⟩

end Sound

/-- **Guests at the stripes do not wait for each other for ever.**  Whatever the errands and however
the turns fall, it never comes about that some guest is busy and every busy guest sleeps at a
stripe.  A busy guest sleeps exactly if it has no turn, and nobody asks for a stripe that it
holds. -/
theorem no_deadlock (s : Striping) (b : Backend) (agendas : List (List Errand))
    (schedule : List (Nat × Nat)) :
    let x := (start s b agendas).run schedule
    ¬ ((∃ i, x.IsBusy i) ∧ ∀ i, x.IsBusy i → x.IsAsleep i) ∧
      (∀ i, x.IsBusy i → (x.IsAsleep i ↔ ∀ pick, x.turn? i pick = none)) ∧
      ∀ (i : Nat) (g : Guest) (k : Nat), x.guests[i]? = some g → g.work.asks? = some k →
        ∀ hold, x.seat i k ≠ .holding hold := by
  intro x
  have hsound : x.Sound := (Sound.start s b agendas).run schedule
  -- Who sleeps waits for somebody who is busy and awake, so not all of the busy ones sleep.
  refine ⟨?_, ?_, ?_⟩
  · rintro ⟨⟨i, hbusy⟩, hall⟩
    obtain ⟨k, wish, hparked⟩ := hall i hbusy
    obtain ⟨j, hbusy', hawake⟩ := hsound.exists_awake hparked
    exact hawake (hall j hbusy')
  · intro i hbusy
    constructor
    · rintro ⟨k, wish, hparked⟩ pick
      exact hsound.turn?_of_parked hparked pick
    · intro hnone
      refine (hsound.exists_turn hbusy 0).resolve_right ?_
      rintro ⟨x', hturn⟩
      rw [hnone 0] at hturn
      cases hturn
  · intro i g k hg hasks hold hseat
    obtain ⟨t, hclimbs, hsits⟩ := hsound.stands i g hg
    obtain ⟨hk, habove, hnone⟩ := hclimbs.above_of_asks hasks
    rcases (hsits k hk).cases_above habove with ⟨haway, -⟩ | ⟨-, hasked⟩ | ⟨wish, -, hwaits⟩
    · cases haway.symm.trans hseat
    · cases hnone.symm.trans hasked
    · rw [hseat] at hwaits
      simp at hwaits

/-- Two stripes, and a key in each. -/
def pair : Striping := ⟨2, fun key => (key.headD 0).toUInt64, by decide⟩

/-- A writer of two keys in some order. -/
def writerOf (keys : List Bytes) : Errand := .bulk .exclusive keys (pure ()) trivial

/-- Two writers of the same keys in opposite orders: the second sleeps at the first stripe, and the
first, which has it, goes on. -/
theorem no_deadlock_of_crossing :
    let x := (start pair (.fresh {}) [[writerOf [[0], [1]]], [writerOf [[1], [0]]]]).run
      [(0, 0), (0, 0), (1, 0), (1, 0)]
    x.seat 1 0 = .parked .exclusive ∧ x.IsBusy 1 ∧ (∀ pick, x.turn? 1 pick = none) ∧
      ∃ i, x.IsBusy i ∧ ¬ x.IsAsleep i := by
  intro x
  obtain ⟨hfree, hturns, -⟩ := no_deadlock pair (.fresh {})
    [[writerOf [[0], [1]]], [writerOf [[1], [0]]]] [(0, 0), (0, 0), (1, 0), (1, 0)]
  have hparked : x.seat 1 0 = .parked .exclusive := by decide
  have hbusy : x.IsBusy 1 := ((Sound.start ..).run _).isBusy_of_parked hparked
  refine ⟨hparked, hbusy, (hturns 1 hbusy).mp ⟨0, _, hparked⟩, ?_⟩
  by_contra hnone
  push Not at hnone
  exact hfree ⟨⟨1, hbusy⟩, hnone⟩

end Hall

end SnapshotStore
