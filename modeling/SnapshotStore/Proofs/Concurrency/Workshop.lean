import SnapshotStore.Proofs.Concurrency.Moves

/-!
# Calls that run at the same time

A workshop is some works on one backend.  A schedule says whose turn it is; on its turn a work
performs one effect, which is one transition of a lock or one call of the engine, unless it has to
wait (`Workshop.turn`).  So the runs of a workshop are all interleavings of its works.

The invariant of calls on a dictionary (`Workshop.Follows`) holds a caller for every work, the
contents of the dictionary, and the calls that are settled, in the order in which they were: run one
after the other, they end and leave the dictionary as they did here.  A turn is a move of one caller
(`Call.Moves`), and what another caller has read stays true because it holds its stripe.
-/

namespace SnapshotStore

universe u

/-! ## One element of a list -/

namespace List

variable {α : Type u} {before after : List α} {a b c : α} {i : Nat}

/-- A list has each of its elements between some others. -/
theorem exists_split_of_getElem? {l : List α} (h : l[i]? = some a) :
    ∃ before after, l = before ++ a :: after ∧ before.length = i := by
  obtain ⟨hlt, rfl⟩ := List.getElem?_eq_some_iff.mp h
  exact ⟨l.take i, l.drop (i + 1), by simp, by simp [Nat.le_of_lt hlt]⟩

/-- What holds of all elements holds of one and of the others. -/
theorem forall_mem_split {P : α → Prop} :
    (∀ x ∈ before ++ a :: after, P x) ↔ P a ∧ ∀ x ∈ before ++ after, P x := by
  rw [List.forall_mem_append, List.forall_mem_cons, List.forall_mem_append, and_left_comm]

/-- In the place of one element there may be another. -/
theorem getElem?_split (h : (before ++ b :: after)[i]? = some c) :
    i = before.length ∧ c = b ∨ i ≠ before.length ∧ (before ++ a :: after)[i]? = some c := by
  by_cases hi : i = before.length
  · subst hi
    exact .inl ⟨rfl, by simpa using h.symm⟩
  · have hset : before ++ b :: after = (before ++ a :: after).set before.length b := by simp
    rw [hset, List.getElem?_set_ne (Ne.symm hi)] at h
    exact .inr ⟨hi, h⟩

end List

/-! ## Workshops -/

deriving instance DecidableEq for Outcome

/-- How some work ended, if it has. -/
def Work.outcome? {ε α : Type} : Work ε α → Option (Outcome α)
  | finish r => some r
  | _ => none

/-- Work has an outcome if it has ended with it. -/
theorem Work.outcome?_eq_some {ε α : Type} {w : Work ε α} {r : Outcome α} :
    w.outcome? = some r ↔ w = finish r := by
  cases w <;> simp [outcome?]

/-- Works on one backend. -/
structure Workshop (α : Type) where
  /-- The backend. -/
  backend : Backend
  /-- What is left of each work. -/
  works : List (Work Empty α)
  /-- The effects so far, newest first, each with the number of its work. -/
  log : List (Nat × Effect)

namespace Workshop

variable {α : Type}

/-- A workshop in which nothing has happened. -/
def start (b : Backend) (works : List (Work Empty α)) : Workshop α := ⟨b, works, []⟩

/-- One work performs its next effect, if it has one and does not have to wait. -/
def turn (x : Workshop α) (i : Nat) : Workshop α :=
  match x.works[i]? with
  | some (.perform q next) =>
    match x.backend.answer? q with
    | some (a, b) => ⟨b, x.works.set i (next a), (i, q) :: x.log⟩
    | none => x
  | _ => x

/-- The works take turns as a schedule says. -/
def run (x : Workshop α) (schedule : List Nat) : Workshop α := schedule.foldl turn x

/-- The values that a work has shown to an updater so far, newest first. -/
def shownBy (x : Workshop α) (i : Nat) : List (Option Bytes) :=
  x.log.filterMap fun e => if e.1 = i then e.2.shown? else none

/-- A turn adds what it shows to the updater of its caller. -/
theorem shownBy_cons (x : Workshop α) (b : Backend) (works : List (Work Empty α)) (i : Nat)
    (q : Effect) (j : Nat) : shownBy ⟨b, works, (i, q) :: x.log⟩ j
      = if i = j then q.shown?.toList ++ x.shownBy j else x.shownBy j := by
  unfold shownBy
  by_cases hi : i = j
  · rw [if_pos hi]
    cases hq : q.shown? with
    | none => rw [List.filterMap_cons_none (by simp [hi, hq])]; rfl
    | some current => rw [List.filterMap_cons_some (by simpa [hi] using hq)]; rfl
  · rw [if_neg hi]
    exact List.filterMap_cons_none (if_neg hi)

/-- All works have ended, each in its way. -/
def EndsWith (x : Workshop α) (outcomes : List (Outcome α)) : Prop :=
  x.works.map Work.outcome? = outcomes.map some

instance [DecidableEq α] (x : Workshop α) (outcomes : List (Outcome α)) :
    Decidable (x.EndsWith outcomes) := inferInstanceAs (Decidable (_ = _))

variable {x : Workshop α} {i : Nat}

/-- All that can happen on a turn. -/
theorem turn_cases (x : Workshop α) (i : Nat) :
    x.turn i = x ∨ ∃ (q : Effect) (next : q.Answer → Work Empty α) (a : q.Answer) (b : Backend),
      x.works[i]? = some (.perform q next) ∧ x.backend.answer? q = some (a, b) ∧
      x.turn i = ⟨b, x.works.set i (next a), (i, q) :: x.log⟩ := by
  unfold turn
  split
  · next q next hwork =>
    split
    · next a b hanswer => exact .inr ⟨q, next, a, b, hwork, hanswer, rfl⟩
    · exact .inl rfl
  · exact .inl rfl

/-- A property that every turn keeps holds after every run. -/
theorem run_induction {P : Workshop α → Prop} (hx : P x) (hturn : ∀ x i, P x → P (x.turn i))
    (schedule : List Nat) : P (x.run schedule) := by
  unfold run
  induction schedule generalizing x with
  | nil => exact hx
  | cons i schedule ih => exact ih (hturn x i hx)

end Workshop

/-! ## Callers -/

/-- A call under way: where it stands, and what is left of its work. -/
structure Caller where
  /-- The call. -/
  call : Call
  /-- Where it stands. -/
  standing : Call.Standing
  /-- What is left of its work. -/
  rest : Work Empty Call.Answer

namespace Caller

/-- The stripe of a caller. -/
def stripe (s : Striping) (k : Caller) : Nat := s.index k.call.key

/-- The result of a caller, as soon as it is settled, with its call. -/
def result? (k : Caller) : Option (Call × Outcome Call.Answer) :=
  k.standing.place.result?.map (k.call, ·)

/-- Where the callers of a stripe stand. -/
def places (s : Striping) (callers : List Caller) (i : Nat) : List Call.Place :=
  (callers.filter fun k => k.stripe s = i).map (·.standing.place)

variable {s : Striping} {k : Caller} {before after : List Caller} {i : Nat}

/-- At its own stripe a caller has its place beside the others. -/
theorem places_of_stripe (hi : k.stripe s = i) :
    (places s (before ++ k :: after) i).Perm
      (k.standing.place :: places s (before ++ after) i) := by
  unfold places
  rw [List.filter_append, List.filter_append, List.filter_cons_of_pos (by simpa using hi),
    List.map_append, List.map_append, List.map_cons]
  exact List.perm_middle

/-- At other stripes a caller has no place. -/
theorem places_of_ne (hi : k.stripe s ≠ i) :
    places s (before ++ k :: after) i = places s (before ++ after) i := by
  unfold places
  rw [List.filter_append, List.filter_append, List.filter_cons_of_neg (by simpa using hi)]

/-- Callers whose works have ended have their results. -/
theorem filterMap_result? {callers : List Caller} {outcomes : List (Outcome Call.Answer)}
    (hrest : callers.map (·.rest.outcome?) = outcomes.map some)
    (hleft : ∀ k ∈ callers, ∀ r, k.rest.outcome? = some r → k.standing.place = .left r) :
    callers.filterMap (·.result?) = (callers.map (·.call)).zip outcomes := by
  induction callers generalizing outcomes with
  | nil => rfl
  | cons k callers ih =>
    cases outcomes with
    | nil => cases hrest
    | cons r outcomes =>
      obtain ⟨hk, hrest⟩ := List.cons.inj hrest
      have hplace := hleft k List.mem_cons_self r hk
      have hresult : k.result? = some (k.call, r) := by rw [result?, hplace]; rfl
      rw [List.filterMap_cons_some hresult, List.map_cons, List.zip_cons_cons,
        ih hrest fun k' hk' => hleft k' (List.mem_cons_of_mem _ hk')]

/-- Every other caller has its place at its stripe. -/
theorem mem_places (hk : k ∈ before ++ after) :
    k.standing.place ∈ places s (before ++ after) (k.stripe s) :=
  List.mem_map_of_mem (List.mem_filter.mpr ⟨hk, decide_eq_true rfl⟩)

end Caller

namespace Workshop

/-! ## The invariant -/

/-- A workshop in which callers of a dictionary are under way, with the present contents of the
dictionary and the calls that are settled, in the order in which they were. -/
structure Follows (d : Dictionary) (s : Striping) (b : Backend) (x : Workshop Call.Answer)
    (callers : List Caller) (m : Contents) (order : List (Call × Outcome Call.Answer)) : Prop where
  /-- Every work is what is left for its caller. -/
  works_eq : x.works = callers.map (·.rest)
  /-- The callers keep to the rules. -/
  serves : ∀ k ∈ callers, k.rest.Serves d.column (k.stripe s) k.call
    (fun r t => t.place = .left r) k.standing
  /-- The dictionary has its contents. -/
  shows : x.backend.Shows d.column m
  /-- There is a lock for every stripe. -/
  length_eq : x.backend.stripes.length = s.count
  /-- Every lock knows the callers of its stripe. -/
  locks : ∀ i, (x.backend.stripes.lock i).Knows (Caller.places s callers i)
  /-- What a caller takes its key to hold is what it holds. -/
  sees : ∀ k ∈ callers, k.standing.place.Sees (m k.call.key)
  /-- The settled calls have these results and these contents if they run one after the other. -/
  serial : Serial d b order m
  /-- The settled calls are those of the callers that have a result. -/
  settled : order.Perm (callers.filterMap (·.result?))
  /-- Every caller has shown its updater what the log says. -/
  shown_eq : ∀ i k, callers[i]? = some k → k.standing.shown = x.shownBy i
  /-- No updater ran more than twice. -/
  twice : ∀ k ∈ callers, k.standing.shown.length ≤ 2

namespace Follows

variable {d : Dictionary} {s : Striping} {b b' : Backend} {x : Workshop Call.Answer}
  {callers before after : List Caller} {k : Caller} {m m' : Contents}
  {order : List (Call × Outcome Call.Answer)} {t' : Call.Standing} {q : Effect}

/-- What another caller has read stays true. -/
theorem sees_of_moves (h : Follows d s b x (before ++ k :: after) m order)
    (hmoves : Call.Moves d.column (k.stripe s) k.call
      (Caller.places s (before ++ after) (k.stripe s)) q k.standing x.backend m t' b' m') :
    ∀ k' ∈ before ++ after, k'.standing.place.Sees (m' k'.call.key) := by
  intro k' hk'
  have hsees : k'.standing.place.Sees (m k'.call.key) := h.sees k' (by
    rw [List.mem_append, List.mem_cons]
    exact (List.mem_append.mp hk').imp_right .inr)
  by_cases hkey : k'.call.key = k.call.key
  · -- The stripe is the same, so the contents are, or the caller has not read anything.
    obtain rfl | halone := hmoves.alone
    · exact hsees
    · have hplace : k'.standing.place ∈ Caller.places s (before ++ after) (k.stripe s) := by
        have hstripe : k'.stripe s = k.stripe s := congrArg s.index hkey
        exact hstripe ▸ Caller.mem_places hk'
      exact Call.Place.sees_of_out (halone _ hplace) _
  · obtain ⟨-, rfl⟩ | ⟨-, -, rfl⟩ := hmoves.settles
    · exact hsees
    · rwa [k.call.after_of_ne m hkey]

/-- The locks know where the callers are now. -/
theorem locks_of_moves (h : Follows d s b x (before ++ k :: after) m order)
    (hmoves : Call.Moves d.column (k.stripe s) k.call
      (Caller.places s (before ++ after) (k.stripe s)) q k.standing x.backend m t' b' m')
    {k' : Caller} (hcall : k'.call = k.call) (hstanding : k'.standing = t') (i : Nat) :
    (b'.stripes.lock i).Knows (Caller.places s (before ++ k' :: after) i) := by
  have hstripe : k'.stripe s = k.stripe s := by
    rw [Caller.stripe, hcall, Caller.stripe]
  have hlt : k.stripe s < x.backend.stripes.length := h.length_eq ▸ s.index_lt k.call.key
  obtain ⟨l, hstripes, hl⟩ := hmoves.locks
  rw [hstripes, Stripes.lock_set]
  by_cases hi : k.stripe s = i
  · rw [if_pos ⟨hi, hlt⟩]
    subst hi hstanding
    exact hl.perm (Caller.places_of_stripe hstripe).symm
  · rw [if_neg fun hand => hi hand.1, Caller.places_of_ne (hstripe ▸ hi)]
    have hlock := h.locks i
    rwa [Caller.places_of_ne hi] at hlock

/-- What is settled goes on in the order in which it is settled. -/
theorem settled_of_moves (hmode : d.mode = .allow) (hstriping : d.striping = some s)
    (h : Follows d s b x (before ++ k :: after) m order)
    (hmoves : Call.Moves d.column (k.stripe s) k.call
      (Caller.places s (before ++ after) (k.stripe s)) q k.standing x.backend m t' b' m')
    {k' : Caller} (hcall : k'.call = k.call) (hstanding : k'.standing = t') :
    ∃ order', Serial d b order' m' ∧
      order'.Perm ((before ++ k' :: after).filterMap (·.result?)) := by
  have hsettled := h.settled
  rw [List.filterMap_append, List.filterMap_cons] at hsettled
  rw [List.filterMap_append, List.filterMap_cons]
  -- A turn that settles nothing keeps the order; otherwise the call takes the last place of it.
  obtain ⟨hresult, rfl⟩ | ⟨hnone, hsome, rfl⟩ := hmoves.settles
  · have hsame : k'.result? = k.result? := by
      rw [Caller.result?, Caller.result?, hcall, hstanding, hresult]
    exact ⟨order, h.serial, hsame ▸ hsettled⟩
  · have hbefore : k.result? = none := by rw [Caller.result?, hnone, Option.map_none]
    have hafter : k'.result? = some (k.call, k.call.answer (m k.call.key)) := by
      rw [Caller.result?, hcall, hstanding, hsome, Option.map_some]
    rw [hbefore] at hsettled
    rw [hafter]
    refine ⟨_, h.serial.concat hmode hstriping k.call, ?_⟩
    exact (List.perm_append_singleton ..).trans ((hsettled.cons _).trans List.perm_middle.symm)

/-- One turn is a move of one caller. -/
theorem turn (hmode : d.mode = .allow) (hstriping : d.striping = some s)
    (h : Follows d s b x callers m order) (i : Nat) :
    ∃ callers' m' order', callers'.map (·.call) = callers.map (·.call) ∧
      Follows d s b (x.turn i) callers' m' order' := by
  obtain hidle | ⟨q, next, a, b', hwork, hanswer, hturn⟩ := x.turn_cases i
  · rw [hidle]
    exact ⟨callers, m, order, rfl, h⟩
  rw [h.works_eq, List.getElem?_map, Option.map_eq_some_iff] at hwork
  obtain ⟨k, hk, hrest⟩ := hwork
  obtain ⟨before, after, rfl, rfl⟩ := List.exists_split_of_getElem? hk
  have hmem : k ∈ before ++ k :: after := List.mem_append_right _ List.mem_cons_self
  -- The rules allow the effect, and say what follows from its answer.
  have hserves := h.serves k hmem
  rw [hrest] at hserves
  obtain ⟨R, hrule, hnext⟩ := hserves
  have hlock := (h.locks (k.stripe s)).perm (Caller.places_of_stripe rfl)
  obtain ⟨t', m', ha, hmoves⟩ := hrule.moves h.shows hlock (h.sees k hmem) hanswer
  obtain ⟨hself, hothers⟩ := List.forall_mem_split.mp h.twice
  let k' : Caller := ⟨k.call, t', next a⟩
  obtain ⟨order', hserial, hsettled⟩ :=
    h.settled_of_moves hmode hstriping hmoves (show k'.call = k.call from rfl) rfl
  have hworks : x.works.set before.length (next a)
      = (before ++ k' :: after).map (·.rest) := by simp [h.works_eq, k']
  refine ⟨before ++ k' :: after, m', order', by simp [k'], ?_⟩
  rw [hturn, hworks]
  exact
    { works_eq := rfl
      serves := List.forall_mem_split.mpr
        ⟨hnext a t' ha, (List.forall_mem_split.mp h.serves).2⟩
      shows := hmoves.shows
      length_eq := by
        obtain ⟨l, hstripes, -⟩ := hmoves.locks
        rw [hstripes, List.length_set, h.length_eq]
      locks := h.locks_of_moves hmoves rfl rfl
      sees := List.forall_mem_split.mpr ⟨hmoves.sees, h.sees_of_moves hmoves⟩
      serial := hserial
      settled := hsettled
      shown_eq := by
        intro i k'' hk''
        rw [shownBy_cons]
        obtain ⟨rfl, rfl⟩ | ⟨hi, hk''⟩ := List.getElem?_split (a := k) hk''
        · rw [if_pos rfl, ← h.shown_eq _ k (by simp)]
          exact hmoves.shown
        · rw [if_neg (Ne.symm hi)]
          exact h.shown_eq i k'' hk''
      twice := List.forall_mem_split.mpr ⟨hrule.length_shown_le ha hself, hothers⟩ }

/-- Nothing has happened yet. -/
theorem start {w : World} (hmode : d.mode = .allow) (hstriping : d.striping = some s)
    (hb : b.IsIn w) (hrest : d.AtRest w) (calls : List Call) :
    Follows d s b (start b (calls.map (·.work d)))
      (calls.map fun c => ⟨c, ⟨.outside, []⟩, c.work d⟩) (w.now d.column) [] := by
  have hstripes : b.stripes = .idle s := by
    rw [hb.stripes_eq, hrest.stripes_eq, hstriping]
    rfl
  have hall : ∀ {P : Caller → Prop}, (∀ c, P ⟨c, ⟨.outside, []⟩, c.work d⟩) →
      ∀ k ∈ calls.map fun c => (⟨c, ⟨.outside, []⟩, c.work d⟩ : Caller), P k := by
    intro P hP k hk
    obtain ⟨c, -, rfl⟩ := List.mem_map.mp hk
    exact hP c
  exact
    { works_eq := by simp [Workshop.start]
      serves := hall fun c => c.serves_work hmode hstriping
      shows := ⟨w, hb, hrest.column, rfl⟩
      length_eq := by
        rw [Workshop.start, hstripes]
        exact List.length_replicate
      locks := by
        intro i
        rw [Workshop.start, hstripes, Stripes.areIdle_idle s i]
        refine .idle fun p hp => ?_
        obtain ⟨k, hk, rfl⟩ := List.mem_map.mp hp
        exact hall (P := fun k => k.standing.place = .outside) (fun _ => rfl) k
          (List.mem_filter.mp hk).1
      sees := hall fun _ => trivial
      serial := .nil hb hrest
      settled := by
        rw [List.filterMap_eq_nil_iff.mpr (hall fun _ => rfl)]
      shown_eq := fun i k hk => hall (P := fun k => k.standing.shown = []) (fun _ => rfl) k
        (List.mem_of_getElem? hk)
      twice := hall fun _ => Nat.zero_le 2 }

/-- Every run keeps to the invariant. -/
theorem run (hmode : d.mode = .allow) (hstriping : d.striping = some s)
    (h : Follows d s b x callers m order) (schedule : List Nat) :
    ∃ callers' m' order', callers'.map (·.call) = callers.map (·.call) ∧
      Follows d s b (x.run schedule) callers' m' order' := by
  refine run_induction (P := fun y => ∃ callers' m' order',
    callers'.map (·.call) = callers.map (·.call) ∧ Follows d s b y callers' m' order')
    ⟨callers, m, order, rfl, h⟩ ?_ schedule
  rintro y i ⟨callers₁, m₁, order₁, hcalls₁, h₁⟩
  obtain ⟨callers₂, m₂, order₂, hcalls₂, h₂⟩ := h₁.turn hmode hstriping i
  exact ⟨callers₂, m₂, order₂, hcalls₂.trans hcalls₁, h₂⟩

/-- When all works have ended, the settled calls are all calls with what they ended with. -/
theorem perm_zip (h : Follows d s b x callers m order) {outcomes : List (Outcome Call.Answer)}
    (hdone : x.EndsWith outcomes) : order.Perm ((callers.map (·.call)).zip outcomes) := by
  have hleft : ∀ k ∈ callers, ∀ r, k.rest.outcome? = some r → k.standing.place = .left r := by
    intro k hk r hr
    have hserves := h.serves k hk
    rwa [Work.outcome?_eq_some.mp hr] at hserves
  rw [EndsWith, h.works_eq, List.map_map] at hdone
  rw [← Caller.filterMap_result? hdone hleft]
  exact h.settled

/-- An update that is about to call the engine reads its key, or writes what its updater makes of
the value that is stored, and that value was the last to be shown to it. -/
theorem consulted (h : Follows d s b x callers m order) {i : Nat} {key : Bytes} {f : Updater}
    {sure : Bool} (hcall : (callers.map (·.call))[i]? = some (.update key f sure))
    {c : EngineCall} {next : Except EngineError c.Answer → Work Empty Call.Answer}
    (hwork : x.works[i]? = some (.perform (.ask c) next)) :
    c = .mayContain d.column key ∨ c = .get d.column .latest key ∨
      ∃ current, c = .assign d.column key current ∧ f (m key) = some current ∧
        (x.shownBy i).head? = some (m key) := by
  rw [List.getElem?_map, Option.map_eq_some_iff] at hcall
  obtain ⟨k, hk, hcall⟩ := hcall
  have hmem : k ∈ callers := List.mem_of_getElem? hk
  rw [h.works_eq, List.getElem?_map, hk, Option.map_some, Option.some.injEq] at hwork
  have hserves := h.serves k hmem
  have hsees := h.sees k hmem
  rw [hwork] at hserves
  obtain ⟨R, hrule, -⟩ := hserves
  rw [hcall] at hrule hsees
  obtain hc | hc | ⟨v, current, hc, hplace, hwrites, hshown⟩ := hrule.asks
  · exact .inl hc
  · exact .inr (.inl hc)
  · -- The updater was shown what is stored now, for the caller is inside the stripe.
    rw [hplace] at hsees
    obtain rfl : m key = v := hsees
    refine .inr (.inr ⟨current, hc, Call.eq_of_writes?_update hwrites, ?_⟩)
    rw [← h.shown_eq i k hk]
    exact hshown

end Follows

end Workshop

end SnapshotStore
