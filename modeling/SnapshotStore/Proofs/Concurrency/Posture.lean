import Mathlib.Logic.Function.Basic
import SnapshotStore.Proofs.Concurrency.Workshop
import SnapshotStore.Proofs.Footprint.Work

/-!
# How work behaves at the stripes

Calls on one key have one stripe and use it once.  Other work holds many stripes at once, or comes
back to try again.  Seen from the others it has a posture (`Posture`): how it holds each stripe,
what the keys of these stripes held when it went in, and what it wrote since.

`Posture.Rule` lists the effects that work may perform in a posture, and what it then relies on: it
reads and writes a key only with the stripe of the key, it writes only what it holds alone, and it
goes into a stripe only before it writes.  `Work.Minds` says of some work that it keeps to these
rules and that all its postures have a property.  What a whole run then keeps is in
`Concurrency.Tenants`.
-/

namespace SnapshotStore

/-! ## What is written, and where -/

/-- Whether an operation is about a key. -/
def WriteOp.touches : WriteOp → Bytes → Bool
  | put key _, k | delete key, k => k = key
  | deleteRange range, k => range.contains k

namespace Contents

variable {m m' : Contents} {key : Bytes}

/-- An operation at other keys leaves this one alone. -/
theorem apply_of_not_touches {op : WriteOp} (h : op.touches key = false) :
    m.apply op key = m key := by
  cases op <;> simp_all [WriteOp.touches, apply]

/-- What an operation makes of a key depends on no other key. -/
theorem apply_congr (op : WriteOp) (h : m key = m' key) : m.apply op key = m'.apply op key := by
  cases op <;> simp [apply, h]

/-- A batch at other keys leaves this one alone. -/
theorem applyAll_of_not_touches {batch : WriteBatch} (h : ∀ op ∈ batch, op.touches key = false) :
    m.applyAll batch key = m key := by
  induction batch generalizing m with
  | nil => rfl
  | cons op rest ih =>
    obtain ⟨hop, hrest⟩ := List.forall_mem_cons.mp h
    exact (ih hrest).trans (apply_of_not_touches hop)

/-- What a batch makes of a key depends on nothing but what the key held. -/
theorem applyAll_congr (batch : WriteBatch) (h : m key = m' key) :
    m.applyAll batch key = m'.applyAll batch key := by
  induction batch generalizing m m' with
  | nil => exact h
  | cons op rest ih => exact ih (apply_congr op h)

end Contents

namespace Effect

/-- The operations that an effect asks to have written, each with its column. -/
def writes : Effect → List (Nat × WriteOp)
  | ask c => c.writes
  | _ => []

/-- The stripe that an effect goes into. -/
def entered? : Effect → Option Nat
  | enter _ i => some i
  | _ => none

end Effect

/-! ## Postures -/

/-- What the others have to know of some work. -/
structure Posture where
  /-- The stripes that it went into, newest first. -/
  entered : List Nat
  /-- How it holds each stripe. -/
  hold : Nat → Option Hold
  /-- The stripe for which it is announced as a writer. -/
  announced : Option Nat
  /-- What the keys of its stripes held when it went in. -/
  base : Contents
  /-- What it wrote, oldest first. -/
  written : WriteBatch

namespace Posture

/-- The posture of work that did nothing yet. -/
def blank (m : Contents) : Posture := ⟨[], fun _ => none, none, m, []⟩

/-- What the keys of its stripes hold now. -/
def view (t : Posture) : Contents := t.base.applyAll t.written

/-- The posture inside one more stripe, whose keys hold what some contents say. -/
def enter (s : Striping) (t : Posture) (hold : Hold) (i : Nat) (m : Contents) : Posture where
  entered := i :: t.entered
  hold := Function.update t.hold i (some hold)
  announced := none
  base := fun key => if s.index key = i then m key else t.base key
  written := t.written

/-- The posture of a writer that waits for a stripe. -/
def awaiting (t : Posture) (i : Nat) : Posture := { t with announced := some i }

/-- The posture of the writer of a stripe that was its reader. -/
def upgraded (t : Posture) (i : Nat) : Posture :=
  { t with hold := Function.update t.hold i (some .exclusive) }

/-- The posture outside a stripe. -/
def leave (t : Posture) (i : Nat) : Posture := { t with hold := Function.update t.hold i none }

/-- The posture behind a write. -/
def wrote (t : Posture) (ops : WriteBatch) : Posture := { t with written := t.written ++ ops }

/-- The work holds no stripe, waits for none and has not written. -/
structure IsAway (t : Posture) : Prop where
  /-- It holds no stripe. -/
  hold : ∀ i, t.hold i = none
  /-- It waits for none. -/
  announced : t.announced = none
  /-- It has not written. -/
  written : t.written = []

/-- At first work is away from all stripes. -/
theorem isAway_blank (m : Contents) : (blank m).IsAway := ⟨fun _ => rfl, rfl, rfl⟩

section Hold

variable (s : Striping) (t : Posture) (hold : Hold) {i j : Nat} (m : Contents)

@[simp] theorem hold_enter_self : (t.enter s hold i m).hold i = some hold :=
  Function.update_self ..

@[simp] theorem hold_enter_of_ne (hj : j ≠ i) : (t.enter s hold i m).hold j = t.hold j :=
  Function.update_of_ne hj _ _

@[simp] theorem hold_upgraded_self : (t.upgraded i).hold i = some .exclusive :=
  Function.update_self ..

@[simp] theorem hold_upgraded_of_ne (hj : j ≠ i) : (t.upgraded i).hold j = t.hold j :=
  Function.update_of_ne hj _ _

@[simp] theorem hold_leave_self : (t.leave i).hold i = none := Function.update_self ..

@[simp] theorem hold_leave_of_ne (hj : j ≠ i) : (t.leave i).hold j = t.hold j :=
  Function.update_of_ne hj _ _

end Hold

/-- Who has written nothing sees what it read. -/
theorem view_of_unwritten {t : Posture} (h : t.written = []) : t.view = t.base := by
  rw [view, h, Contents.applyAll_nil]

/-- The effects that work may perform in a posture, and what each may answer and lead to. -/
inductive Rule (n : Nat) (s : Striping) (t : Posture) :
    (q : Effect) → (q.Answer → Posture → Prop) → Prop
  /-- The view of no snapshot is the newest state. -/
  | resolve : Rule n s t (.resolve none) fun a t' => a = .ok .latest ∧ t' = t
  /-- An updater runs. -/
  | consult (f : Updater) (current : Option Bytes) :
    Rule n s t (.consult f current) fun a t' => a = f current ∧ t' = t
  /-- With the stripe of a key, the filter says no only if the key has no value. -/
  | probe {key : Bytes} (hheld : t.hold (s.index key) ≠ none) :
    Rule n s t (.ask (.mayContain n key)) fun a t' =>
      (∃ possible, a = .ok possible ∧ (possible = false → t.view key = none)) ∧ t' = t
  /-- With the stripe of a key, the engine answers what the key holds. -/
  | fetch {key : Bytes} (hheld : t.hold (s.index key) ≠ none) :
    Rule n s t (.ask (.get n .latest key)) fun a t' => a = .ok (t.view key) ∧ t' = t
  /-- A cursor is opened for a range. -/
  | scan (range : KeyRange) :
    Rule n s t (.ask (.scan n .latest range)) fun a t' =>
      (∃ cursor, a = .ok cursor ∧ cursor.StaysIn range) ∧ t' = t
  /-- A cursor yields an entry of its range, or comes to its end. -/
  | next {cursor : Cursor} {range : KeyRange} (hcursor : cursor.StaysIn range) :
    Rule n s t (.ask (.next cursor)) fun a t' =>
      (∃ entry cursor', a = .ok (entry, cursor') ∧ (∀ e, entry = some e → range.contains e.1) ∧
        cursor'.StaysIn range) ∧ t' = t
  /-- A cursor is dropped. -/
  | unpin (sequence : Nat) : Rule n s t (.unpin sequence) fun _ t' => t' = t
  /-- A value is written by work that has the stripe of the key alone. -/
  | put {key : Bytes} (value : Bytes) (hheld : t.hold (s.index key) = some .exclusive) :
    Rule n s t (.ask (.put n key value)) fun a t' => a = .ok () ∧ t' = t.wrote [.put key value]
  /-- So is a deletion. -/
  | delete {key : Bytes} (hheld : t.hold (s.index key) = some .exclusive) :
    Rule n s t (.ask (.delete n key)) fun a t' => a = .ok () ∧ t' = t.wrote [.delete key]
  /-- So is a batch. -/
  | write {batch : WriteBatch} (hne : batch ≠ [])
      (hheld : ∀ op ∈ batch, ∀ key, op.touches key = true →
        t.hold (s.index key) = some .exclusive) :
    Rule n s t (.ask (.write n batch)) fun a t' => a = .ok () ∧ t' = t.wrote batch
  /-- A writer announces itself. -/
  | announce {i : Nat} (hi : i < s.count) (hfree : t.hold i = none)
      (hannounced : t.announced = none) :
    Rule n s t (.announce i) fun _ t' => t' = t.awaiting i
  /-- A reader goes in, or an announced writer, and finds the stripe with some values. -/
  | enter {hold : Hold} {i : Nat} (hi : i < s.count) (hfree : t.hold i = none)
      (hannounced : t.announced = if hold = .exclusive then some i else none)
      (hwritten : t.written = []) :
    Rule n s t (.enter hold i) fun _ t' => ∃ m, t' = t.enter s hold i m
  /-- A reader becomes the writer, or stays a reader. -/
  | upgrade {i : Nat} (hi : i < s.count) (hheld : t.hold i = some .shared) :
    Rule n s t (.upgrade i) fun a t' =>
      t' = if a then t.upgraded i else t
  /-- Work goes out of a stripe. -/
  | leave {hold : Hold} {i : Nat} (hi : i < s.count) (hheld : t.hold i = some hold)
      (hannounced : t.announced = none) :
    Rule n s t (.leave hold i) fun _ t' => t' = t.leave i

end Posture

/-! ## Work that keeps to the rules -/

namespace Work

variable {ε α β : Type} {n : Nat} {s : Striping} {I : Posture → Prop} {w : Work ε α} {t : Posture}
  {P : Outcome α → Posture → Prop}

/-- Work that starts in a posture keeps to the rules, and its further postures have a property; how
it ends, and its posture then, have another one. -/
def Minds (n : Nat) (s : Striping) (I : Posture → Prop) (Q : Outcome α → Posture → Prop) :
    Work ε α → Posture → Prop
  | finish r, t => Q r t
  | perform q next, t =>
    ∃ R, t.Rule n s q R ∧ ∀ a t', R a t' → I t' ∧ (next a).Minds n s I Q t'
  | send .., _ => False

/-- What is put behind some work goes on where the work ended. -/
private theorem Minds.behind {Q : Outcome β → Posture → Prop} (g : Work ε α → Work ε β)
    (hperform : ∀ q next, g (perform q next) = perform q fun a => g (next a))
    (h : w.Minds n s I P t) (hfinish : ∀ r t, P r t → (g (finish r)).Minds n s I Q t) :
    (g w).Minds n s I Q t := by
  induction w generalizing t with
  | finish r => exact hfinish r t h
  | perform q next ih =>
    obtain ⟨R, hrule, hnext⟩ := h
    rw [hperform]
    exact ⟨R, hrule, fun a t' ha => ⟨(hnext a t' ha).1, ih a (hnext a t' ha).2⟩⟩
  | send item next ih => exact h.elim

/-- Work that keeps to the rules may go on with work that does. -/
theorem Minds.bind {Q : Outcome β → Posture → Prop} {f : α → Work ε β} (h : w.Minds n s I P t)
    (hf : ∀ r t, P r t → (finish r >>= f : Work ε β).Minds n s I Q t) :
    (w >>= f).Minds n s I Q t :=
  h.behind (fun w => w >>= f) (fun _ _ => rfl) hf

/-- What is done at the end has to keep to the rules wherever the work may end. -/
theorem Minds.ensuring {Q : Outcome α → Posture → Prop} {last : Work ε Unit}
    (h : w.Minds n s I P t)
    (hlast : ∀ r t, P r t → ((finish r : Work ε α).ensuring last).Minds n s I Q t) :
    (w.ensuring last).Minds n s I Q t :=
  h.behind (fun w => w.ensuring last) (fun _ _ => rfl) hlast

/-- Less may be promised about the end. -/
theorem Minds.mono {Q : Outcome α → Posture → Prop} (h : w.Minds n s I P t)
    (hPQ : ∀ r t, P r t → Q r t) : w.Minds n s I Q t :=
  h.behind id (fun _ _ => rfl) hPQ

/-- A call of the engine that does not fail. -/
theorem minds_call {call : EngineCall} {R : Except EngineError call.Answer → Posture → Prop}
    {Q : Outcome call.Answer → Posture → Prop} (hrule : t.Rule n s (.ask call) R)
    (hQ : ∀ r t', R r t' → I t' ∧ ∃ a, r = .ok a ∧ Q (.done a) t') (operation context : String) :
    (Work.call operation context call : Work ε _).Minds n s I Q t := by
  refine ⟨R, hrule, fun r t' hr => ?_⟩
  obtain ⟨hI, a, rfl, ha⟩ := hQ r t' hr
  exact ⟨hI, ha⟩

/-- Without a snapshot the view is the newest state. -/
theorem minds_view (hI : I t) :
    (Work.view none : Work ε _).Minds n s I (fun r t' => r = .done .latest ∧ t' = t) t := by
  refine ⟨_, .resolve, ?_⟩
  rintro _ _ ⟨rfl, rfl⟩
  exact ⟨hI, rfl, rfl⟩

end Work

/-! ## Several stripes -/

namespace Posture

/-- The posture of work that took some stripes in order, holds some of them still, and wrote
something. -/
def taking (t : Posture) (hold : Hold) (all now : List Nat) (m : Contents) (batch : WriteBatch) :
    Posture where
  entered := all.reverse ++ t.entered
  hold := fun i => if i ∈ now then some hold else t.hold i
  announced := none
  base := m
  written := batch

variable {s : Striping} {t : Posture} {hold : Hold} {i : Nat} {all now : List Nat} {m m' : Contents}
  {batch : WriteBatch}

theorem taking_nil (hannounced : t.announced = none) (hwritten : t.written = []) :
    t.taking hold [] [] t.base [] = t := by
  obtain ⟨entered, held, announced, base, written⟩ := t
  obtain rfl : announced = none := hannounced
  obtain rfl : written = [] := hwritten
  simp [taking]

/-- To take one stripe and then others is to take them all. -/
theorem taking_enter :
    (t.enter s hold i m').taking hold all now m batch
      = t.taking hold (i :: all) (i :: now) m batch := by
  unfold taking enter
  congr 1
  · simp
  · funext j
    by_cases hj : j ∈ now
    · simp [hj]
    · by_cases hi : j = i <;> simp [hj, hi]

/-- To go into a stripe is to take it. -/
theorem enter_eq_taking (hwritten : t.written = []) :
    t.enter s hold i m = t.taking hold [i] [i] (t.enter s hold i m).base [] := by
  have htaking : (t.enter s hold i m).taking hold [] [] (t.enter s hold i m).base [] = _ :=
    taking_nil rfl hwritten
  rwa [taking_enter, eq_comm] at htaking

/-- The stripe that was taken first is given back last. -/
theorem leave_taking (hfree : t.hold i = none) :
    (t.taking hold all [i] m batch).leave i = t.taking hold all [] m batch := by
  unfold taking leave
  congr 1
  funext j
  by_cases hi : j = i
  · subst hi
    simp [hfree]
  · simp [hi]

end Posture

namespace Work

variable {ε α : Type} {n : Nat} {s : Striping} {I : Posture → Prop} {w : Work ε α} {t : Posture}
  {hold : Hold} {i : Nat} {is : List Nat}

/-- A stripe is taken. -/
theorem minds_lock (hi : i < s.count) (hfree : t.hold i = none) (hannounced : t.announced = none)
    (hwritten : t.written = []) (hwaits : I (t.awaiting i))
    (hin : ∀ m, I (t.enter s hold i m)) :
    (lock hold i : Work ε Unit).Minds n s I
      (fun r t' => r = .done () ∧ ∃ m, t' = t.enter s hold i m) t := by
  cases hold with
  | shared =>
    refine ⟨_, .enter hi hfree hannounced hwritten, ?_⟩
    rintro _ _ ⟨m, rfl⟩
    exact ⟨hin m, rfl, m, rfl⟩
  | exclusive =>
    refine ⟨_, .announce hi hfree hannounced, ?_⟩
    rintro _ _ rfl
    refine ⟨hwaits, _, .enter hi hfree rfl hwritten, ?_⟩
    rintro _ _ ⟨m, rfl⟩
    exact ⟨hin m, rfl, m, rfl⟩

/-- Work under stripes takes them in order, and gives them back in the opposite order however it
ends.  What it writes stands when it begins to give them back. -/
theorem minds_holding {G : Outcome α → Contents → WriteBatch → Prop} (hnodup : is.Nodup)
    (hlt : ∀ i ∈ is, i < s.count) (hfree : ∀ i ∈ is, t.hold i = none)
    (hannounced : t.announced = none) (hwritten : t.written = [])
    (hI : ∀ t a, I t → I { t with announced := a })
    (hin : ∀ before after, is = before ++ after → ∀ m, I (t.taking hold before before m []))
    (hout : ∀ before after, is = before ++ after → ∀ r m batch, G r m batch →
      I (t.taking hold is before m batch))
    (h : ∀ m, w.Minds n s I (fun r t' => ∃ batch, G r m batch ∧ t' = t.taking hold is is m batch)
      (t.taking hold is is m [])) :
    (holding hold is w).Minds n s I
      (fun r t' => ∃ m batch, G r m batch ∧ t' = t.taking hold is [] m batch) t := by
  induction is generalizing t with
  | nil =>
    have hw := h t.base
    rw [Posture.taking_nil hannounced hwritten] at hw
    exact hw.mono fun r t' ⟨batch, hG, ht⟩ => ⟨t.base, batch, hG, ht⟩
  | cons i is ih =>
    obtain ⟨hi, hnodup⟩ := List.nodup_cons.mp hnodup
    obtain ⟨hltfirst, hlt⟩ := List.forall_mem_cons.mp hlt
    obtain ⟨hfreefirst, hfree⟩ := List.forall_mem_cons.mp hfree
    have hwaits : I (t.awaiting i) := by
      have hnow := hin [] (i :: is) rfl t.base
      rw [Posture.taking_nil hannounced hwritten] at hnow
      exact hI t _ hnow
    have hinside : ∀ m, I (t.enter s hold i m) := by
      intro m
      rw [Posture.enter_eq_taking hwritten]
      exact hin [i] is rfl _
    refine (minds_lock hltfirst hfreefirst hannounced hwritten hwaits hinside).bind ?_
    rintro _ _ ⟨rfl, m₀, rfl⟩
    -- What is done between is done from inside the first stripe.
    have hothers : ∀ j ∈ is, (t.enter s hold i m₀).hold j = none := by
      intro j hj
      have hne : j ≠ i := fun heq => hi (heq ▸ hj)
      exact (t.hold_enter_of_ne s hold m₀ hne).trans (hfree j hj)
    have hinner := ih (t := t.enter s hold i m₀) hnodup hlt hothers rfl hwritten
      (fun before after his m => by
        rw [Posture.taking_enter]
        exact hin (i :: before) after (congrArg _ his) m)
      (fun before after his r m batch hG => by
        rw [Posture.taking_enter]
        exact hout (i :: before) after (congrArg _ his) r m batch hG)
      (fun m => by
        simp only [Posture.taking_enter]
        exact h m)
    refine hinner.ensuring ?_
    rintro r _ ⟨m, batch, hG, rfl⟩
    rw [Posture.taking_enter]
    have hheld : (t.taking hold (i :: is) [i] m batch).hold i = some hold :=
      if_pos (List.mem_singleton.mpr rfl)
    refine ⟨_, .leave hltfirst hheld rfl, ?_⟩
    rintro _ _ rfl
    rw [Posture.leave_taking hfreefirst]
    exact ⟨hout [] (i :: is) rfl r m batch hG, m, batch, hG, rfl⟩

end Work

/-- With the stripe of a key, a read answers what the key holds. -/
theorem Dictionary.minds_read {ε : Type} {d : Dictionary} {s : Striping} {I : Posture → Prop}
    {t : Posture} {key : Bytes} (hI : I t) (hheld : t.hold (s.index key) ≠ none) (sure : Bool) :
    (d.read .latest key sure : Work ε _).Minds d.column s I
      (fun r t' => r = .done (t.view key) ∧ t' = t) t := by
  have hfetch : (Work.call "read" key.label (.get d.column .latest key) : Work ε _).Minds d.column s
      I (fun r t' => r = .done (t.view key) ∧ t' = t) t := by
    refine Work.minds_call (.fetch hheld) ?_ _ _
    rintro r t' ⟨hr, rfl⟩
    exact ⟨hI, t'.view key, hr, rfl, rfl⟩
  -- The filter is asked only if the caller is not sure, and its no is right.
  cases sure with
  | true => exact hfetch
  | false =>
    refine (Work.minds_call (Q := fun r t' => ∃ possible, r = .done possible ∧
      (possible = false → t.view key = none) ∧ t' = t) (.probe hheld) ?_ _ _).bind ?_
    · rintro r _ ⟨⟨possible, rfl, hpossible⟩, rfl⟩
      exact ⟨hI, possible, rfl, possible, rfl, hpossible, rfl⟩
    · rintro r _ ⟨possible, rfl, hpossible, rfl⟩
      cases possible with
      | true => exact hfetch
      | false => exact ⟨congrArg _ (hpossible rfl).symm, rfl⟩

end SnapshotStore
