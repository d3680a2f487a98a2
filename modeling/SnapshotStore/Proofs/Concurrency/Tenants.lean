import Mathlib.Data.List.Induction
import Mathlib.Data.List.Perm.Basic
import SnapshotStore.Proofs.Concurrency.Posture

/-!
# Work that runs at the same time

An effect within the rules of postures is answered as they say, and is one of a few changes: the
work goes into a stripe or out of it, or writes, or changes nothing that concerns the others
(`Posture.Change`, `Posture.Rule.moves`).

The invariant of a workshop (`Workshop.Hosts`) holds a tenant for every work, with its posture, and
the present contents of the dictionary.  The locks know who holds what, so whoever holds a stripe
alone is alone there, and what another tenant found in its stripes stays true.  The log of the
workshop says what each tenant wrote and which stripes it went into.
-/

namespace SnapshotStore

universe u

namespace List

variable {α : Type u} {l : List α} {a b c : α} {i j : Nat}

/-- An element that was replaced. -/
theorem getElem?_set_of_eq_some (ha : l[i]? = some a) : (l.set i b)[i]? = some b :=
  List.getElem?_set_self (List.getElem?_eq_some_iff.mp ha).1

/-- What is in a list where one element was replaced. -/
theorem getElem?_set_cases (ha : l[i]? = some a) (hc : (l.set i b)[j]? = some c) :
    j = i ∧ c = b ∨ j ≠ i ∧ l[j]? = some c := by
  by_cases hij : i = j
  · subst hij
    rw [getElem?_set_of_eq_some ha, Option.some.injEq] at hc
    exact .inl ⟨rfl, hc.symm⟩
  · rw [List.getElem?_set_ne hij] at hc
    exact .inr ⟨Ne.symm hij, hc⟩

end List

/-! ## Contents -/

namespace Backend.Shows

variable {b : Backend} {n : Nat} {m : Contents}

/-- An engine that shows contents is open. -/
theorem isClosed_eq (h : b.Shows n m) : b.engine.engine.isClosed = false := by
  obtain ⟨w, hb, -, -⟩ := h
  exact hb.isClosed_eq

/-- A cursor is opened. -/
theorem scan (h : b.Shows n m) (range : KeyRange) :
    ∃ cursor e, b.answer? (.ask (.scan n .latest range))
        = some (.ok cursor, { b with engine := .reliable e }) ∧
      cursor.StaysIn range ∧ Shows { b with engine := .reliable e } n m := by
  obtain ⟨w, hb, hn, rfl⟩ := h
  obtain ⟨c, hc⟩ := hb.column_eq hn
  have hscan := Engine.scan_latest_of_open hb.isClosed_eq hc range
  have hanswer : b.engine.engine.answer (.scan n .latest range)
      = (.ok (Engine.cursorAt n c range b.engine.engine.sequence),
        b.engine.engine.pin b.engine.engine.sequence) := by
    rw [Engine.answer, hscan]
    rfl
  have hin := hb.answer (.scan n .latest range)
  rw [hanswer] at hin
  have hask := Work.answer?_ask hb.engine_eq (.scan n .latest range)
  rw [hanswer] at hask
  exact ⟨_, _, hask, .cursorAt n c range _, _, hin, hn, rfl⟩

/-- A cursor goes on. -/
theorem next (h : b.Shows n m) {cursor : Cursor} {range : KeyRange}
    (hcursor : cursor.StaysIn range) :
    ∃ entry cursor', b.answer? (.ask (.next cursor)) = some (.ok (entry, cursor'), b) ∧
      (∀ e, entry = some e → range.contains e.1) ∧ cursor'.StaysIn range := by
  obtain ⟨⟨entry, cursor'⟩, hnext⟩ := Cursor.exists_next_eq_ok h.isClosed_eq cursor
  obtain ⟨hentry, hcursor'⟩ := hcursor.next hnext
  refine ⟨entry, cursor', ?_, hentry, hcursor'⟩
  rw [h.reading fun _ => rfl]
  exact congrArg (fun r => some (r, b)) hnext

/-- A cursor is dropped. -/
theorem unpin (h : b.Shows n m) (sequence : Nat) :
    Shows { b with engine := b.engine.modify (·.unpin sequence) } n m := by
  obtain ⟨w, hb, hn, rfl⟩ := h
  exact ⟨_, hb.unpin sequence, hn, rfl⟩

end Backend.Shows

/-! ## Changes of a posture -/

namespace Posture

variable {n : Nat} {s : Striping} {t t' : Posture} {m m' : Contents} {q : Effect} {i j : Nat}
  {hold : Hold}

/-- The keys of the stripes of a posture hold what it says. -/
def Sees (s : Striping) (t : Posture) (m : Contents) : Prop :=
  ∀ key, t.hold (s.index key) ≠ none → m key = t.view key

/-- What an effect changes: the posture of the work that performs it, and the contents. -/
inductive Change (n : Nat) (s : Striping) (t : Posture) (m : Contents) :
    Effect → Posture → Contents → Prop
  /-- Nothing that concerns the others. -/
  | idle {q : Effect} (hwrites : q.writes = []) (hentered : q.entered? = none) :
    Change n s t m q t m
  /-- A writer is announced. -/
  | announce (i : Nat) : Change n s t m (.announce i) (t.awaiting i) m
  /-- Work goes into a stripe, and knows its contents from then on. -/
  | enter (hold : Hold) {i : Nat} (hi : i < s.count) (hfree : t.hold i = none)
      (hwritten : t.written = []) : Change n s t m (.enter hold i) (t.enter s hold i m) m
  /-- The only reader of a stripe becomes its writer. -/
  | upgrade {i : Nat} (hheld : t.hold i = some .shared) :
    Change n s t m (.upgrade i) (t.upgraded i) m
  /-- Work goes out of a stripe. -/
  | leave {hold : Hold} {i : Nat} (hheld : t.hold i = some hold) :
    Change n s t m (.leave hold i) (t.leave i) m
  /-- Work writes what it holds alone. -/
  | write {c : EngineCall} {batch : WriteBatch} (hwrites : c.writes = batch.map (n, ·))
      (hheld : ∀ op ∈ batch, ∀ key, op.touches key = true →
        t.hold (s.index key) = some .exclusive) :
    Change n s t m (.ask c) (t.wrote batch) (m.applyAll batch)

namespace Change

/-- Only what the work holds alone can change. -/
theorem frame (h : Change n s t m q t' m') {key : Bytes}
    (hkey : t.hold (s.index key) ≠ some .exclusive) : m' key = m key := by
  cases h with
  | write hwrites hheld =>
    refine Contents.applyAll_of_not_touches fun op hop => ?_
    exact Bool.eq_false_iff.mpr fun htouches => hkey (hheld op hop key htouches)
  | _ => rfl

/-- What the work takes its keys to hold is what they hold. -/
theorem sees (h : Change n s t m q t' m') (hsees : t.Sees s m) : t'.Sees s m' := by
  cases h with
  | idle => exact hsees
  | announce => exact hsees
  | @enter hold i hi hfree hwritten =>
    intro key hkey
    rw [view_of_unwritten (t := t.enter s hold i m) hwritten]
    -- At the stripe that is entered the contents are read now, and at the others they are as they
    -- were.
    by_cases hstripe : s.index key = i
    · exact (if_pos hstripe).symm
    · rw [hold_enter_of_ne s t hold m hstripe] at hkey
      rw [hsees key hkey, view_of_unwritten hwritten]
      exact (if_neg hstripe).symm
  | @upgrade i hheld =>
    intro key hkey
    by_cases hstripe : s.index key = i
    · exact hsees key (by rw [hstripe, hheld]; exact Option.some_ne_none _)
    · exact hsees key (by rwa [t.hold_upgraded_of_ne hstripe] at hkey)
  | @leave hold i hheld =>
    intro key hkey
    by_cases hstripe : s.index key = i
    · exact absurd (by rw [hstripe, hold_leave_self]) hkey
    · exact hsees key (by rwa [t.hold_leave_of_ne hstripe] at hkey)
  | @write c batch hwrites hheld =>
    intro key hkey
    rw [view, wrote, Contents.applyAll_append]
    exact Contents.applyAll_congr batch (hsees key hkey)

/-- A turn adds to what was written what its effect writes. -/
theorem written_eq (h : Change n s t m q t' m') :
    t'.written.map (n, ·) = t.written.map (n, ·) ++ q.writes := by
  cases h with
  | idle hwrites => rw [hwrites, List.append_nil]
  | write hwrites => rw [wrote, List.map_append, ← hwrites]; rfl
  | _ => exact (List.append_nil _).symm

/-- A turn adds to the stripes that were entered the one that it enters. -/
theorem entered_eq (h : Change n s t m q t' m') : t'.entered = q.entered?.toList ++ t.entered := by
  cases h with
  | idle _ hentered => rw [hentered]; rfl
  | _ => rfl

end Change

/-! ## Locks -/

/-- Where work with a posture stands with a stripe. -/
def placeAt (t : Posture) (i : Nat) : Call.Place :=
  match t.hold i with
  | some hold => .inside hold none
  | none => if t.announced = some i then .announced else .outside

/-- The place at a stripe tells the hold there. -/
theorem hold?_placeAt (t : Posture) (i : Nat) : (t.placeAt i).hold? = t.hold i := by
  unfold placeAt
  cases t.hold i with
  | some hold => rfl
  | none => dsimp only; split <;> rfl

/-- Who holds a stripe is inside. -/
theorem placeAt_of_held (h : t.hold i = some hold) : t.placeAt i = .inside hold none := by
  rw [placeAt, h]

/-- Who neither holds nor awaits a stripe is outside. -/
theorem placeAt_of_outside (hfree : t.hold i = none) (hannounced : t.announced ≠ some i) :
    t.placeAt i = .outside := by
  rw [placeAt, hfree]
  exact if_neg hannounced

/-- Who awaits a stripe is announced there. -/
theorem placeAt_of_announced (hfree : t.hold i = none) (hannounced : t.announced = some i) :
    t.placeAt i = .announced := by
  rw [placeAt, hfree]
  exact if_pos hannounced

/-- At a stripe, only the hold of the stripe and an announcement there matter. -/
theorem placeAt_congr (hhold : t'.hold i = t.hold i)
    (hannounced : t'.announced = some i ↔ t.announced = some i) : t'.placeAt i = t.placeAt i := by
  simp only [placeAt, hhold, hannounced]

/-- One effect of work, where others are at the stripes too: from a posture, a backend and the
contents of its column to those after the effect. -/
structure Moves (n : Nat) (s : Striping) (ps : Nat → List Call.Place) (q : Effect) (t : Posture)
    (b : Backend) (m : Contents) (t' : Posture) (b' : Backend) (m' : Contents) : Prop where
  /-- The backend works, and the column holds the new contents. -/
  shows : b'.Shows n m'
  /-- There are as many locks as before. -/
  length_eq : b'.stripes.length = b.stripes.length
  /-- They know where the work is now. -/
  locks : ∀ i, (b'.stripes.lock i).Knows (t'.placeAt i :: ps i)
  /-- What changed. -/
  change : Change n s t m q t' m'

variable {ps : Nat → List Call.Place} {b b' : Backend}

/-- An effect on one lock. -/
theorem Moves.locking {l : StampedLock} (hshows : b.Shows n m) (hi : i < b.stripes.length)
    (hlocks : ∀ j, (b.stripes.lock j).Knows (t.placeAt j :: ps j))
    (hlock : l.Knows (t'.placeAt i :: ps i)) (hothers : ∀ j ≠ i, t'.placeAt j = t.placeAt j)
    (hchange : Change n s t m q t' m) : Moves n s ps q t b m t' (b.setLock i l) m where
  shows := hshows.of_engine rfl
  length_eq := List.length_set
  locks j := by
    rw [Backend.setLock, Stripes.lock_set]
    by_cases hj : i = j
    · subst hj
      rw [if_pos ⟨rfl, hi⟩]
      exact hlock
    · rw [if_neg fun hand => hj hand.1, hothers j (Ne.symm hj)]
      exact hlocks j
  change := hchange

/-- **An effect within the rules is answered as they say**, and keeps what they rely on. -/
theorem Rule.moves {R : q.Answer → Posture → Prop} {a : q.Answer} (hrule : t.Rule n s q R)
    (hshows : b.Shows n m) (hlength : b.stripes.length = s.count)
    (hlocks : ∀ i, (b.stripes.lock i).Knows (t.placeAt i :: ps i)) (hsees : t.Sees s m)
    (hanswer : b.answer? q = some (a, b')) :
    ∃ t' m', R a t' ∧ Moves n s ps q t b m t' b' m' := by
  have hidle : ∀ {b' : Backend}, b'.Shows n m → b'.stripes = b.stripes → q.writes = [] →
      q.entered? = none → Moves n s ps q t b m t b' m := fun hb' hstripes hwrites hentered =>
    ⟨hb', congrArg _ hstripes, hstripes ▸ hlocks, .idle hwrites hentered⟩
  -- Reads change neither the contents nor a stripe, writes only the contents, and the others only
  -- their stripe.
  cases hrule with
  | resolve =>
    obtain ⟨rfl, rfl⟩ := Prod.mk.inj (Option.some.inj hanswer)
    exact ⟨t, m, ⟨rfl, rfl⟩, hidle hshows rfl rfl rfl⟩
  | consult f current =>
    obtain ⟨rfl, rfl⟩ := Prod.mk.inj (Option.some.inj hanswer)
    exact ⟨t, m, ⟨rfl, rfl⟩, hidle hshows rfl rfl rfl⟩
  | @probe key hheld =>
    rw [hshows.reading fun _ => rfl] at hanswer
    obtain ⟨rfl, rfl⟩ := Prod.mk.inj (Option.some.inj hanswer)
    obtain ⟨possible, hmay, hno⟩ := hshows.mayContain_eq key
    exact ⟨t, m, ⟨⟨possible, hmay, fun h => (hsees key hheld).symm.trans (hno h)⟩, rfl⟩,
      hidle hshows rfl rfl rfl⟩
  | @fetch key hheld =>
    rw [hshows.reading fun _ => rfl] at hanswer
    obtain ⟨rfl, rfl⟩ := Prod.mk.inj (Option.some.inj hanswer)
    have hget := hshows.get_eq key
    rw [hsees key hheld] at hget
    exact ⟨t, m, ⟨hget, rfl⟩, hidle hshows rfl rfl rfl⟩
  | scan range =>
    obtain ⟨cursor, e, hscan, hcursor, hshows'⟩ := hshows.scan range
    obtain ⟨rfl, rfl⟩ := Prod.mk.inj (Option.some.inj (hscan.symm.trans hanswer))
    exact ⟨t, m, ⟨⟨cursor, rfl, hcursor⟩, rfl⟩, hidle hshows' rfl rfl rfl⟩
  | next hcursor =>
    obtain ⟨entry, cursor', hnext, hentry, hcursor'⟩ := hshows.next hcursor
    obtain ⟨rfl, rfl⟩ := Prod.mk.inj (Option.some.inj (hnext.symm.trans hanswer))
    exact ⟨t, m, ⟨⟨entry, cursor', rfl, hentry, hcursor'⟩, rfl⟩, hidle hshows rfl rfl rfl⟩
  | unpin sequence =>
    obtain ⟨rfl, rfl⟩ := Prod.mk.inj (Option.some.inj hanswer)
    exact ⟨t, m, rfl, hidle (hshows.unpin sequence) rfl rfl rfl⟩
  | @put key value hheld =>
    obtain ⟨e, hput, hshows'⟩ := hshows.put key value
    obtain ⟨rfl, rfl⟩ := Prod.mk.inj (Option.some.inj (hput.symm.trans hanswer))
    refine ⟨_, _, ⟨rfl, rfl⟩, hshows', rfl, hlocks, .write rfl ?_⟩
    rintro op hop k hk
    rw [List.mem_singleton.mp hop] at hk
    rw [of_decide_eq_true hk, hheld]
  | @delete key hheld =>
    obtain ⟨e, hdelete, hshows'⟩ := hshows.delete key
    obtain ⟨rfl, rfl⟩ := Prod.mk.inj (Option.some.inj (hdelete.symm.trans hanswer))
    refine ⟨_, _, ⟨rfl, rfl⟩, hshows', rfl, hlocks, .write rfl ?_⟩
    rintro op hop k hk
    rw [List.mem_singleton.mp hop] at hk
    rw [of_decide_eq_true hk, hheld]
  | write hne hheld =>
    obtain ⟨e, hwrite, hshows'⟩ := hshows.write hne
    obtain ⟨rfl, rfl⟩ := Prod.mk.inj (Option.some.inj (hwrite.symm.trans hanswer))
    exact ⟨_, _, ⟨rfl, rfl⟩, hshows', rfl, hlocks, .write rfl hheld⟩
  | @announce i hi hfree hannounced =>
    obtain ⟨rfl, rfl⟩ := Prod.mk.inj (Option.some.inj hanswer)
    have hlock := hlocks i
    rw [placeAt_of_outside hfree (by simp [hannounced])] at hlock
    refine ⟨_, m, rfl, .locking hshows (hlength ▸ hi) hlocks ?_ (fun j hj => ?_) (.announce i)⟩
    · rw [placeAt_of_announced (t := t.awaiting i) hfree rfl]
      exact hlock.announce
    · have hannounces : (t.awaiting i).announced = some j ↔ t.announced = some j := by
        simp [awaiting, hannounced, Ne.symm hj]
      exact placeAt_congr rfl hannounces
  | @enter hold i hi hfree hannounced hwritten =>
    obtain ⟨l, hl, hback⟩ := Option.map_eq_some_iff.mp hanswer
    obtain ⟨rfl, rfl⟩ := Prod.mk.inj hback
    have hlock := hlocks i
    refine ⟨_, m, ⟨m, rfl⟩, .locking hshows (hlength ▸ hi) hlocks ?_ (fun j hj => ?_)
      (.enter hold hi hfree hwritten)⟩
    · rw [placeAt_of_held (t.hold_enter_self s hold m)]
      cases hold with
      | shared =>
        rw [placeAt_of_outside hfree (by simp [hannounced])] at hlock
        exact hlock.enter_shared hl none
      | exclusive =>
        rw [placeAt_of_announced hfree hannounced] at hlock
        exact hlock.enter_exclusive hl none
    · refine placeAt_congr (t.hold_enter_of_ne s hold m hj) ?_
      cases hold <;> simp [Posture.enter, hannounced, Ne.symm hj]
  | @upgrade i hi hheld =>
    have hlock := hlocks i
    rw [placeAt_of_held hheld] at hlock
    simp only [Backend.answer?] at hanswer
    cases hl : (b.stripes.lock i).upgrade? with
    | some l =>
      rw [hl] at hanswer
      obtain ⟨rfl, rfl⟩ := Prod.mk.inj (Option.some.inj hanswer)
      refine ⟨_, m, rfl, .locking hshows (hlength ▸ hi) hlocks ?_ (fun j hj => ?_) (.upgrade hheld)⟩
      · rw [if_pos rfl, placeAt_of_held t.hold_upgraded_self]
        exact hlock.upgrade hl
      · exact placeAt_congr (t.hold_upgraded_of_ne hj) Iff.rfl
    | none =>
      rw [hl] at hanswer
      obtain ⟨rfl, rfl⟩ := Prod.mk.inj (Option.some.inj hanswer)
      exact ⟨t, m, rfl, hidle hshows rfl rfl rfl⟩
  | @leave hold i hi hheld hannounced =>
    obtain ⟨rfl, rfl⟩ := Prod.mk.inj (Option.some.inj hanswer)
    have hlock := hlocks i
    rw [placeAt_of_held hheld] at hlock
    refine ⟨_, m, rfl, .locking hshows (hlength ▸ hi) hlocks ?_ (fun j hj => ?_) (.leave hheld)⟩
    · rw [placeAt_of_outside t.hold_leave_self (by simp [Posture.leave, hannounced])]
      exact hlock.leave rfl rfl rfl
    · exact placeAt_congr (t.hold_leave_of_ne hj) Iff.rfl

end Posture

/-! ## The invariant -/

/-- Work under way: its task, its posture, and what is left of it. -/
structure Tenant (κ α : Type) where
  /-- The task. -/
  task : κ
  /-- The posture. -/
  posture : Posture
  /-- What is left of the work. -/
  rest : Work Empty α

namespace Tenant

variable {κ α : Type} {ks : List (Tenant κ α)} {k : Tenant κ α} {i : Nat}

/-- Where tenants stand with a stripe. -/
def places (ks : List (Tenant κ α)) (l : Nat) : List Call.Place := ks.map (·.posture.placeAt l)

/-- Among the places at a stripe is that of each tenant. -/
theorem places_perm (hk : ks[i]? = some k) (l : Nat) :
    (places ks l).Perm (k.posture.placeAt l :: places (ks.eraseIdx i) l) := by
  obtain ⟨hlt, rfl⟩ := List.getElem?_eq_some_iff.mp hk
  exact ((List.getElem_cons_eraseIdx_perm hlt).map (·.posture.placeAt l)).symm

/-- A turn changes the place of one tenant. -/
theorem places_set_perm (hi : i < ks.length) (k : Tenant κ α) (l : Nat) :
    (places (ks.set i k) l).Perm (k.posture.placeAt l :: places (ks.eraseIdx i) l) :=
  List.Perm.map (fun k : Tenant κ α => k.posture.placeAt l) (List.set_perm_cons_eraseIdx hi k)

/-- At first the tenants have the tasks that they were given. -/
theorem map_task_blank (tasks : List κ) (m : Contents) (work : κ → Work Empty α) :
    (tasks.map fun c => (⟨c, .blank m, work c⟩ : Tenant κ α)).map (·.task) = tasks := by
  rw [List.map_map]
  exact List.map_id _

/-- A tenant keeps its task. -/
theorem map_task_set (hk : ks[i]? = some k) (t : Posture) (rest : Work Empty α) :
    (ks.set i ⟨k.task, t, rest⟩).map (·.task) = ks.map (·.task) := by
  obtain ⟨hi, rfl⟩ := List.getElem?_eq_some_iff.mp hk
  rw [List.map_set]
  refine List.ext_getElem? fun j => ?_
  by_cases hij : i = j
  · subst hij
    simp [hi]
  · rw [List.getElem?_set_ne hij]

end Tenant

namespace Workshop

variable {κ α : Type}

/-- The operations that a work asked to have written so far, oldest first, each with its column. -/
def writtenBy (x : Workshop α) (i : Nat) : List (Nat × WriteOp) :=
  x.log.reverse.flatMap fun e => if e.1 = i then e.2.writes else []

/-- The stripes that a work went into so far, newest first. -/
def enteredBy (x : Workshop α) (i : Nat) : List Nat :=
  x.log.filterMap fun e => if e.1 = i then e.2.entered? else none

/-- A turn adds its writes to those of its tenant. -/
theorem writtenBy_cons (x : Workshop α) (b : Backend) (works : List (Work Empty α)) (i : Nat)
    (q : Effect) (j : Nat) : writtenBy ⟨b, works, (i, q) :: x.log⟩ j
      = x.writtenBy j ++ if i = j then q.writes else [] := by
  unfold writtenBy
  rw [List.reverse_cons, List.flatMap_append, List.flatMap_singleton]

/-- A turn adds the stripe that it enters to those of its tenant. -/
theorem enteredBy_cons (x : Workshop α) (b : Backend) (works : List (Work Empty α)) (i : Nat)
    (q : Effect) (j : Nat) : enteredBy ⟨b, works, (i, q) :: x.log⟩ j
      = if i = j then q.entered?.toList ++ x.enteredBy j else x.enteredBy j := by
  unfold enteredBy
  by_cases hi : i = j
  · rw [if_pos hi]
    cases hq : q.entered? with
    | none => rw [List.filterMap_cons_none (by simp [hi, hq])]; rfl
    | some l => rw [List.filterMap_cons_some (by simpa [hi] using hq)]; rfl
  · rw [if_neg hi]
    exact List.filterMap_cons_none (if_neg hi)

/-- What a column holds. -/
def stored (x : Workshop α) (n : Nat) : Contents := x.backend.engine.engine.newest n

/-- A schedule is run piece by piece. -/
theorem run_append (x : Workshop α) (before after : List Nat) :
    x.run (before ++ after) = (x.run before).run after := List.foldl_append

/-- The last turn comes after all others. -/
theorem run_concat (x : Workshop α) (schedule : List Nat) (i : Nat) :
    x.run (schedule ++ [i]) = (x.run schedule).turn i := List.foldl_concat ..

/-- Who has an outcome has ended with it. -/
theorem EndsWith.finish {x : Workshop α} {outcomes : List (Outcome α)} (h : x.EndsWith outcomes)
    {i : Nat} {r : Outcome α} (hr : outcomes[i]? = some r) : x.works[i]? = some (.finish r) := by
  have hi : (x.works.map Work.outcome?)[i]? = some (some r) := by
    rw [h, List.getElem?_map, hr]
    rfl
  rw [List.getElem?_map, Option.map_eq_some_iff] at hi
  obtain ⟨w, hw, hended⟩ := hi
  rw [hw, Work.outcome?_eq_some.mp hended]

/-- A workshop in which tenants are under way, each with the property that its task asks of its
postures and of its end, and the present contents of the dictionary. -/
structure Hosts (n : Nat) (s : Striping) (I : κ → Posture → Prop)
    (Q : κ → Outcome α → Posture → Prop) (x : Workshop α) (ks : List (Tenant κ α)) (m : Contents) :
    Prop where
  /-- Every work is what is left for its tenant. -/
  works_eq : x.works = ks.map (·.rest)
  /-- The tenants keep to the rules. -/
  minds : ∀ k ∈ ks, k.rest.Minds n s (I k.task) (Q k.task) k.posture
  /-- Their postures have the property that their tasks ask for. -/
  manners : ∀ k ∈ ks, I k.task k.posture
  /-- The dictionary has its contents. -/
  shows : x.backend.Shows n m
  /-- There is a lock for every stripe. -/
  length_eq : x.backend.stripes.length = s.count
  /-- Every lock knows the tenants. -/
  locks : ∀ l, (x.backend.stripes.lock l).Knows (Tenant.places ks l)
  /-- What a tenant takes its keys to hold is what they hold. -/
  sees : ∀ k ∈ ks, k.posture.Sees s m
  /-- What a tenant wrote is in the log. -/
  written_eq : ∀ i k, ks[i]? = some k → x.writtenBy i = k.posture.written.map (n, ·)
  /-- So are the stripes that it went into. -/
  entered_eq : ∀ i k, ks[i]? = some k → x.enteredBy i = k.posture.entered

namespace Hosts

variable {n : Nat} {s : Striping} {I : κ → Posture → Prop} {Q : κ → Outcome α → Posture → Prop}
  {x : Workshop α} {ks : List (Tenant κ α)} {m m' : Contents} {i j : Nat} {k k' : Tenant κ α}

/-- Whoever holds a stripe alone is alone there. -/
theorem alone (h : Hosts n s I Q x ks m) (hk : ks[i]? = some k) (hk' : ks[j]? = some k')
    (hij : j ≠ i) {l : Nat} (hhold : k.posture.hold l = some .exclusive) :
    k'.posture.hold l = none := by
  have hlock := (h.locks l).perm (Tenant.places_perm hk l)
  have hmem : k'.posture.placeAt l ∈ Tenant.places (ks.eraseIdx i) l :=
    List.mem_map_of_mem (List.mem_eraseIdx_iff_getElem?.mpr ⟨j, hij, hk'⟩)
  rw [← Posture.hold?_placeAt]
  exact hlock.nobody ((k.posture.hold?_placeAt l).trans hhold) _ hmem

/-- What ended has the property that its task asks for. -/
theorem ended (h : Hosts n s I Q x ks m) (hk : ks[i]? = some k) {r : Outcome α}
    (hended : x.works[i]? = some (.finish r)) : Q k.task r k.posture := by
  have hminds := h.minds k (List.mem_of_getElem? hk)
  rw [h.works_eq, List.getElem?_map, hk, Option.map_some, Option.some.injEq] at hended
  rwa [hended] at hminds

/-- A task that has ended has a tenant with the property that it asks for. -/
theorem exists_ended (h : Hosts n s I Q x ks m) {c : κ} {r : Outcome α}
    (hc : (ks.map (·.task))[i]? = some c) (hr : x.works[i]? = some (.finish r)) :
    ∃ k, ks[i]? = some k ∧ k.task = c ∧ Q c r k.posture := by
  rw [List.getElem?_map, Option.map_eq_some_iff] at hc
  obtain ⟨k, hk, rfl⟩ := hc
  exact ⟨k, hk, rfl, h.ended hk hr⟩

/-- What the engine stores are the contents. -/
theorem stored_eq (h : Hosts n s I Q x ks m) : x.stored n = m := funext h.shows.newest_eq

/-- The work of a tenant is what it has left. -/
theorem work_eq (h : Hosts n s I Q x ks m) (hk : ks[i]? = some k) :
    x.works[i]? = some k.rest := by
  rw [h.works_eq, List.getElem?_map, hk]
  rfl

/-- All work has its tenant. -/
theorem exists_tenant (h : Hosts n s I Q x ks m) {w : Work Empty α} (hwork : x.works[i]? = some w) :
    ∃ k, ks[i]? = some k ∧ k.rest = w := by
  rw [h.works_eq, List.getElem?_map, Option.map_eq_some_iff] at hwork
  exact hwork

/-- Whoever takes a turn keeps the property that its task asks for. -/
theorem manners_set {t : Posture} {rest : Work Empty α}
    (h : Hosts n s I Q x (ks.set i ⟨k.task, t, rest⟩) m) (hk : ks[i]? = some k) : I k.task t :=
  h.manners ⟨k.task, t, rest⟩ (List.mem_of_getElem? (List.getElem?_set_of_eq_some hk))

/-- What others found in their stripes stays true. -/
private theorem sees_set (h : Hosts n s I Q x ks m) (hk : ks[i]? = some k) {q : Effect}
    {t' : Posture} (hchange : k.posture.Change n s m q t' m') (rest : Work Empty α) :
    ∀ k' ∈ ks.set i ⟨k.task, t', rest⟩, k'.posture.Sees s m' := by
  intro k' hk'
  obtain ⟨j, hj⟩ := List.mem_iff_getElem?.mp hk'
  obtain ⟨rfl, rfl⟩ | ⟨hij, hj⟩ := List.getElem?_set_cases hk hj
  · exact hchange.sees (h.sees k (List.mem_of_getElem? hk))
  · intro key hkey
    rw [hchange.frame fun hhold => hkey (h.alone hk hj hij hhold)]
    exact h.sees k' (List.mem_of_getElem? hj) key hkey

/-- One turn changes the posture of one tenant. -/
theorem turn (h : Hosts n s I Q x ks m) (i : Nat) :
    x.turn i = x ∨ ∃ (k : Tenant κ α) (q : Effect) (next : q.Answer → Work Empty α) (t' : Posture)
      (rest : Work Empty α) (m' : Contents), ks[i]? = some k ∧ k.rest = .perform q next ∧
      k.posture.Change n s m q t' m' ∧
      Hosts n s I Q (x.turn i) (ks.set i ⟨k.task, t', rest⟩) m' := by
  obtain hidle | ⟨q, next, a, b', hwork, hanswer, hturn⟩ := x.turn_cases i
  · exact .inl hidle
  obtain ⟨k, hk, hrest⟩ := h.exists_tenant hwork
  have hmem : k ∈ ks := List.mem_of_getElem? hk
  have hi : i < ks.length := (List.getElem?_eq_some_iff.mp hk).1
  -- The rules allow the effect, and say what follows from its answer.
  have hminds := h.minds k hmem
  rw [hrest] at hminds
  obtain ⟨R, hrule, hnext⟩ := hminds
  obtain ⟨t', m', ha, hmoves⟩ := hrule.moves h.shows h.length_eq
    (fun l => (h.locks l).perm (Tenant.places_perm hk l)) (h.sees k hmem) hanswer
  obtain ⟨hmanners, hminds⟩ := hnext a t' ha
  have hset : ∀ {P : Tenant κ α → Prop}, P ⟨k.task, t', next a⟩ → (∀ k ∈ ks, P k) →
      ∀ k' ∈ ks.set i ⟨k.task, t', next a⟩, P k' := by
    intro P hself hothers k' hk'
    obtain hk' | rfl := List.mem_or_eq_of_mem_set hk'
    · exact hothers k' hk'
    · exact hself
  have hlog : ∀ {P : Nat → Tenant κ α → Prop}, P i ⟨k.task, t', next a⟩ →
      (∀ j k', i ≠ j → ks[j]? = some k' → P j k') →
      ∀ j k', (ks.set i ⟨k.task, t', next a⟩)[j]? = some k' → P j k' := by
    intro P hself hothers j k' hk'
    obtain ⟨rfl, rfl⟩ | ⟨hij, hk'⟩ := List.getElem?_set_cases hk hk'
    · exact hself
    · exact hothers j k' (Ne.symm hij) hk'
  refine .inr ⟨k, q, next, t', next a, m', hk, hrest, hmoves.change, ?_⟩
  rw [hturn]
  exact
    { works_eq := by
        rw [List.map_set, ← h.works_eq]
      minds := hset hminds h.minds
      manners := hset hmanners h.manners
      shows := hmoves.shows
      length_eq := hmoves.length_eq.trans h.length_eq
      locks := fun l => (hmoves.locks l).perm
        (Tenant.places_set_perm hi ⟨k.task, t', next a⟩ l).symm
      sees := h.sees_set hk hmoves.change (next a)
      written_eq := by
        refine hlog ?_ fun j k' hij hk' => ?_
        · rw [writtenBy_cons, if_pos rfl, h.written_eq i k hk, hmoves.change.written_eq]
        · rw [writtenBy_cons, if_neg hij, List.append_nil, h.written_eq j k' hk']
      entered_eq := by
        refine hlog ?_ fun j k' hij hk' => ?_
        · rw [enteredBy_cons, if_pos rfl, h.entered_eq i k hk, hmoves.change.entered_eq]
        · rw [enteredBy_cons, if_neg hij, h.entered_eq j k' hk'] }

/-- Nothing has happened yet. -/
theorem start {b : Backend} {w : World} (hb : b.IsIn w) (hn : w.HasColumn n)
    (hstripes : b.stripes = .idle s) {work : κ → Work Empty α} {tasks : List κ}
    (hmanners : ∀ c ∈ tasks, I c (.blank (w.now n)))
    (hminds : ∀ c ∈ tasks, (work c).Minds n s (I c) (Q c) (.blank (w.now n))) :
    Hosts n s I Q (start b (tasks.map work))
      (tasks.map fun c => ⟨c, .blank (w.now n), work c⟩) (w.now n) := by
  have hlog : ∀ {P : Tenant κ α → Prop}, (∀ c ∈ tasks, P ⟨c, .blank (w.now n), work c⟩) →
      ∀ k ∈ tasks.map fun c => (⟨c, .blank (w.now n), work c⟩ : Tenant κ α), P k := by
    intro P hP k hk
    obtain ⟨c, hc, rfl⟩ := List.mem_map.mp hk
    exact hP c hc
  exact
    { works_eq := by simp [Workshop.start]
      minds := hlog hminds
      manners := hlog hmanners
      shows := ⟨w, hb, hn, rfl⟩
      length_eq := by
        rw [Workshop.start, hstripes]
        exact List.length_replicate
      locks := by
        intro l
        rw [Workshop.start, hstripes, Stripes.areIdle_idle s l]
        refine .idle fun p hp => ?_
        obtain ⟨k, hk, rfl⟩ := List.mem_map.mp hp
        exact hlog (P := fun k => k.posture.placeAt l = .outside) (fun _ _ => rfl) k hk
      sees := hlog fun _ _ key hkey => absurd rfl hkey
      written_eq := fun i k hk =>
        hlog (P := fun k => [] = k.posture.written.map (n, ·)) (fun _ _ => rfl) k
          (List.mem_of_getElem? hk)
      entered_eq := fun i k hk =>
        hlog (P := fun k => [] = k.posture.entered) (fun _ _ => rfl) k (List.mem_of_getElem? hk) }

/-- Every run keeps to the invariant, and to what its turns give each tenant and do not take away
from the others. -/
theorem run_tenants (h : Hosts n s I Q x ks m) {P : List Nat → Nat → Tenant κ α → Prop}
    (hstart : ∀ i k, ks[i]? = some k → P [] i k)
    (hlater : ∀ schedule i j k, P schedule j k → P (schedule ++ [i]) j k)
    (hturn : ∀ schedule i ks₁ m₁ k q next t' rest m', ks₁.map (·.task) = ks.map (·.task) →
      Hosts n s I Q (x.run schedule) ks₁ m₁ → ks₁[i]? = some k → k.rest = .perform q next →
      P schedule i k → k.posture.Change n s m₁ q t' m' →
      Hosts n s I Q (x.run (schedule ++ [i])) (ks₁.set i ⟨k.task, t', rest⟩) m' →
      P (schedule ++ [i]) i ⟨k.task, t', rest⟩) (schedule : List Nat) :
    ∃ ks' m', ks'.map (·.task) = ks.map (·.task) ∧ Hosts n s I Q (x.run schedule) ks' m' ∧
      ∀ i k, ks'[i]? = some k → P schedule i k := by
  induction schedule using List.reverseRecOn with
  | nil => exact ⟨ks, m, rfl, h, hstart⟩
  | append_singleton schedule i ih =>
    obtain ⟨ks₁, m₁, htasks, h₁, hP⟩ := ih
    -- A turn of nobody changes nothing; otherwise one tenant has moved, and the others are as
    -- before.
    obtain hidle | ⟨k, q, next, t', rest, m', hk, hrest, hchange, h'⟩ := h₁.turn i
    · rw [run_concat, hidle]
      exact ⟨ks₁, m₁, htasks, h₁, fun j k hk => hlater schedule i j k (hP j k hk)⟩
    rw [← run_concat] at h'
    refine ⟨_, m', (Tenant.map_task_set hk t' rest).trans htasks, h', fun j k' hk' => ?_⟩
    obtain ⟨rfl, rfl⟩ | ⟨-, hk'⟩ := List.getElem?_set_cases hk hk'
    · exact hturn schedule j ks₁ m₁ k q next t' rest m' htasks h₁ hk hrest (hP j k hk) hchange h'
    · exact hlater schedule i j k' (hP j k' hk')

/-- Every run keeps to the invariant. -/
theorem run (h : Hosts n s I Q x ks m) (schedule : List Nat) :
    ∃ ks' m', ks'.map (·.task) = ks.map (·.task) ∧ Hosts n s I Q (x.run schedule) ks' m' := by
  obtain ⟨ks', m', htasks, h', -⟩ := h.run_tenants (P := fun _ _ _ => True)
    (fun _ _ _ => trivial) (fun _ _ _ _ _ => trivial) (fun _ _ _ _ _ _ _ _ _ _ _ _ _ _ _ _ _ =>
      trivial) schedule
  exact ⟨ks', m', htasks, h'⟩

end Hosts

end Workshop

end SnapshotStore
