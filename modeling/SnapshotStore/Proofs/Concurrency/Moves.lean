import SnapshotStore.Proofs.Concurrency.Protocol
import SnapshotStore.Proofs.Engine.Evolution

/-!
# What one effect of a call does

A backend shows some contents in a column if it works and these are its newest contents
(`Backend.Shows`).  A lock knows the calls at it: it counts those that read, write and wait to
write, and there is no reader beside a writer (`StampedLock.Knows`).

If both hold, an effect that the rules allow a call is answered as the rules say, and both hold
again (`Call.Rule.moves`).  The contents change by a write alone, and then no other call is in the
stripe.  A call has its result from the moment on at which it has its effect on the contents.
-/

namespace SnapshotStore

namespace Call.Place

/-- How a call holds the stripe, if it does. -/
def hold? : Place → Option Hold
  | inside hold _ => some hold
  | written _ => some .exclusive
  | _ => none

/-- Whether a call waits to write. -/
def isAnnounced : Place → Bool
  | announced => true
  | _ => false

/-- The result of a call, as soon as it is settled. -/
def result? : Place → Option (Outcome Answer)
  | written r | left r => some r
  | _ => none

/-- What a call takes its key to hold is what it holds. -/
def Sees (v : Option Bytes) : Place → Prop
  | inside _ v' => v = v'
  | _ => True

/-- A call that is not in the stripe takes its key to hold nothing in particular. -/
theorem sees_of_out {p : Place} (h : p.hold? = none) (v : Option Bytes) : p.Sees v := by
  cases p with
  | inside hold v' => cases h
  | _ => trivial

/-- A call that is in the stripe does not wait for it. -/
theorem isAnnounced_of_hold {p : Place} {hold : Hold} (h : p.hold? = some hold) :
    p.isAnnounced = false := by
  cases p with
  | announced => cases h
  | _ => rfl

end Call.Place

open Call

/-! ## Locks -/

namespace StampedLock

variable {l l' : StampedLock}

/-- What a lock becomes when a reader is let in. -/
theorem enter?_shared (h : l.enter? .shared = some l') :
    l.hasWriter = false ∧ l.waiting = 0 ∧ l' = { l with readers := l.readers + 1 } := by
  simp only [enter?, admitsReader, Option.ite_none_right_eq_some, Bool.and_eq_true,
    Bool.not_eq_true', decide_eq_true_eq, Option.some.injEq] at h
  exact ⟨h.1.1, h.1.2, h.2.symm⟩

/-- What a lock becomes when a writer is let in. -/
theorem enter?_exclusive (h : l.enter? .exclusive = some l') :
    l.hasWriter = false ∧ l.readers = 0 ∧
      l' = { l with hasWriter := true, waiting := l.waiting - 1 } := by
  simp only [enter?, admitsWriter, Option.ite_none_right_eq_some, Bool.and_eq_true,
    Bool.not_eq_true', decide_eq_true_eq, Option.some.injEq] at h
  exact ⟨h.1.1, h.1.2, h.2.symm⟩

/-- What a lock becomes when its only reader becomes the writer. -/
theorem upgrade?_some (h : l.upgrade? = some l') :
    l.readers = 1 ∧ l.hasWriter = false ∧ l' = { l with readers := 0, hasWriter := true } := by
  simp only [upgrade?, Option.ite_none_right_eq_some, Bool.and_eq_true, Bool.not_eq_true',
    decide_eq_true_eq, Option.some.injEq] at h
  exact ⟨h.1.1, h.1.2, h.2.symm⟩

/-- A lock counts the calls at it, and lets no reader be beside a writer. -/
structure Knows (l : StampedLock) (ps : List Place) : Prop where
  /-- The readers are counted. -/
  readers : l.readers = ps.countP (·.hold? = some .shared)
  /-- So is the writer. -/
  writers : l.hasWriter.toNat = ps.countP (·.hold? = some .exclusive)
  /-- And so are those that wait to write. -/
  waiting : l.waiting = ps.countP (·.isAnnounced)
  /-- A writer is alone. -/
  alone : l.hasWriter = true → l.readers = 0

namespace Knows

variable {p p' : Place} {ps ps' : List Place} {hold : Hold}

/-- A lock at which nothing happened yet. -/
theorem idle (h : ∀ p ∈ ps, p = .outside) : StampedLock.idle.Knows ps := by
  have hzero : ∀ f : Place → Bool, f .outside = false → 0 = ps.countP f := fun f hf =>
    (List.countP_eq_zero.mpr fun p hp => by rw [h p hp, hf]; exact Bool.false_ne_true).symm
  exact ⟨hzero _ rfl, hzero _ rfl, hzero _ rfl, nofun⟩

/-- A lock does not know the threads by their order. -/
theorem perm (h : l.Knows ps) (hps : ps.Perm ps') : l.Knows ps' :=
  ⟨h.readers.trans (hps.countP_eq _), h.writers.trans (hps.countP_eq _),
    h.waiting.trans (hps.countP_eq _), h.alone⟩

/-- A call that is neither in the stripe nor waits for it does not count. -/
theorem swap (h : l.Knows (p :: ps)) (hhold : p'.hold? = p.hold?)
    (hannounced : p'.isAnnounced = p.isAnnounced) : l.Knows (p' :: ps) := by
  obtain ⟨hr, hw, hwait, halone⟩ := h
  rw [List.countP_cons, ← hhold] at hr hw
  rw [List.countP_cons, ← hannounced] at hwait
  exact ⟨hr.trans List.countP_cons.symm, hw.trans List.countP_cons.symm,
    hwait.trans List.countP_cons.symm, halone⟩

/-- Beside a writer there is nobody. -/
theorem nobody (h : l.Knows (p :: ps)) (hp : p.hold? = some .exclusive) :
    ∀ p' ∈ ps, p'.hold? = none := by
  have hw := h.writers
  have hr := h.readers
  rw [List.countP_cons, hp] at hw hr
  -- There is room for one writer, which is this one, and beside it none for readers.
  have hone : l.hasWriter.toNat ≤ 1 := Bool.toNat_le _
  have hwriter : l.hasWriter = true := by
    cases hl : l.hasWriter with
    | true => rfl
    | false => simp [hl] at hw
  rw [h.alone hwriter] at hr
  have hno : ps.countP (·.hold? = some .shared) = 0 ∧
      ps.countP (·.hold? = some .exclusive) = 0 := by
    simp at hw hr
    omega
  intro p' hp'
  have hs := List.countP_eq_zero.mp hno.1 p' hp'
  have he := List.countP_eq_zero.mp hno.2 p' hp'
  cases hhold : p'.hold? with
  | none => rfl
  | some hold => cases hold <;> simp [hhold] at hs he

/-- A writer announces itself. -/
theorem announce (h : l.Knows (.outside :: ps)) : l.announce.Knows (.announced :: ps) := by
  obtain ⟨hr, hw, hwait, halone⟩ := h
  refine ⟨hr, hw, ?_, halone⟩
  rw [List.countP_cons] at hwait ⊢
  exact congrArg (· + 1) hwait

/-- A reader goes in. -/
theorem enter_shared (h : l.Knows (.outside :: ps)) (hl : l.enter? .shared = some l')
    (v : Option Bytes) : l'.Knows (.inside .shared v :: ps) := by
  obtain ⟨hwriter, -, rfl⟩ := enter?_shared hl
  obtain ⟨hr, hw, hwait, -⟩ := h
  refine ⟨?_, hw, hwait, fun hwriter' => ?_⟩
  · rw [List.countP_cons] at hr ⊢
    exact congrArg (· + 1) hr
  · cases hwriter.symm.trans hwriter'

/-- An announced writer goes in. -/
theorem enter_exclusive (h : l.Knows (.announced :: ps)) (hl : l.enter? .exclusive = some l')
    (v : Option Bytes) : l'.Knows (.inside .exclusive v :: ps) := by
  obtain ⟨hwriter, hreaders, rfl⟩ := enter?_exclusive hl
  obtain ⟨hr, hw, hwait, -⟩ := h
  rw [List.countP_cons] at hw hwait
  refine ⟨hr, ?_, ?_, fun _ => hreaders⟩
  · rw [List.countP_cons]
    rw [hwriter] at hw
    exact congrArg (· + 1) hw
  · rw [List.countP_cons]
    exact congrArg (· - 1) hwait

/-- The only reader becomes the writer. -/
theorem upgrade {v : Option Bytes} (h : l.Knows (.inside .shared v :: ps))
    (hl : l.upgrade? = some l') : l'.Knows (.inside .exclusive v :: ps) := by
  obtain ⟨hreaders, hwriter, rfl⟩ := upgrade?_some hl
  obtain ⟨hr, hw, hwait, -⟩ := h
  rw [List.countP_cons] at hr hw
  refine ⟨?_, ?_, hwait, fun _ => rfl⟩
  · rw [List.countP_cons]
    rw [hreaders] at hr
    exact Nat.succ.inj hr
  · rw [List.countP_cons]
    rw [hwriter] at hw
    exact congrArg (· + 1) hw

/-- A call goes out. -/
theorem leave (h : l.Knows (p :: ps)) (hp : p.hold? = some hold) (hp' : p'.hold? = none)
    (hannounced : p'.isAnnounced = false) : (l.release hold).Knows (p' :: ps) := by
  -- Who is in was let in, so it is not announced any more.
  have hwaits : p.isAnnounced = false := Place.isAnnounced_of_hold hp
  obtain ⟨hr, hw, hwait, halone⟩ := h
  rw [List.countP_cons, hp] at hr hw
  rw [List.countP_cons, hwaits, ← hannounced] at hwait
  have hwaiting : ∀ hold, (l.release hold).waiting = (p' :: ps).countP (·.isAnnounced) := by
    intro hold
    rw [List.countP_cons]
    cases hold <;> exact hwait
  cases hold with
  | shared =>
    refine ⟨?_, ?_, hwaiting _, fun hwriter => ?_⟩
    · rw [List.countP_cons, hp']
      exact congrArg (· - 1) hr
    · rw [List.countP_cons, hp']
      exact hw
    · exact congrArg (· - 1) (halone hwriter)
  | exclusive =>
    have hone : l.hasWriter.toNat ≤ 1 := Bool.toNat_le _
    refine ⟨?_, ?_, hwaiting _, nofun⟩
    · rw [List.countP_cons, hp']
      exact hr
    · rw [List.countP_cons, hp']
      rw [hw] at hone
      exact (Nat.le_zero.mp (Nat.le_of_succ_le_succ hone)).symm

end Knows

end StampedLock

/-! ## Contents -/

namespace Backend

variable {b b' : Backend} {n : Nat} {m : Contents} {key : Bytes}

/-- The backend works, and a column holds some contents. -/
def Shows (b : Backend) (n : Nat) (m : Contents) : Prop :=
  ∃ w, b.IsIn w ∧ w.HasColumn n ∧ w.now n = m

namespace Shows

/-- Only the engine matters. -/
theorem of_engine (h : b.Shows n m) (hengine : b'.engine = b.engine) : b'.Shows n m := by
  obtain ⟨w, hb, hn, hm⟩ := h
  obtain ⟨engine, snapshots, stripes⟩ := b'
  obtain rfl : engine = b.engine := hengine
  exact ⟨_, (hb.with_snapshots snapshots).with_stripes stripes, hn, hm⟩

/-- A call that changes nothing in the engine changes nothing at all. -/
theorem reading (h : b.Shows n m) {c : EngineCall} (hc : ∀ e : Engine, (e.answer c).2 = e) :
    b.answer? (.ask c) = some ((b.engine.engine.answer c).1, b) := by
  obtain ⟨w, hb, -, -⟩ := h
  rw [Work.answer?_ask hb.engine_eq, hc, ← hb.engine_eq]

/-- The newest state reads as the contents say. -/
theorem get_eq (h : b.Shows n m) (key : Bytes) :
    b.engine.engine.get n .latest key = .ok (m key) := by
  obtain ⟨w, hb, hn, rfl⟩ := h
  have hread : w.CanRead .latest := trivial
  exact hb.get_eq hn hread key

/-- What is stored is the contents. -/
theorem newest_eq (h : b.Shows n m) (key : Bytes) : b.engine.engine.newest n key = m key := by
  rw [Engine.newest, h.get_eq key]
  rfl

/-- The filter answers, and says no only if there is nothing. -/
theorem mayContain_eq (h : b.Shows n m) (key : Bytes) :
    ∃ possible, b.engine.engine.mayContain n key = .ok possible ∧
      (possible = false → m key = none) := by
  have hget := h.get_eq key
  obtain ⟨w, hb, -, -⟩ := h
  cases hmay : b.engine.engine.mayContain n key with
  | error failure =>
    rw [Engine.get_of_mayContain_failed hmay] at hget
    cases hget
  | ok possible =>
    refine ⟨possible, rfl, fun hno => ?_⟩
    subst hno
    have hread : b.engine.engine.CanRead .latest := trivial
    rw [hb.covers.get_eq_none hmay hread] at hget
    exact (Except.ok.inj hget).symm

/-- A batch is committed. -/
theorem writing (h : b.Shows n m) {batch : WriteBatch} (hne : batch ≠ []) :
    ∃ e, b.engine.engine.writing (b.engine.engine.write n batch) = (.ok (), e) ∧
      Shows { b with engine := .reliable e } n (m.applyAll batch) := by
  obtain ⟨w, hb, hn, rfl⟩ := h
  have hok := Work.write_eq_ok hb hn hne
  have hin : Backend.IsIn { b with engine := .reliable (b.engine.engine.answer (.write n batch)).2 }
      { w with ledger := w.ledger.commit n batch } := hb.answer (.write n batch)
  rw [Work.commit_of_hasColumn hb.isOpen hn hne] at hin
  exact ⟨_, Prod.ext hok rfl, w.commit n batch, hin, hn, by rw [World.now_commit, if_pos rfl]⟩

/-- A batch that is written changes the contents as it says. -/
theorem write (h : b.Shows n m) {batch : WriteBatch} (hne : batch ≠ []) :
    ∃ e, b.answer? (.ask (.write n batch)) = some (.ok (), { b with engine := .reliable e }) ∧
      Shows { b with engine := .reliable e } n (m.applyAll batch) := by
  obtain ⟨e, hwrite, hshows⟩ := h.writing hne
  obtain ⟨w, hb, -, -⟩ := h
  have hanswer : b.engine.engine.answer (.write n batch) = (.ok (), e) := hwrite
  exact ⟨e, by rw [Work.answer?_ask hb.engine_eq, hanswer], hshows⟩

/-- So does a put. -/
theorem put (h : b.Shows n m) (key value : Bytes) :
    ∃ e, b.answer? (.ask (.put n key value)) = some (.ok (), { b with engine := .reliable e }) ∧
      Shows { b with engine := .reliable e } n (m.apply (.put key value)) := by
  obtain ⟨e, hwrite, hshows⟩ := h.writing (List.cons_ne_nil (.put key value) [])
  obtain ⟨w, hb, -, -⟩ := h
  have hanswer : b.engine.engine.answer (.put n key value) = (.ok (), e) := hwrite
  exact ⟨e, by rw [Work.answer?_ask hb.engine_eq, hanswer], hshows⟩

/-- So does a deletion. -/
theorem delete (h : b.Shows n m) (key : Bytes) :
    ∃ e, b.answer? (.ask (.delete n key)) = some (.ok (), { b with engine := .reliable e }) ∧
      Shows { b with engine := .reliable e } n (m.apply (.delete key)) := by
  obtain ⟨e, hwrite, hshows⟩ := h.writing (List.cons_ne_nil (.delete key) [])
  obtain ⟨w, hb, -, -⟩ := h
  have hanswer : b.engine.engine.answer (.delete n key) = (.ok (), e) := hwrite
  exact ⟨e, by rw [Work.answer?_ask hb.engine_eq, hanswer], hshows⟩

end Shows

end Backend

/-! ## Moves -/

/-- The value that an effect shows to an updater. -/
def Effect.shown? : Effect → Option (Option Bytes)
  | consult _ current => some current
  | _ => none

namespace Call

/-- One effect of a call at a stripe where also some others are: from a standing, a backend and the
contents of its column to those after the effect. -/
structure Moves (n i : Nat) (c : Call) (ps : List Place) (q : Effect) (t : Standing) (b : Backend)
    (m : Contents) (t' : Standing) (b' : Backend) (m' : Contents) : Prop where
  /-- The backend works, and the column holds the new contents. -/
  shows : b'.Shows n m'
  /-- Only the lock of the stripe changed, and it knows where the call is now. -/
  locks : ∃ l, b'.stripes = List.set b.stripes i l ∧ l.Knows (t'.place :: ps)
  /-- What the call takes its key to hold is what it holds. -/
  sees : t'.place.Sees (m' c.key)
  /-- The updater was shown what the effect showed it. -/
  shown : t'.shown = q.shown?.toList ++ t.shown
  /-- The contents changed only if nobody else is in the stripe. -/
  alone : m' = m ∨ ∀ p ∈ ps, p.hold? = none
  /-- Either nothing was settled, or the call had its effect on the contents. -/
  settles : t'.place.result? = t.place.result? ∧ m' = m ∨
    t.place.result? = none ∧ t'.place.result? = some (c.answer (m c.key)) ∧ m' = c.after m

namespace Moves

variable {n i : Nat} {c : Call} {ps : List Place} {q : Effect} {t t' : Standing} {b b' : Backend}
  {m : Contents}

/-- An effect that leaves the locks and the contents alone. -/
theorem quiet (hshows : b.Shows n m) (hlock : (b.stripes.lock i).Knows (t.place :: ps))
    (hsees : t.place.Sees (m c.key)) (hplace : t'.place = t.place)
    (hshown : t'.shown = q.shown?.toList ++ t.shown) : Moves n i c ps q t b m t' b m where
  shows := hshows
  locks := ⟨b.stripes.lock i, (Stripes.set_lock ..).symm, hplace ▸ hlock⟩
  sees := hplace ▸ hsees
  shown := hshown
  alone := .inl rfl
  settles := .inl ⟨congrArg _ hplace, rfl⟩

/-- An effect on the lock alone. -/
theorem locking {l : StampedLock} (hshows : b.Shows n m) (hlock : l.Knows (t'.place :: ps))
    (hsees : t'.place.Sees (m c.key)) (hshown : t'.shown = q.shown?.toList ++ t.shown)
    (hsettles : t'.place.result? = t.place.result? ∨ t.place.result? = none ∧
      t'.place.result? = some (c.answer (m c.key)) ∧ c.writes? (m c.key) = none) :
    Moves n i c ps q t b m t' (b.setLock i l) m where
  shows := hshows.of_engine rfl
  locks := ⟨l, rfl, hlock⟩
  sees := hsees
  shown := hshown
  alone := .inl rfl
  settles := hsettles.imp (⟨·, rfl⟩) fun h => ⟨h.1, h.2.1, (after_of_keeps h.2.2).symm⟩

/-- A write by a call that has the stripe alone. -/
theorem writing {v current : Option Bytes} {shown : List (Option Bytes)} {e : Engine}
    (hwrites : c.writes? v = some current) (hq : q.shown? = none)
    (hshows : Backend.Shows { b with engine := .reliable e } n
      (m.apply (Dictionary.assign c.key current)))
    (hlock : (b.stripes.lock i).Knows (.inside .exclusive v :: ps)) (hsees : m c.key = v) :
    Moves n i c ps q ⟨.inside .exclusive v, shown⟩ b m ⟨.written (c.answer v), shown⟩
      { b with engine := .reliable e } (c.after m) where
  shows := by
    have hwrites' : c.writes? (m c.key) = some current := hsees ▸ hwrites
    rw [after_of_writes hwrites']
    exact hshows
  locks := ⟨b.stripes.lock i, (Stripes.set_lock ..).symm, hlock.swap rfl rfl⟩
  sees := trivial
  shown := by rw [hq]; rfl
  alone := .inr (hlock.nobody rfl)
  settles := .inr ⟨rfl, by rw [hsees]; rfl, rfl⟩

end Moves

/-- An updater runs at most twice. -/
theorem Rule.length_shown_le {n i : Nat} {c : Call} {q : Effect} {t t' : Standing}
    {R : q.Answer → Standing → Prop} {a : q.Answer} (hrule : Rule n i c t q R) (ha : R a t')
    (h : t.shown.length ≤ 2) : t'.shown.length ≤ 2 := by
  cases hrule with
  | resolve => exact ha.2 ▸ h
  | probe => exact ha.2 ▸ h
  | fetch => exact ha.2 ▸ h
  | consult hc _ hlt current => exact ha.2 ▸ hlt
  | put => exact ha.2 ▸ h
  | delete => exact ha.2 ▸ h
  | announce => exact ha ▸ h
  | share => exact ha.elim fun _ ht => ht ▸ h
  | own => exact ha.elim fun _ ht => ht ▸ h
  | upgrade => exact ha ▸ h
  | leave => exact ha ▸ h
  | leaveWritten => exact ha ▸ h

/-- **An effect within the rules is answered as they say**, and keeps what they rely on. -/
theorem Rule.moves {n i : Nat} {c : Call} {ps : List Place} {q : Effect} {t : Standing}
    {R : q.Answer → Standing → Prop} {a : q.Answer} {b b' : Backend} {m : Contents}
    (hrule : Rule n i c t q R) (hshows : b.Shows n m)
    (hlock : (b.stripes.lock i).Knows (t.place :: ps)) (hsees : t.place.Sees (m c.key))
    (hanswer : b.answer? q = some (a, b')) :
    ∃ t' m', R a t' ∧ Moves n i c ps q t b m t' b' m' := by
  cases hrule with
  | resolve =>
    obtain ⟨rfl, rfl⟩ := Prod.mk.inj (Option.some.inj hanswer)
    exact ⟨t, m, ⟨rfl, rfl⟩, .quiet hshows hlock hsees rfl rfl⟩
  | probe =>
    -- A read changes nothing and answers what the caller sees of the key.
    rw [hshows.reading fun _ => rfl] at hanswer
    obtain ⟨rfl, rfl⟩ := Prod.mk.inj (Option.some.inj hanswer)
    obtain ⟨possible, hmay, hno⟩ := hshows.mayContain_eq c.key
    exact ⟨_, m, ⟨⟨possible, hmay, fun h => hsees ▸ hno h⟩, rfl⟩, .quiet hshows hlock hsees rfl rfl⟩
  | fetch =>
    rw [hshows.reading fun _ => rfl] at hanswer
    obtain ⟨rfl, rfl⟩ := Prod.mk.inj (Option.some.inj hanswer)
    have hget := hshows.get_eq c.key
    rw [show m c.key = _ from hsees] at hget
    exact ⟨_, m, ⟨hget, rfl⟩, .quiet hshows hlock hsees rfl rfl⟩
  | consult hc _ hlt current =>
    obtain ⟨rfl, rfl⟩ := Prod.mk.inj (Option.some.inj hanswer)
    exact ⟨_, m, ⟨rfl, rfl⟩, .quiet hshows hlock hsees rfl rfl⟩
  | put hwrites hshown =>
    obtain ⟨e, hput, hshows'⟩ := hshows.put c.key _
    obtain ⟨rfl, rfl⟩ := Prod.mk.inj (Option.some.inj (hput.symm.trans hanswer))
    exact ⟨_, _, ⟨rfl, rfl⟩, .writing hwrites rfl hshows' hlock hsees⟩
  | delete hwrites hshown =>
    obtain ⟨e, hdelete, hshows'⟩ := hshows.delete c.key
    obtain ⟨rfl, rfl⟩ := Prod.mk.inj (Option.some.inj (hdelete.symm.trans hanswer))
    exact ⟨_, _, ⟨rfl, rfl⟩, .writing hwrites rfl hshows' hlock hsees⟩
  | announce =>
    obtain ⟨rfl, rfl⟩ := Prod.mk.inj (Option.some.inj hanswer)
    exact ⟨_, m, rfl, .locking hshows hlock.announce trivial rfl (.inl rfl)⟩
  | share =>
    obtain ⟨l, hl, hback⟩ := Option.map_eq_some_iff.mp hanswer
    obtain ⟨rfl, rfl⟩ := Prod.mk.inj hback
    exact ⟨_, m, ⟨m c.key, rfl⟩, .locking hshows (hlock.enter_shared hl _) rfl rfl (.inl rfl)⟩
  | own =>
    obtain ⟨l, hl, hback⟩ := Option.map_eq_some_iff.mp hanswer
    obtain ⟨rfl, rfl⟩ := Prod.mk.inj hback
    exact ⟨_, m, ⟨m c.key, rfl⟩, .locking hshows (hlock.enter_exclusive hl _) rfl rfl (.inl rfl)⟩
  | upgrade =>
    simp only [Backend.answer?] at hanswer
    -- Refused, the caller is as before, and its work knows that from the answer.
    cases hl : (b.stripes.lock i).upgrade? with
    | some l =>
      rw [hl] at hanswer
      obtain ⟨rfl, rfl⟩ := Prod.mk.inj (Option.some.inj hanswer)
      exact ⟨_, m, rfl, .locking hshows (hlock.upgrade hl) hsees rfl (.inl rfl)⟩
    | none =>
      rw [hl] at hanswer
      obtain ⟨rfl, rfl⟩ := Prod.mk.inj (Option.some.inj hanswer)
      exact ⟨_, m, rfl, .quiet hshows hlock hsees rfl rfl⟩
  | @leave hold v shown =>
    obtain ⟨rfl, rfl⟩ := Prod.mk.inj (Option.some.inj hanswer)
    obtain rfl : m c.key = v := hsees
    refine ⟨_, m, rfl, ?_⟩
    cases hwrites : c.writes? (m c.key) with
    | none =>
      rw [departed_of_keeps hwrites]
      exact .locking hshows (hlock.leave rfl rfl rfl) trivial rfl (.inr ⟨rfl, rfl, hwrites⟩)
    | some current =>
      rw [departed_of_writes hwrites]
      exact .locking hshows (hlock.leave rfl rfl rfl) trivial rfl (.inl rfl)
  | leaveWritten =>
    obtain ⟨rfl, rfl⟩ := Prod.mk.inj (Option.some.inj hanswer)
    exact ⟨_, m, rfl, .locking hshows (hlock.leave rfl rfl rfl) trivial rfl (.inl rfl)⟩

end Call

end SnapshotStore
