import SnapshotStore.Dictionary.Range
import SnapshotStore.Proofs.Concurrency.Tenants

/-!
# Removals beside calls

A removal of the first entry of a range looks for an entry without any lock, takes the stripe of its
key alone, reads the key again and deletes it if it still has a value; if it has none, the removal
tries again.  Calls on one key keep to the rules of postures because they keep to their own
(`Work.Serves.minds`), and removals do by the induction on their attempts
(`Dictionary.minds_removeFirst`).
-/

namespace SnapshotStore

/-- What somebody asks of a dictionary: a call on one key, or the removal of the first entry of a
range. -/
inductive Chore where
  | call (c : Call)
  | removeFirst (range : KeyRange) (attempts : Nat)

namespace Chore

/-- What a chore answers. -/
inductive Answer where
  | ofCall (a : Call.Answer)
  | entry (e : Option Entry)
  deriving DecidableEq

/-- The work of a chore on a dictionary. -/
def work (d : Dictionary) : Chore → Work Empty Answer
  | call c => Answer.ofCall <$> c.work d
  | removeFirst range attempts => Answer.entry <$> d.removeFirst range attempts

/-- Whether a chore puts or updates a key. -/
inductive Puts (key : Bytes) : Chore → Prop where
  | put (value : Bytes) (result : ResultType) : Puts key (call (.put key value result))
  | update (f : Updater) (sure : Bool) : Puts key (call (.update key f sure))

/-- What a chore may have written: a call what it makes of some value, a removal a deletion in its
range, and each of them at most once. -/
inductive Wrote : Chore → WriteBatch → Prop where
  | nothing (c : Chore) : Wrote c []
  | call {c : Call} {v current : Option Bytes} (hwrites : c.writes? v = some current) :
    Wrote (call c) [Dictionary.assign c.key current]
  | removal {range : KeyRange} {attempts : Nat} {key : Bytes} (hkey : range.contains key = true) :
    Wrote (removeFirst range attempts) [.delete key]

/-- How a removal ends.  If it hands out an entry, it deleted its key, which held the value when the
removal went into the stripe; if it failed, it went into as many stripes as it had attempts. -/
inductive Removed (range : KeyRange) (attempts : Nat) :
    Outcome (Option Entry) → Posture → Prop where
  | taken {key value : Bytes} {t : Posture} (hkey : range.contains key = true)
      (hwritten : t.written = [.delete key]) (hvalue : t.base key = some value) :
    Removed range attempts (.done (some (key, value))) t
  | nothing {t : Posture} (hwritten : t.written = []) : Removed range attempts (.done none) t
  | overtaken {t : Posture} (e : StoreError) (hwritten : t.written = [])
      (hentered : attempts ≤ t.entered.length) : Removed range attempts (.failed e) t

/-- How a chore ends. -/
def Ends : Chore → Outcome Answer → Posture → Prop
  | call _, _, _ => True
  | removeFirst range attempts, .done (.entry first), t => Removed range attempts (.done first) t
  | removeFirst range attempts, .failed e, t => Removed range attempts (.failed e) t
  | removeFirst .., _, _ => False

/-- A chore that wrote a value puts or updates its key. -/
theorem Wrote.puts {c : Chore} {key value : Bytes} (h : c.Wrote [.put key value]) : c.Puts key := by
  obtain ⟨op, hop⟩ : ∃ op, op = WriteOp.put key value := ⟨_, rfl⟩
  rw [← hop] at h
  cases h with
  | @call c v current hwrites =>
    cases current with
    | none => cases hop
    | some new =>
      obtain ⟨rfl, rfl⟩ := WriteOp.put.inj hop
      cases c with
      | get key sure => cases hwrites
      | put key value result => exact .put value result
      | remove key result => cases hwrites
      | update key f sure => exact .update f sure
  | removal hkey => cases hop

/-- A chore writes at most one operation. -/
theorem Wrote.length_le {c : Chore} {batch : WriteBatch} (h : c.Wrote batch) :
    batch.length ≤ 1 := by
  cases h <;> simp

end Chore

/-! ## Calls -/

namespace Call

/-- The posture of a call where it stands with its stripe. -/
def Place.Fits (c : Call) (i : Nat) (p : Posture) : Place → Prop
  | outside => p.IsAway
  | announced => (∀ j, p.hold j = none) ∧ p.announced = some i ∧ p.written = []
  | inside hold v => p.hold i = some hold ∧ (∀ j ≠ i, p.hold j = none) ∧ p.announced = none ∧
      p.written = [] ∧ p.base c.key = v
  | written _ => p.hold i = some .exclusive ∧ p.announced = none
  | left _ => True

/-- What the rules of calls allow, the rules of postures allow. -/
theorem Rule.posture {n : Nat} {s : Striping} {c : Call} {t : Standing} {q : Effect} {p : Posture}
    {R : q.Answer → Standing → Prop} (hrule : Rule n (s.index c.key) c t q R)
    (hfits : t.place.Fits c (s.index c.key) p) (hwrote : (Chore.call c).Wrote p.written) :
    ∃ R', p.Rule n s q R' ∧ ∀ a p', R' a p' → (Chore.call c).Wrote p'.written ∧
      ∃ t', R a t' ∧ t'.place.Fits c (s.index c.key) p' := by
  have hi : s.index c.key < s.count := s.index_lt c.key
  -- Each rule for calls is a rule for postures, at the only stripe that the call takes.
  cases hrule with
  | resolve =>
    refine ⟨_, .resolve, ?_⟩
    rintro _ _ ⟨rfl, rfl⟩
    exact ⟨hwrote, t, ⟨rfl, rfl⟩, hfits⟩
  | @probe hold v shown =>
    obtain ⟨hheld, -, -, hwritten, rfl⟩ := id hfits
    refine ⟨_, .probe (by rw [hheld]; exact Option.some_ne_none _), ?_⟩
    rintro _ _ ⟨⟨possible, rfl, hno⟩, rfl⟩
    rw [Posture.view_of_unwritten hwritten] at hno
    exact ⟨hwrote, _, ⟨⟨possible, rfl, hno⟩, rfl⟩, hfits⟩
  | @fetch hold v shown =>
    obtain ⟨hheld, -, -, hwritten, rfl⟩ := id hfits
    refine ⟨_, .fetch (by rw [hheld]; exact Option.some_ne_none _), ?_⟩
    rintro _ _ ⟨rfl, rfl⟩
    rw [Posture.view_of_unwritten hwritten]
    exact ⟨hwrote, _, ⟨rfl, rfl⟩, hfits⟩
  | consult hc _ hlt current =>
    refine ⟨_, .consult _ current, ?_⟩
    rintro _ _ ⟨rfl, rfl⟩
    exact ⟨hwrote, _, ⟨rfl, rfl⟩, hfits⟩
  | @put v value shown hwrites hshown =>
    obtain ⟨hheld, -, hannounced, hwritten, -⟩ := hfits
    refine ⟨_, .put value hheld, ?_⟩
    rintro _ _ ⟨rfl, rfl⟩
    refine ⟨?_, _, ⟨rfl, rfl⟩, hheld, hannounced⟩
    rw [Posture.wrote, hwritten]
    exact .call hwrites
  | @delete v shown hwrites hshown =>
    obtain ⟨hheld, -, hannounced, hwritten, -⟩ := hfits
    refine ⟨_, .delete hheld, ?_⟩
    rintro _ _ ⟨rfl, rfl⟩
    refine ⟨?_, _, ⟨rfl, rfl⟩, hheld, hannounced⟩
    rw [Posture.wrote, hwritten]
    exact .call hwrites
  | announce =>
    obtain ⟨hhold, hannounced, hwritten⟩ := hfits
    refine ⟨_, .announce hi (hhold _) hannounced, ?_⟩
    rintro _ _ rfl
    exact ⟨hwrote, _, rfl, hhold, rfl, hwritten⟩
  | share =>
    obtain ⟨hhold, hannounced, hwritten⟩ := hfits
    refine ⟨_, .enter hi (hhold _) hannounced hwritten, ?_⟩
    rintro _ _ ⟨m, rfl⟩
    refine ⟨hwrote, _, ⟨_, rfl⟩, p.hold_enter_self .., fun j hj => ?_, rfl, hwritten, rfl⟩
    rw [p.hold_enter_of_ne s _ m hj, hhold]
  | own =>
    obtain ⟨hhold, hannounced, hwritten⟩ := hfits
    refine ⟨_, .enter hi (hhold _) hannounced hwritten, ?_⟩
    rintro _ _ ⟨m, rfl⟩
    refine ⟨hwrote, _, ⟨_, rfl⟩, p.hold_enter_self .., fun j hj => ?_, rfl, hwritten, rfl⟩
    rw [p.hold_enter_of_ne s _ m hj, hhold]
  | upgrade =>
    obtain ⟨hheld, hothers, hannounced, hwritten, hbase⟩ := id hfits
    refine ⟨_, .upgrade hi hheld, ?_⟩
    rintro a _ rfl
    cases a with
    | false => exact ⟨hwrote, _, rfl, hfits⟩
    | true =>
      refine ⟨hwrote, _, rfl, p.hold_upgraded_self, fun j hj => ?_, hannounced, hwritten, hbase⟩
      exact (p.hold_upgraded_of_ne hj).trans (hothers j hj)
  | @leave hold v shown =>
    obtain ⟨hheld, hothers, hannounced, hwritten, -⟩ := hfits
    refine ⟨_, .leave hi hheld hannounced, ?_⟩
    rintro _ _ rfl
    refine ⟨hwrote, _, rfl, ?_⟩
    cases hwrites : c.writes? v with
    | none =>
      rw [departed_of_keeps hwrites]
      trivial
    | some current =>
      rw [departed_of_writes hwrites]
      refine ⟨fun j => ?_, hannounced, hwritten⟩
      by_cases hj : j = s.index c.key
      · rw [hj, p.hold_leave_self]
      · rw [p.hold_leave_of_ne hj, hothers j hj]
  | leaveWritten =>
    obtain ⟨hheld, hannounced⟩ := hfits
    refine ⟨_, .leave hi hheld hannounced, ?_⟩
    rintro _ _ rfl
    exact ⟨hwrote, _, rfl, trivial⟩

end Call

/-- Work that keeps to the rules of a call keeps to those of postures. -/
theorem Work.Serves.minds {ε α : Type} {n : Nat} {s : Striping} {c : Call} {w : Work ε α}
    {Q : Outcome α → Call.Standing → Prop} {t : Call.Standing} {p : Posture}
    (h : w.Serves n (s.index c.key) c Q t) (hfits : t.place.Fits c (s.index c.key) p)
    (hwrote : (Chore.call c).Wrote p.written) :
    w.Minds n s (fun p => (Chore.call c).Wrote p.written) (fun _ _ => True) p := by
  induction w generalizing t p with
  | finish r => trivial
  | perform q next ih =>
    obtain ⟨R, hrule, hnext⟩ := h
    obtain ⟨R', hrule', hleads⟩ := hrule.posture hfits hwrote
    refine ⟨R', hrule', fun a p' ha => ?_⟩
    obtain ⟨hwrote', t', ht', hfits'⟩ := hleads a p' ha
    exact ⟨hwrote', ih a (hnext a t' ht') hfits' hwrote'⟩
  | send item next ih => exact h.elim

/-! ## Removals -/

namespace Posture

variable {t : Posture} {hold : Hold} {all : List Nat} {m : Contents}

/-- Work that gave all its stripes back without a write is away again. -/
theorem IsAway.taking (h : t.IsAway) : (t.taking hold all [] m []).IsAway :=
  ⟨fun i => by simpa [Posture.taking] using h.hold i, rfl, rfl⟩

/-- Each stripe that is taken was entered once more. -/
theorem length_entered_taking (batch : WriteBatch) (now : List Nat) :
    (t.taking hold all now m batch).entered.length = all.length + t.entered.length := by
  rw [Posture.taking, List.length_append, List.length_reverse]

end Posture

namespace Dictionary

variable {ε : Type} {d : Dictionary} {s : Striping} {I : Posture → Prop} {t : Posture}

/-- The work under the stripe of one key. -/
theorem minds_holding_single {α : Type} {w : Work ε α} {hold : Hold} {key : Bytes}
    {G : Outcome α → Contents → WriteBatch → Prop} (ht : t.IsAway)
    (hI : ∀ t a, I t → I { t with announced := a }) (hfree : ∀ t : Posture, t.written = [] → I t)
    (hout : ∀ r m batch now, G r m batch → I (t.taking hold [s.index key] now m batch))
    (h : ∀ m, let inside := t.taking hold [s.index key] [s.index key] m
      w.Minds d.column s I (fun r t' => ∃ batch, G r m batch ∧ t' = inside batch) (inside [])) :
    (Work.holding hold [s.index key] w).Minds d.column s I
      (fun r t' => ∃ m batch, G r m batch ∧ t' = t.taking hold [s.index key] [] m batch) t :=
  Work.minds_holding (List.nodup_singleton _)
    (fun _ hi => List.mem_singleton.mp hi ▸ s.index_lt key) (fun i _ => ht.hold i) ht.announced
    ht.written hI (fun _ _ _ _ => hfree _ rfl) (fun _ _ _ r m batch => hout r m batch _) h

/-- The first entry of a range has a key of the range.  Whoever looks for it holds no stripe when it
knows it. -/
theorem minds_firstEntry (hstriping : d.striping = some s)
    (hI : ∀ t a, I t → I { t with announced := a }) (hfree : ∀ t : Posture, t.written = [] → I t)
    (ht : t.IsAway) (range : KeyRange) :
    (d.firstEntry .latest range : Work ε _).Minds d.column s I
      (fun r t' => ∃ first, r = .done first ∧ (∀ e, first = some e → range.contains e.1 = true) ∧
        t'.IsAway ∧ t.entered.length ≤ t'.entered.length) t := by
  have hnothing : ∀ e, (none : Option Entry) = some e → range.contains e.1 = true := by simp
  unfold firstEntry visit
  cases hsingle : range.singleKey? with
  | some key =>
    have hcontains : range.contains key = true := by simp [KeyRange.contains, hsingle]
    dsimp only
    rw [d.readStripes_singleton hstriping]
    refine (minds_holding_single (G := fun r _ batch => batch = [] ∧ ∃ first, r = .done first ∧
      ∀ e, first = some e → range.contains e.1 = true) ht hI hfree ?_ fun m => ?_).mono ?_
    · rintro r m _ now ⟨rfl, -⟩
      exact hfree _ rfl
    · intro inside
      have hheld : (inside []).hold (s.index key) ≠ none := by simp [inside, Posture.taking]
      refine (minds_read (hfree _ rfl) hheld false).bind ?_
      rintro _ _ ⟨rfl, rfl⟩
      cases (inside []).view key with
      | none => exact ⟨[], ⟨rfl, none, rfl, hnothing⟩, rfl⟩
      | some value =>
        refine ⟨[], ⟨rfl, some (key, value), rfl, ?_⟩, rfl⟩
        rintro e he
        rw [← Option.some.inj he]
        exact hcontains
    · rintro r _ ⟨m, _, ⟨rfl, first, hr, hfirst⟩, rfl⟩
      refine ⟨first, hr, hfirst, ht.taking, ?_⟩
      rw [Posture.length_entered_taking]
      exact Nat.le_add_left _ _
  | none =>
    have hnow : I t := hfree t ht.written
    refine (Work.minds_call (Q := fun r t' => ∃ cursor : Cursor, r = .done cursor ∧
      cursor.StaysIn range ∧ t' = t) (.scan range) ?_ _ _).bind ?_
    · rintro _ _ ⟨⟨cursor, rfl, hcursor⟩, rfl⟩
      exact ⟨hnow, cursor, rfl, cursor, rfl, hcursor, rfl⟩
    rintro _ t ⟨cursor, rfl, hcursor, rfl⟩
    -- The walk stops at its first entry.
    refine Work.Minds.ensuring (P := fun r t' => ∃ first, r = .done first ∧
      (∀ e, first = some e → range.contains e.1 = true) ∧ t' = t) ?_ ?_
    · cases cursor.budget with
      | zero => exact ⟨none, rfl, hnothing, rfl⟩
      | succ fuel =>
        refine (Work.minds_call (Q := fun r t' => ∃ entry cursor', r = .done (entry, cursor') ∧
          (∀ e, entry = some e → range.contains e.1 = true) ∧ t' = t) (.next hcursor)
          ?_ _ _).bind ?_
        · rintro _ _ ⟨⟨entry, cursor', rfl, hentry, -⟩, rfl⟩
          exact ⟨hnow, _, rfl, entry, cursor', rfl, hentry, rfl⟩
        · rintro _ _ ⟨entry, cursor', rfl, hentry, rfl⟩
          cases entry with
          | none => exact ⟨none, rfl, hnothing, rfl⟩
          | some e => exact ⟨some e, rfl, hentry, rfl⟩
    · rintro _ _ ⟨first, rfl, hfirst, rfl⟩
      refine ⟨_, .unpin _, ?_⟩
      rintro _ _ rfl
      exact ⟨hnow, first, rfl, hfirst, ht, Nat.le_refl _⟩

/-- The key of a candidate is deleted under its stripe if it still has a value.  If it has none, the
removal is away again, having gone into one more stripe. -/
theorem minds_take (hstriping : d.striping = some s) {range : KeyRange} (attempts : Nat)
    {key : Bytes} (hkey : range.contains key = true) (ht : t.IsAway) :
    (Work.holding .exclusive (d.writeStripes [key]) (do
      match ← d.read .latest key true with
      | some value =>
        d.drop key
        return some (key, value)
      | none => return none) : Work ε (Option Entry)).Minds d.column s
      (fun t => (Chore.removeFirst range attempts).Wrote t.written)
      (fun r t' => r = .done none ∧ t'.IsAway ∧ t'.entered.length = t.entered.length + 1 ∨
        ∃ value, r = .done (some (key, value)) ∧ t'.written = [.delete key] ∧
          t'.base key = some value) t := by
  have hfree : ∀ t : Posture, t.written = [] → (Chore.removeFirst range attempts).Wrote t.written :=
    fun t h => h ▸ .nothing _
  -- Under the stripe of the key either nothing is stored any more, or its value is deleted and
  -- handed out.
  rw [d.writeStripes_singleton hstriping]
  refine (minds_holding_single (G := fun r m batch => r = .done none ∧ batch = [] ∨
    ∃ value, r = .done (some (key, value)) ∧ batch = [.delete key] ∧ m key = some value)
    ht (fun _ _ h => h) hfree ?_ fun m => ?_).mono ?_
  · rintro r m _ now (⟨-, rfl⟩ | ⟨value, -, rfl, -⟩)
    · exact hfree _ rfl
    · exact .removal hkey
  · intro inside
    have hheld : (inside []).hold (s.index key) = some .exclusive := by
      simp [inside, Posture.taking]
    refine (minds_read (hfree _ rfl) (by rw [hheld]; exact Option.some_ne_none _) true).bind ?_
    rintro _ _ ⟨rfl, rfl⟩
    rw [Posture.view_of_unwritten (t := inside []) rfl]
    show Work.Minds d.column s _ _ (Work.bind (.finish (.done (m key))) _) (inside [])
    cases m key with
    | none => exact ⟨[], .inl ⟨rfl, rfl⟩, rfl⟩
    | some value =>
      refine (Work.minds_call (Q := fun r t' => r = .done () ∧ t' = inside [.delete key])
        (.delete hheld) ?_ _ _).bind ?_
      · rintro _ _ ⟨rfl, rfl⟩
        exact ⟨.removal hkey, (), rfl, rfl, rfl⟩
      · rintro _ _ ⟨rfl, rfl⟩
        exact ⟨[.delete key], .inr ⟨value, rfl, rfl, rfl⟩, rfl⟩
  · rintro r _ ⟨m, batch, ⟨rfl, rfl⟩ | ⟨value, rfl, rfl, hvalue⟩, rfl⟩
    · refine .inl ⟨rfl, ht.taking, ?_⟩
      rw [Posture.length_entered_taking, List.length_singleton, Nat.add_comm]
    · exact .inr ⟨value, rfl, rfl, hvalue⟩

/-- A removal keeps to the rules, and ends as it should. -/
theorem minds_removeFirst (hstriping : d.striping = some s) (range : KeyRange) (all attempts : Nat)
    (ht : t.IsAway) (hentered : all ≤ t.entered.length + attempts) :
    (d.removeFirst range attempts : Work ε _).Minds d.column s
      (fun t => (Chore.removeFirst range all).Wrote t.written) (Chore.Removed range all) t := by
  induction attempts generalizing t with
  | zero => exact .overtaken _ ht.written hentered
  | succ attempts ih =>
    unfold removeFirst
    have hfirst := minds_firstEntry (ε := ε) hstriping (fun _ _ h => h)
      (fun t h => show (Chore.removeFirst range all).Wrote t.written from h ▸ .nothing _) ht range
    refine hfirst.bind ?_
    rintro _ t' ⟨first, rfl, hfirst, ht', hle⟩
    -- If the range is empty, so is the hand-out.  Otherwise the first key may have gone since, and
    -- then there is an attempt less.
    cases first with
    | none => exact .nothing ht'.written
    | some e =>
      obtain ⟨key, stale⟩ := e
      have hkey : range.contains key = true := hfirst _ rfl
      refine (minds_take hstriping all hkey ht').bind ?_
      rintro _ t'' (⟨rfl, ht'', heq⟩ | ⟨value, rfl, hwritten, hvalue⟩)
      · exact ih ht'' (by omega)
      · exact .taken hkey hwritten hvalue

end Dictionary

/-- Every chore keeps to the rules, and ends as it should. -/
theorem Chore.minds_work {d : Dictionary} {s : Striping} (hmode : d.mode = .allow)
    (hstriping : d.striping = some s) (c : Chore) (m : Contents) :
    (c.work d).Minds d.column s (fun t => c.Wrote t.written) c.Ends (.blank m) := by
  cases c with
  | call c =>
    have hserves := Call.serves_work (d := d) hmode hstriping c
    have hfits : Call.Place.outside.Fits c (s.index c.key) (.blank m) := Posture.isAway_blank m
    refine (hserves.minds hfits (.nothing _)).bind fun r t _ => ?_
    cases r <;> trivial
  | removeFirst range attempts =>
    refine (Dictionary.minds_removeFirst hstriping range attempts attempts
      (Posture.isAway_blank m) (Nat.le_add_left _ _)).bind fun r t ht => ?_
    cases ht with
    | taken hkey hwritten hvalue => exact .taken hkey hwritten hvalue
    | nothing hwritten => exact .nothing hwritten
    | overtaken e hwritten hentered => exact .overtaken e hwritten hentered

end SnapshotStore
