import SnapshotStore.Proofs.Concurrency.NoLostUpdates
import SnapshotStore.Proofs.Concurrency.Removals
import SnapshotStore.Proofs.Dictionary.Deletion

/-!
# Every entry is handed out once

Several removals of first entries may see the same candidate, but each of them deletes it only under
its stripe, and only if it is still there.  So a removal hands out an entry that was stored just
before its own deletion (`Workshop.Hosts.run_moments`), and between two removals that hand out the
same key somebody put or updated the key (`Workshop.Chores.exists_put`).
-/

namespace SnapshotStore

namespace Workshop

variable {κ α : Type}

/-- A work is about to write one operation, and nothing else with it. -/
def IsAboutToWrite (x : Workshop α) (i n : Nat) (op : WriteOp) : Prop :=
  ∃ (q : Effect) (next : q.Answer → Work Empty α),
    x.works[i]? = some (.perform q next) ∧ q.writes = [(n, op)]

/-- What does not hold at first and holds after a run came to hold on some turn. -/
theorem exists_turn {P : Workshop α → Prop} {x : Workshop α} (schedule : List Nat) (hx : ¬ P x)
    (h : P (x.run schedule)) :
    ∃ before i after, schedule = before ++ i :: after ∧ ¬ P (x.run before) ∧
      P ((x.run before).turn i) := by
  induction schedule generalizing x with
  | nil => exact absurd h hx
  | cons i rest ih =>
    by_cases hi : P (x.turn i)
    · exact ⟨[], i, rest, rfl, hx, hi⟩
    · obtain ⟨before, j, after, rfl, hbefore, hafter⟩ := ih hi h
      exact ⟨i :: before, j, after, rfl, hbefore, hafter⟩

end Workshop

/-- What a column shows of a range can be listed. -/
theorem Backend.Shows.exists_lists {b : Backend} {n : Nat} {m : Contents} (h : b.Shows n m)
    (range : KeyRange) : ∃ entries, m.Lists range entries := by
  obtain ⟨w, hb, hn, rfl⟩ := h
  obtain ⟨c, hc⟩ := hb.column_eq hn
  have hshows := hb.agrees.represents.showsAt hc b.engine.engine.pruneThreshold_le_sequence
    (Nat.le_refl _)
  rw [hb.agrees.represents.sequence_eq] at hshows
  exact hshows.exists_lists range

/-- Work that wrote one operation wrote it now, and found its keys as they were, or wrote it
before. -/
theorem Posture.Change.of_written_singleton {n : Nat} {s : Striping} {t t' : Posture}
    {m m' : Contents} {q : Effect} {op : WriteOp} (h : Change n s t m q t' m')
    (hwritten : t'.written = [op]) :
    t.written = [op] ∧ t'.base = t.base ∨
      t.written = [] ∧ t'.base = t.base ∧ q.writes = [(n, op)] ∧
        ∀ key, op.touches key = true → t.hold (s.index key) = some .exclusive := by
  cases h with
  | enter hold hi hfree hunwritten => exact absurd (hwritten.symm.trans hunwritten) (by simp)
  | @write c batch hwrites hheld =>
    obtain ⟨hunwritten, rfl⟩ | ⟨hbefore, rfl⟩ := List.append_eq_singleton_iff.mp hwritten
    · exact .inr ⟨hunwritten, rfl, hwrites, hheld op (List.mem_singleton.mpr rfl)⟩
    · exact .inl ⟨hbefore, rfl⟩
  | _ => exact .inl ⟨hwritten, rfl⟩

/-- The contents after an effect that writes one operation. -/
theorem Posture.Change.of_writes_singleton {n : Nat} {s : Striping} {t t' : Posture}
    {m m' : Contents} {q : Effect} {op : WriteOp} (h : Change n s t m q t' m')
    (hwrites : q.writes = [(n, op)]) : m' = m.apply op := by
  cases h with
  | idle hnone => cases hnone.symm.trans hwrites
  | @write c batch hbatch hheld =>
    obtain ⟨op', rfl, hop⟩ := List.map_eq_singleton_iff.mp (hbatch.symm.trans hwrites)
    rw [← (Prod.mk.inj hop).2]
    rfl
  | _ => cases hwrites

/-- An operation on a key that has no value gives it one only if it puts one there. -/
theorem Contents.eq_put_of_apply_ne_none {m : Contents} {op : WriteOp} {key : Bytes}
    (hnone : m key = none) (hsome : m.apply op key ≠ none) : ∃ value, op = .put key value := by
  cases op with
  | put k value =>
    by_cases hk : key = k
    · exact ⟨value, by rw [hk]⟩
    · exact absurd ((if_neg hk).trans hnone) hsome
  | delete k => exact absurd (by simp [apply, hnone]) hsome
  | deleteRange range => exact absurd (by simp [apply, hnone]) hsome

namespace Workshop

variable {κ α : Type}

/-- Nobody waits to write. -/
theorem turn_ne_of_writes {x : Workshop α} {i : Nat} {q : Effect} {next : q.Answer → Work Empty α}
    (hwork : x.works[i]? = some (.perform q next)) (hwrites : q.writes ≠ []) : x.turn i ≠ x := by
  cases q with
  | ask c =>
    intro hidle
    have hlog : (x.turn i).log = (i, .ask c) :: x.log := by
      simp only [turn, hwork, Backend.answer?]
    rw [hidle] at hlog
    exact List.cons_ne_self _ _ hlog.symm
  | _ => exact absurd rfl hwrites

namespace Hosts

variable {n : Nat} {s : Striping} {I : κ → Posture → Prop} {Q : κ → Outcome α → Posture → Prop}
  {x : Workshop α} {ks : List (Tenant κ α)} {m : Contents} {i : Nat} {k : Tenant κ α} {op : WriteOp}

/-- A tenant wrote one operation when its turn came at some moment, and its keys held then what the
tenant had found. -/
def WroteAtAMoment (x : Workshop α) (n : Nat) (schedule : List Nat) (i : Nat) (k : Tenant κ α) : Prop :=
  ∀ op, k.posture.written = [op] → ∃ before after, schedule = before ++ i :: after ∧
    (x.run before).IsAboutToWrite i n op ∧
    ∀ key, op.touches key = true → (x.run before).stored n key = k.posture.base key

/-- Whoever wrote one operation did so at some moment. -/
theorem run_moments (h : Hosts n s I Q x ks m) (hfresh : ∀ k ∈ ks, k.posture.written = [])
    (schedule : List Nat) :
    ∃ ks' m', ks'.map (·.task) = ks.map (·.task) ∧ Hosts n s I Q (x.run schedule) ks' m' ∧
      ∀ i k, ks'[i]? = some k → WroteAtAMoment x n schedule i k := by
  refine h.run_tenants (fun i k hk op hwritten => ?_) (fun schedule i j k hmoment op hwritten => ?_)
    (fun schedule i ks₁ m₁ k q next t' rest m' _ h₁ hk hrest hmoment hchange _ op hwritten => ?_)
    schedule
  · cases (hfresh k (List.mem_of_getElem? hk)).symm.trans hwritten
  · obtain ⟨before, after, hschedule, hbefore⟩ := hmoment op hwritten
    exact ⟨before, after ++ [i], by rw [hschedule, List.append_assoc]; rfl, hbefore⟩
  -- The removal was there before this turn, or this turn wrote it and so is the moment.
  obtain ⟨hbefore, hbase⟩ | ⟨hunwritten, hbase, hwrites, hheld⟩ :=
    hchange.of_written_singleton hwritten
  · obtain ⟨before, after, hschedule, habout, hstored⟩ := hmoment op hbefore
    exact ⟨before, after ++ [i], by rw [hschedule, List.append_assoc]; rfl, habout,
      fun key hkey => (hstored key hkey).trans (congrFun hbase key).symm⟩
  · refine ⟨schedule, [], rfl, ⟨q, next, hrest ▸ h₁.work_eq hk, hwrites⟩, fun key hkey => ?_⟩
    have hsees := h₁.sees k (List.mem_of_getElem? hk) key
      (by rw [hheld key hkey]; exact Option.some_ne_none _)
    rw [h₁.stored_eq, hsees, Posture.view_of_unwritten hunwritten]
    exact (congrFun hbase key).symm

/-- An operation that is about to be written is applied. -/
theorem stored_turn_of_writes (h : Hosts n s I Q x ks m) (habout : x.IsAboutToWrite i n op) :
    (x.turn i).stored n = (x.stored n).apply op := by
  obtain ⟨q, next, hwork, hwrites⟩ := habout
  obtain hidle | ⟨k, q', next', t', rest, m', hk, hrest, hchange, h'⟩ := h.turn i
  · exact absurd hidle (turn_ne_of_writes hwork (hwrites ▸ List.cons_ne_nil _ _))
  · rw [h.work_eq hk, hrest, Option.some.injEq] at hwork
    obtain ⟨rfl, -⟩ := Work.perform.inj hwork
    rw [h.stored_eq, h'.stored_eq, hchange.of_writes_singleton hwrites]

end Hosts

/-! ## Chores -/

/-- The invariant of a workshop in which chores are under way. -/
abbrev Chores (d : Dictionary) (s : Striping) (x : Workshop Chore.Answer)
    (ks : List (Tenant Chore Chore.Answer)) (m : Contents) : Prop :=
  Hosts d.column s (fun c t => c.Wrote t.written) Chore.Ends x ks m

namespace Chores

variable {d : Dictionary} {s : Striping} {x : Workshop Chore.Answer}
  {ks : List (Tenant Chore Chore.Answer)} {m : Contents} {i : Nat} {key : Bytes}

/-- A key appears only because somebody puts or updates it. -/
theorem put_of_appears (h : Chores d s x ks m) (hnone : x.stored d.column key = none)
    (hsome : (x.turn i).stored d.column key ≠ none) :
    ∃ k value, ks[i]? = some k ∧ k.task.Puts key ∧
      x.IsAboutToWrite i d.column (.put key value) := by
  obtain hidle | ⟨k, q, next, t', rest, m', hk, hrest, hchange, h'⟩ := h.turn i
  · rw [hidle] at hsome
    exact absurd hnone hsome
  have hwork : x.works[i]? = some (.perform q next) := hrest ▸ h.work_eq hk
  have hwrote : k.task.Wrote t'.written := h'.manners_set hk
  rw [h.stored_eq] at hnone
  rw [h'.stored_eq] at hsome
  cases hchange with
  | @write c batch hwrites hheld =>
    -- It writes once, so what it writes now is all that it writes.
    have hlength := hwrote.length_le
    cases batch with
    | nil => exact absurd hnone hsome
    | cons op more =>
      obtain ⟨hbefore, hmore⟩ : k.posture.written = [] ∧ more = [] := by
        rw [Posture.wrote, List.length_append, List.length_cons] at hlength
        exact ⟨List.length_eq_zero_iff.mp (by omega), List.length_eq_zero_iff.mp (by omega)⟩
      subst hmore
      obtain ⟨value, rfl⟩ := Contents.eq_put_of_apply_ne_none hnone hsome
      rw [Posture.wrote, hbefore] at hwrote
      exact ⟨k, value, hk, hwrote.puts, _, next, hwork, hwrites⟩
  | _ => exact absurd hnone hsome

/-- Somebody puts or updates a key that was deleted before it has a value again. -/
theorem exists_put (h : Chores d s x ks m) {before mid : List Nat}
    (hdelete : (x.run before).IsAboutToWrite i d.column (.delete key))
    (hsome : (x.run (before ++ i :: mid)).stored d.column key ≠ none) :
    ∃ mid₁ l mid₂ c value, mid = mid₁ ++ l :: mid₂ ∧ (ks.map (·.task))[l]? = some c ∧ c.Puts key ∧
      (x.run (before ++ i :: mid₁)).IsAboutToWrite l d.column (.put key value) := by
  have hrun : ∀ more, x.run (before ++ i :: more) = ((x.run before).turn i).run more := fun more =>
    x.run_append before (i :: more)
  obtain ⟨ks₁, m₁, -, h₁⟩ := h.run before
  have hgone : ((x.run before).turn i).stored d.column key = none := by
    rw [h₁.stored_turn_of_writes hdelete]
    exact if_pos rfl
  rw [hrun] at hsome
  -- The deletion left no value, and there is one later, so some turn in between made it.
  obtain ⟨mid₁, l, mid₂, rfl, hbefore, hafter⟩ :=
    exists_turn (P := fun y => y.stored d.column key ≠ none) mid (fun hand => hand hgone) hsome
  obtain ⟨ks₂, m₂, htasks, h₂⟩ := h.run (before ++ i :: mid₁)
  rw [← hrun] at hbefore hafter
  obtain ⟨k, value, hk, hputs, habout⟩ := put_of_appears h₂ (not_not.mp hbefore) hafter
  refine ⟨mid₁, l, mid₂, k.task, value, rfl, ?_, hputs, habout⟩
  rw [← htasks, List.getElem?_map, hk]
  rfl

/-- Nothing has happened yet. -/
theorem start {b : Backend} {w : World} (hmode : d.mode = .allow) (hstriping : d.striping = some s)
    (hb : b.IsIn w) (hrest : d.AtRest w) (chores : List Chore) :
    Chores d s (Workshop.start b (chores.map (·.work d)))
      (chores.map fun c => ⟨c, .blank (w.now d.column), c.work d⟩) (w.now d.column) := by
  have hstripes : b.stripes = .idle s := by
    rw [hb.stripes_eq, hrest.stripes_eq, hstriping]
    rfl
  exact Hosts.start hb hrest.column hstripes (fun c _ => .nothing c)
    fun c _ => c.minds_work hmode hstriping _

end Chores

/-- A work is about to hand out an entry: it is about to delete its key, which holds its value. -/
def IsAboutToHandOut (x : Workshop α) (i n : Nat) (e : Entry) : Prop :=
  x.IsAboutToWrite i n (.delete e.1) ∧ x.stored n e.1 = some e.2

namespace Chores

variable {d : Dictionary} {s : Striping} {x : Workshop Chore.Answer}
  {ks : List (Tenant Chore Chore.Answer)} {m : Contents} {i attempts : Nat} {range : KeyRange}
  {key value : Bytes}

/-- A removal that ended with an entry handed it out at some moment, and wrote nothing else. -/
theorem handOut_of_finish (h : Chores d s x ks m) (hfresh : ∀ k ∈ ks, k.posture.written = [])
    {schedule : List Nat} (hc : (ks.map (·.task))[i]? = some (.removeFirst range attempts))
    (hr : (x.run schedule).works[i]? = some (.finish (.done (.entry (some (key, value)))))) :
    range.contains key = true ∧ (x.run schedule).writtenBy i = [(d.column, .delete key)] ∧
      ∃ before after, schedule = before ++ i :: after ∧
        (x.run before).IsAboutToHandOut i d.column (key, value) := by
  obtain ⟨ks', m', hsame, h', hmoments⟩ := h.run_moments hfresh schedule
  obtain ⟨k, hk, -, hends⟩ := h'.exists_ended (hsame ▸ hc) hr
  cases hends with
  | taken hkey hwritten hvalue =>
    obtain ⟨before, after, hschedule, habout, hstored⟩ := hmoments i k hk _ hwritten
    have hlog : (x.run schedule).writtenBy i = [(d.column, .delete key)] := by
      rw [h'.written_eq i k hk, hwritten]
      rfl
    refine ⟨hkey, hlog, before, after, hschedule, habout, ?_⟩
    rw [hstored key (decide_eq_true rfl), hvalue]

/-- A removal does not break down, and fails only when its attempts are used up. -/
theorem attempts_le_of_failed (h : Chores d s x ks m)
    (hc : (ks.map (·.task))[i]? = some (.removeFirst range attempts)) :
    x.works[i]? ≠ some (.finish .panicked) ∧
      ∀ failure, x.works[i]? = some (.finish (.failed failure)) →
        attempts ≤ (x.enteredBy i).length := by
  refine ⟨fun hr => ?_, fun failure hr => ?_⟩
  · obtain ⟨k, -, -, hends⟩ := h.exists_ended hc hr
    exact hends
  · obtain ⟨k, hk, -, hends⟩ := h.exists_ended hc hr
    cases hends with
    | overtaken _ hwritten hentered => rwa [h.entered_eq i k hk]

end Chores

/-- In a run of chores a work hands out a key, then somebody puts or updates the key, and then
another work hands it out again. -/
def HandsOutAgain (x : Workshop Chore.Answer) (n : Nat) (chores : List Chore) (schedule : List Nat)
    (key : Bytes) (first second : Nat) : Prop :=
  ∃ before mid₁ l mid₂ after earlier later c new,
    schedule = before ++ first :: (mid₁ ++ l :: mid₂) ++ second :: after ∧
    (x.run before).IsAboutToHandOut first n (key, earlier) ∧
    chores[l]? = some c ∧ c.Puts key ∧
    (x.run (before ++ first :: mid₁)).IsAboutToWrite l n (.put key new) ∧
    (x.run (before ++ first :: (mid₁ ++ l :: mid₂))).IsAboutToHandOut second n (key, later)

namespace Chores

variable {d : Dictionary} {s : Striping} {x : Workshop Chore.Answer}
  {ks : List (Tenant Chore Chore.Answer)} {m : Contents} {i j : Nat} {key earlier later : Bytes}
  {before mid after after' : List Nat}

/-- Two hand-outs of a key, one after the other. -/
theorem handsOutAgain (h : Chores d s x ks m)
    (hfirst : (x.run before).IsAboutToHandOut i d.column (key, earlier))
    (hsecond : (x.run (before ++ i :: mid)).IsAboutToHandOut j d.column (key, later)) :
    x.HandsOutAgain d.column (ks.map (·.task)) (before ++ i :: mid ++ j :: after) key i j := by
  have hsome : (x.run (before ++ i :: mid)).stored d.column key ≠ none := by
    rw [hsecond.2]
    exact Option.some_ne_none _
  obtain ⟨mid₁, l, mid₂, c, value, rfl, hc, hputs, habout⟩ := h.exists_put hfirst.1 hsome
  exact ⟨before, mid₁, l, mid₂, after, earlier, later, c, value, rfl, hfirst, hc, hputs, habout,
    hsecond⟩

/-- Of two works that hand out a key in a run, one does so first. -/
theorem handsOutAgain_or (h : Chores d s x ks m) {before' schedule : List Nat} (hij : i ≠ j)
    (hi : schedule = before ++ i :: after) (hj : schedule = before' ++ j :: after')
    (hfirst : (x.run before).IsAboutToHandOut i d.column (key, earlier))
    (hsecond : (x.run before').IsAboutToHandOut j d.column (key, later)) :
    x.HandsOutAgain d.column (ks.map (·.task)) schedule key i j ∨
      x.HandsOutAgain d.column (ks.map (·.task)) schedule key j i := by
  -- Two hand-outs are two turns of the schedule, and one of them is the earlier one.
  obtain ⟨mid, rfl, hmid⟩ | ⟨mid, rfl, hmid⟩ :=
    List.append_eq_append_iff.mp (hi.symm.trans hj)
  · cases mid with
    | nil => exact absurd (List.cons.inj hmid).1 hij
    | cons i' mid =>
      obtain ⟨rfl, rfl⟩ := List.cons.inj hmid
      rw [hj]
      exact .inl (h.handsOutAgain hfirst hsecond)
  · cases mid with
    | nil => exact absurd (List.cons.inj hmid).1.symm hij
    | cons j' mid =>
      obtain ⟨rfl, rfl⟩ := List.cons.inj hmid
      rw [hi]
      exact .inr (h.handsOutAgain hsecond hfirst)

end Chores

end Workshop

/-- Run alone, a removal takes the smallest entry of the range, if there is one. -/
theorem Dictionary.run_removeFirst {d : Dictionary} {b : Backend} {w : World} (hb : b.IsIn w)
    (hrest : d.AtRest w) (range : KeyRange) (attempts : Nat) :
    ∃ first b', (d.removeFirst range (attempts + 1) : Work Empty _).run b = (.ok first, b') ∧
      (first = none ↔ ∀ key, range.contains key = true → w.now d.column key = none) ∧
      (∀ key value, first = some (key, value) → range.contains key = true ∧
        w.now d.column key = some value ∧ b'.engine.engine.newest d.column key = none ∧
        ∀ smaller, range.contains smaller = true → smaller < key →
          w.now d.column smaller = none) ∧
      ∀ key, first.map (·.1) ≠ some key →
        b'.engine.engine.newest d.column key = w.now d.column key := by
  have hshows : b.Shows d.column (w.now d.column) := ⟨w, hb, hrest.column, rfl⟩
  obtain ⟨entries, hlists⟩ := hshows.exists_lists range
  obtain ⟨b', hends, hb'⟩ := takes_removeFirst (ε := Empty) hrest hlists attempts b hb
  refine ⟨entries.head?, b', hends.run_eq, ?_⟩
  cases entries with
  | nil =>
    have hshows' : b'.Shows d.column (w.now d.column) := ⟨w, hb', hrest.column, rfl⟩
    refine ⟨⟨fun _ key hkey => ?_, fun _ => rfl⟩, nofun, fun key _ => hshows'.newest_eq key⟩
    refine Option.eq_none_iff_forall_ne_some.mpr fun value hvalue => ?_
    exact List.not_mem_nil ((hlists.mem_iff key value).mpr ⟨hkey, hvalue⟩)
  | cons e rest =>
    obtain ⟨key, value⟩ := e
    obtain ⟨hkey, hvalue⟩ := (hlists.mem_iff key value).mp List.mem_cons_self
    have hshows' : b'.Shows d.column ((w.now d.column).apply (.delete key)) :=
      ⟨w.commit d.column [.delete key], hb', hrest.column, by
        rw [World.now_commit, if_pos rfl]
        rfl⟩
    refine ⟨⟨nofun, fun hempty => ?_⟩, ?_, fun other hother => ?_⟩
    · cases (hempty key hkey).symm.trans hvalue
    · rintro _ _ ⟨⟩
      refine ⟨hkey, hvalue, (hshows'.newest_eq key).trans (if_pos rfl), ?_⟩
      -- The entries ascend, so there is none before the first.
      intro smaller hrange hlt
      refine Option.eq_none_iff_forall_ne_some.mpr fun value' hvalue' => ?_
      obtain heq | hmem := List.mem_cons.mp ((hlists.mem_iff smaller value').mpr ⟨hrange, hvalue'⟩)
      · rw [(Prod.mk.inj heq).1] at hlt
        exact List.lt_irrefl _ hlt
      · have hbehind : key < smaller := (List.pairwise_cons.mp hlists.sorted).1 _ hmem
        exact List.lt_irrefl _ (List.lt_trans hlt hbehind)
    · have hne : other ≠ key := fun heq => hother (congrArg some heq.symm)
      exact (hshows'.newest_eq other).trans (if_neg hne)

namespace Workshop

/-- **Every entry is handed out once.**  Removals of first entries run at the same time as each
other and as calls on single keys, on a dictionary that admits updates, with any stripes, under any
schedule, on an engine that works.

* A removal that ended with an entry has a key of its range, wrote nothing but the deletion of this
  key, and the key held the value just before that deletion.
* If two removals ended with the same key, somebody put or updated the key after one of them had
  handed it out and before the other one did.
* A removal does not break down, and it fails only after it went into as many stripes as it had
  attempts.
* Run alone, a removal ends with the smallest entry of the range and deletes it, and with none just
  if the range is empty; the other keys stay as they are. -/
theorem handed_out_once {d : Dictionary} {s : Striping} (hmode : d.mode = .allow)
    (hstriping : d.striping = some s) {options : Engine.Options} {e : Engine}
    (hreached : (Engine.new options).Evolves e) (hopen : e.isClosed = false)
    (hcolumn : d.column < e.columns.length) (snapshots : Snapshots) (chores : List Chore)
    (schedule : List Nat) :
    let b : Backend := ⟨.reliable e, snapshots, .idle s⟩
    let start := Workshop.start b (chores.map (·.work d))
    let x := start.run schedule
    (∀ (i : Nat) (range : KeyRange) (attempts : Nat) (key value : Bytes),
      chores[i]? = some (.removeFirst range attempts) →
      x.works[i]? = some (.finish (.done (.entry (some (key, value))))) →
      range.contains key = true ∧ x.writtenBy i = [(d.column, .delete key)] ∧
        ∃ before after, schedule = before ++ i :: after ∧
          (start.run before).IsAboutToHandOut i d.column (key, value)) ∧
    (∀ (i j : Nat) (range range' : KeyRange) (attempts attempts' : Nat) (key value value' : Bytes),
      i ≠ j → chores[i]? = some (.removeFirst range attempts) →
      chores[j]? = some (.removeFirst range' attempts') →
      x.works[i]? = some (.finish (.done (.entry (some (key, value))))) →
      x.works[j]? = some (.finish (.done (.entry (some (key, value'))))) →
      start.HandsOutAgain d.column chores schedule key i j ∨
        start.HandsOutAgain d.column chores schedule key j i) ∧
    (∀ (i : Nat) (range : KeyRange) (attempts : Nat),
      chores[i]? = some (.removeFirst range attempts) → x.works[i]? ≠ some (.finish .panicked) ∧
        ∀ failure, x.works[i]? = some (.finish (.failed failure)) →
          attempts ≤ (x.enteredBy i).length) ∧
    ∀ (range : KeyRange) (attempts : Nat), ∃ first b',
      (d.removeFirst range (attempts + 1) : Work Empty _).run b = (.ok first, b') ∧
      (first = none ↔ ∀ key, range.contains key = true → e.newest d.column key = none) ∧
      (∀ key value, first = some (key, value) → range.contains key = true ∧
        e.newest d.column key = some value ∧ b'.engine.engine.newest d.column key = none ∧
        ∀ smaller, range.contains smaller = true → smaller < key →
          e.newest d.column smaller = none) ∧
      ∀ key, first.map (·.1) ≠ some key →
        b'.engine.engine.newest d.column key = e.newest d.column key := by
  intro b start x
  obtain ⟨w, hb, hrest⟩ := exists_isIn hstriping hreached hopen hcolumn snapshots
  have hstart := Chores.start hmode hstriping hb hrest chores
  have htasks := Tenant.map_task_blank chores (w.now d.column) (·.work d)
  have htaken : ∀ (i : Nat) (range : KeyRange) (attempts : Nat) (key value : Bytes),
      chores[i]? = some (.removeFirst range attempts) →
      x.works[i]? = some (.finish (.done (.entry (some (key, value))))) → _ :=
    fun i range attempts key value hc hr =>
      hstart.handOut_of_finish (by simp [Posture.blank]) (htasks.symm ▸ hc) hr
  refine ⟨htaken, ?_, fun i range attempts hc => ?_, fun range attempts => ?_⟩
  · intro i j range range' attempts attempts' key value value' hij hi hj hri hrj
    obtain ⟨-, -, before, after, hbefore, hfirst⟩ := htaken i range attempts key value hi hri
    obtain ⟨-, -, before', after', hbefore', hsecond⟩ :=
      htaken j range' attempts' key value' hj hrj
    have hagain := hstart.handsOutAgain_or hij hbefore hbefore' hfirst hsecond
    rwa [htasks] at hagain
  · obtain ⟨ks, m, hsame, h⟩ := hstart.run schedule
    rw [htasks] at hsame
    exact Chores.attempts_le_of_failed h (hsame.symm ▸ hc)
  · have hnewest : e.newest d.column = w.now d.column :=
      funext (show b.Shows d.column _ from ⟨w, hb, hrest.column, rfl⟩).newest_eq
    rw [hnewest]
    exact Dictionary.run_removeFirst hb hrest range attempts

/-- Two removals find the same candidate.  The first one takes it while the second one waits for its
stripe; before the second one is let in, somebody puts a new value, which it takes. -/
theorem handed_out_once_contended :
    let scheme : Filter.Scheme :=
      ⟨fun key => (key.length.toUInt64, 0), fun _ => ⟨64, 1, by decide, by decide⟩⟩
    let created := ((Engine.new { scheme }).answer (.createColumn "queue")).2
    let e := (created.answer (.put 0 [1] [7])).2
    let d : Dictionary :=
      ⟨"queue", "db", "memory", 0, .allow, some ⟨4, fun _ => 6, by decide⟩, false, .testing⟩
    let chores : List Chore :=
      [.removeFirst .all 2, .removeFirst .all 2, .call (.put [1] [9] .previousValue)]
    let b : Backend := ⟨.reliable e, .empty, .idle ⟨4, fun _ => 6, by decide⟩⟩
    let start := start b (chores.map (·.work d))
    let schedule := [0, 0, 0, 1, 1, 1, 0, 0, 1, 1, 0, 0, 0, 2, 2, 2, 2, 2, 2, 1, 1, 1, 1]
    (start.run schedule).EndsWith [.done (.entry (some ([1], [7]))),
        .done (.entry (some ([1], [9]))), .done (.ofCall (.value none))] ∧
      (start.HandsOutAgain 0 chores schedule [1] 0 1 ∨
        start.HandsOutAgain 0 chores schedule [1] 1 0) := by
  intro scheme created e d chores b start schedule
  have hreached : (Engine.new { scheme }).Evolves e := .answer (.answer .refl _) _
  have h := handed_out_once (d := d) rfl rfl hreached (by rfl) (by decide) .empty chores schedule
  have hdone : (start.run schedule).EndsWith [.done (.entry (some ([1], [7]))),
      .done (.entry (some ([1], [9]))), .done (.ofCall (.value none))] := by decide +kernel
  exact ⟨hdone, h.2.1 0 1 .all .all 2 2 [1] [7] [9] (by decide) rfl rfl (hdone.finish rfl)
    (hdone.finish rfl)⟩

end Workshop

end SnapshotStore
