import SnapshotStore.Proofs.Database.Open
import SnapshotStore.Proofs.Pins.Streams

/-!
# Databases account for their pins

Between two operations of a database nothing of its own work holds a pin, so every pin of its engine
belongs to one of its live snapshots or to others (`Store.Accounts`).  Every operation keeps that.
Only three of them change the register of snapshots: taking a snapshot, releasing one, and closing,
which releases all.
-/

namespace SnapshotStore

variable {bad : EngineError → Prop} {others : Nat → Nat} {seen : List Nat} {α β ε : Type}

/-- A failure of the engine that is not a bad one is none under an operation either. -/
theorem Except.spares_mapError {r : Except EngineError α}
    (h : ∀ failure, r = .error failure → ¬ bad failure) (operation context : String) :
    Except.Spares bad (r.mapError (.ofEngine operation context)) := by
  intro e he
  cases r with
  | ok a => cases he
  | error failure =>
    obtain rfl : StoreError.ofEngine operation context failure = e := Except.error.inj he
    exact StoreError.spares_ofEngine (h failure rfl) operation context

/-! ## Runs of a few effects -/

namespace Work

/-- A call that is run alone answers what the engine does. -/
theorem run_call (operation context : String) (c : EngineCall) (b : Backend) :
    (call operation context c : Work Empty c.Answer).run b
      = ((b.engine.answer c).1.mapError (.ofEngine operation context),
          { b with engine := (b.engine.answer c).2 }) := by
  have hcall : (call operation context c : Work Empty c.Answer)
      = perform (.ask c) (orFail operation context) := rfl
  rw [hcall]
  simp only [Work.run, advance, advanceTo, Backend.answer?, Bool.false_eq_true, if_false]
  cases (b.engine.answer c).1 with
  | ok a => rfl
  | error failure => rfl

/-- A snapshot takes a number if the engine pinned something for it. -/
theorem run_takeSnapshot (engineName : String) (b : Backend) :
    (takeSnapshot engineName : Work Empty Token).run b
      = match (b.engine.answer .snapshot).1 with
        | .ok q => (.ok b.snapshots.nextId,
            ⟨(b.engine.answer .snapshot).2, (b.snapshots.register q).2, b.stripes⟩)
        | .error failure => (.error (.ofEngine "snapshot" engineName failure),
            { b with engine := (b.engine.answer .snapshot).2 }) := by
  have htake : (takeSnapshot engineName : Work Empty Token)
      = perform (.ask .snapshot) fun r =>
          (orFail "snapshot" engineName r).bind fun q => effect (.register q) := rfl
  rw [htake]
  simp only [Work.run, advance, advanceTo, Backend.answer?, Bool.false_eq_true, if_false]
  cases (b.engine.answer .snapshot).1 with
  | ok q => rfl
  | error failure => rfl

/-- A snapshot that is live is forgotten and unpinned. -/
theorem run_releaseSnapshot (t : Token) (b : Backend) :
    (releaseSnapshot t : Work Empty Unit).run b
      = match b.snapshots.sequence? t with
        | some q => (.ok (), ⟨b.engine.modify (·.unpin q), b.snapshots.forget t, b.stripes⟩)
        | none => (.error (.snapshotNotFound t), { b with snapshots := b.snapshots.forget t }) := by
  have hforget : (releaseSnapshot t : Work Empty Unit)
      = (effect (.forget t)).bind _ := rfl
  rw [hforget]
  simp only [effect, Work.bind, Work.run, advance, advanceTo, Backend.answer?, Bool.false_eq_true,
    if_false]
  cases b.snapshots.sequence? t with
  | some q => rfl
  | none => rfl

end Work

namespace Snapshots

variable {r : Snapshots} {t : Token} {q : Nat}

/-- Forgetting a snapshot leaves the sequences of the others. -/
theorem count_pinned_forget (hnodup : (r.live.map (·.1)).Nodup) (ht : r.sequence? t = some q)
    (s : Nat) : (r.forget t).pinned.count s + [q].count s = r.pinned.count s := by
  obtain ⟨before, after, hlive, hbefore⟩ := List.lookup_eq_some_iff.mp ht
  have hafter : ∀ x ∈ after, x.1 ≠ t := by
    rw [hlive, List.map_append, List.map_cons] at hnodup
    have hnotMem := (List.nodup_cons.mp (List.nodup_append.mp hnodup).2.1).1
    exact fun x hx heq => hnotMem (List.mem_map.mpr ⟨x, hx, heq⟩)
  have hfilter : (before ++ (t, q) :: after).filter (fun x => decide (x.1 ≠ t)) = before ++ after := by
    rw [List.filter_append, List.filter_cons_of_neg (by simp),
      List.filter_eq_self.mpr fun x hx => by simpa using Ne.symm (by simpa using hbefore x hx),
      List.filter_eq_self.mpr fun x hx => by simpa using hafter x hx]
  simp only [pinned, forget, hlive, hfilter, List.map_append, List.map_cons, List.count_append,
    List.count_cons, List.count_nil]
  omega

end Snapshots

namespace Store

/-- Every pin of the engine belongs to a live snapshot or to others, and no bad failure is
scheduled. -/
structure Accounts (bad : EngineError → Prop) (others : Nat → Nat) (s : Store) : Prop where
  /-- The pins of each sequence. -/
  pins : ∀ t, s.engine.engine.pinCount t = s.database.snapshots.pinned.count t + others t
  /-- No bad failure is scheduled. -/
  spares : s.engine.Spares bad

/-- The accounts are kept, the same snapshots are live, and the engine has evolved. -/
structure After (bad : EngineError → Prop) (others : Nat → Nat) (s s' : Store) : Prop where
  /-- The accounts are kept. -/
  accounts : s'.Accounts bad others
  /-- The same snapshots are live. -/
  snapshots_eq : s'.database.snapshots = s.database.snapshots
  /-- The engine has evolved. -/
  evolves : s.engine.engine.Evolves s'.engine.engine

/-- The operation keeps the accounts and the live snapshots, and fails by no bad failure. -/
def Op.Keeps (bad : EngineError → Prop) (others : Nat → Nat) (op : Op α) (s : Store) : Prop :=
  s.After bad others (op.run s).2 ∧ Except.Spares bad (op.run s).1

variable {s s' : Store} {d : Dictionary}

/-- Only how many pins belong to others matters. -/
theorem Accounts.congr {others' : Nat → Nat} (h : s.Accounts bad others)
    (hothers : ∀ t, others t = others' t) : s.Accounts bad others' := funext hothers ▸ h

/-- A store comes after itself. -/
theorem Accounts.after (h : s.Accounts bad others) : s.After bad others s := ⟨h, rfl, .refl⟩

/-- The accounts of a store are those of what its work runs on. -/
theorem Accounts.backend (h : s.Accounts bad others) (stripes : Stripes) :
    Backend.Accounts bad others s.engine.engine ⟨s.engine, s.database.snapshots, stripes⟩ [] :=
  ⟨fun t => by rw [h.pins, List.count_nil, Nat.zero_add], h.spares, .refl⟩

/-- Work that ends without pins leaves the accounts of the store right. -/
theorem accounts_of_backend {origin : Engine} {stripes : Stripes}
    (h : Backend.Accounts bad others origin ⟨s.engine, s.database.snapshots, stripes⟩ []) :
    s.Accounts bad others :=
  ⟨fun t => by rw [← Nat.zero_add (_ + _), ← Nat.add_assoc]; exact h.pins t, h.spares⟩

/-- What comes after a later store comes after the earlier one. -/
theorem After.trans {others' : Nat → Nat} {s'' : Store} (h : s.After bad others' s')
    (h' : s'.After bad others s'') :
    s.After bad others s'' :=
  ⟨h'.accounts, h'.snapshots_eq.trans h.snapshots_eq, h.evolves.trans h'.evolves⟩

/-! ## Putting operations together -/

namespace Op

/-- An answer alone keeps the accounts. -/
theorem keeps_pure (h : s.Accounts bad others) (a : α) : Keeps bad others (pure a : Op α) s :=
  ⟨h.after, nofun⟩

/-- So does a refusal that may be told. -/
theorem keeps_throw (h : s.Accounts bad others) {e : StoreError} (he : e.Spares bad) :
    Keeps bad others (throw e : Op α) s := by
  refine ⟨h.after, fun e' he' => ?_⟩
  obtain rfl : e = e' := Except.error.inj he'
  exact he

/-- Two operations keep the accounts one after the other. -/
theorem Keeps.bind {x : Op α} {f : α → Op β} (hx : x.Keeps bad others s)
    (hf : ∀ a s', s.After bad others s' → (f a).Keeps bad others s') :
    Keeps bad others (x >>= f) s := by
  obtain ⟨hafter, hspares⟩ := hx
  unfold Keeps
  rcases hrun : x.run s with ⟨r, s'⟩
  rw [hrun] at hafter hspares
  -- A failure ends both operations, and is the one that the first tells.
  cases r with
  | ok a =>
    rw [run_bind_of_ok hrun]
    obtain ⟨hafter', hspares'⟩ := hf a s' hafter
    exact ⟨hafter.trans hafter', hspares'⟩
  | error e =>
    rw [run_bind_of_error hrun]
    refine ⟨hafter, fun e' he' => hspares e' ?_⟩
    exact congrArg Except.error (Except.error.inj he')

/-- To look at the store first changes nothing. -/
theorem keeps_get_bind {f : Store → Op α} (h : (f s).Keeps bad others s) :
    Keeps bad others (get >>= f) s := by
  unfold Keeps
  rw [run_bind_of_ok run_get]
  exact h

/-- An operation goes on with a result that is there already. -/
theorem keeps_given_bind (h : s.Accounts bad others) {r : Except StoreError α} {f : α → Op β}
    (hr : Except.Spares bad r) (hf : ∀ a, r = .ok a → (f a).Keeps bad others s) :
    Keeps bad others ((ExceptT.mk (pure r) : Op α) >>= f) s := by
  unfold Keeps
  cases r with
  | ok a =>
    rw [run_bind_of_ok (x := ExceptT.mk (pure (.ok a))) (s := s) rfl]
    exact hf a rfl
  | error e =>
    rw [run_bind_of_error (x := ExceptT.mk (pure (.error e))) (s := s) rfl]
    refine ⟨h.after, fun e' he' => hr e' ?_⟩
    exact congrArg Except.error (Except.error.inj he')

/-- A closed database is told as such, which is no failure of the engine. -/
theorem keeps_checkOpen (h : s.Accounts bad others) : checkOpen.Keeps bad others s := by
  refine keeps_get_bind ?_
  split
  · exact keeps_throw h (by simp [StoreError.Spares, StoreError.source?])
  · exact keeps_pure h ()

end Op

/-! ## Work of a dictionary -/

/-- What runs on the backend of a dictionary keeps the accounts of the store. -/
theorem after_absorb {b : Backend} (hb : b.Accounts bad others s.engine.engine [])
    (hsnapshots : b.snapshots = s.database.snapshots) (p : Pool) :
    s.After bad others (s.absorb d p b) :=
  ⟨accounts_of_backend hb, hsnapshots, hb.evolves⟩

variable (hbad : ∀ failure, bad failure → failure.IsReleased)
include hbad

/-- Work that settles its pins keeps the accounts of the store. -/
theorem keeps_submit (h : s.Accounts bad others) {w : Work Empty α} {Q : α → List Nat → Prop}
    (hw : w.Settles bad [] Q [] seen) (hseen : Backend.Grants others s.database.snapshots seen) :
    (submit d w).Keeps bad others s := by
  obtain ⟨haccounts, hsnapshots, hspares⟩ := Pool.settles_run (p := s.database.pool)
    (b := s.backend d) hbad hw (h.backend _) hseen
  exact ⟨after_absorb haccounts hsnapshots _, hspares⟩

/-- So does such a step. -/
theorem keeps_submitStep (h : s.Accounts bad others) {step : Step α} (hstep : Pool.Settles bad step) :
    (submitStep d step).Keeps bad others s := by
  cases step with
  | ok w => exact keeps_submit hbad h hstep (Backend.grants_nil _)
  | error e => exact Op.keeps_throw h hstep

/-- So do such steps one after the other. -/
theorem keeps_runSteps (h : s.Accounts bad others) {steps : List (Step Unit)}
    (hsteps : ∀ step ∈ steps, Pool.Settles bad step) : (runSteps d steps).Keeps bad others s := by
  obtain ⟨haccounts, hsnapshots, hspares⟩ := Pool.settles_runSteps (p := s.database.pool)
    (b := s.backend d) hbad hsteps (h.backend _)
  exact ⟨after_absorb haccounts hsnapshots _, hspares⟩

/-- A call of the engine that pins nothing keeps the accounts. -/
theorem keeps_callEngine (h : s.Accounts bad others) {c : EngineCall} (hview : c.view = .latest)
    (hpins : ∀ r, Engine.pinnedBy c r = []) (operation context : String) :
    (callEngine operation context c).Keeps bad others s := by
  have hread : s.engine.engine.CanRead c.view := by
    rw [hview]
    trivial
  obtain ⟨hspares, haccounts⟩ := (h.backend []).ask hbad hread
  rw [hpins] at haccounts
  refine ⟨⟨accounts_of_backend haccounts, rfl, haccounts.evolves⟩,
    Except.spares_mapError (fun failure hfailure => ?_) operation context⟩
  have hanswer : (s.engine.answer c).1 = .error failure := hfailure
  rw [hanswer] at hspares
  exact hspares

omit hbad in
/-- Nothing lent is as if nobody had borrowed. -/
theorem accounts_lent_nil : s.Accounts bad (Backend.lent others []) ↔ s.Accounts bad others := by
  rw [show Backend.lent others [] = others from funext fun _ => rfl]

/-- A stream holds other pins when it was asked for items. -/
theorem accounts_pollMany {x : Stream ε} {held : List Nat} (n : Nat) (hx : x.Holds bad held)
    (h : s.Accounts bad (Backend.lent others held)) :
    ∃ held₁, (pollMany d n x s).1.2.2.Holds bad held₁ ∧
      s.After bad (Backend.lent others held₁) (pollMany d n x s).2 ∧
      ∀ item ∈ (pollMany d n x s).1.1, Except.Spares bad item := by
  have hb : (s.backend d).Accounts bad others s.engine.engine held :=
    Backend.Accounts.iff_lent.mpr (h.backend _)
  obtain ⟨held₁, hx₁, hb₁, hsnapshots, hitems⟩ := Stream.holds_pollMany (p := s.database.pool) hbad n
    hx hb
  exact ⟨held₁, hx₁, after_absorb (Backend.Accounts.iff_lent.mp hb₁) hsnapshots _, hitems⟩

/-- A stream that is dropped holds nothing any more. -/
theorem after_drop {x : Stream ε} {held : List Nat} (hx : x.Holds bad held)
    (h : s.Accounts bad (Backend.lent others held)) : s.After bad others (drop d x s).2 := by
  have hb : (s.backend d).Accounts bad others s.engine.engine held :=
    Backend.Accounts.iff_lent.mpr (h.backend _)
  obtain ⟨hb₁, hsnapshots⟩ := hx.drop (p := s.database.pool) hbad hb
  exact after_absorb hb₁ hsnapshots _

/-! ## Operations of a dictionary -/

/-- To replace a range keeps the accounts. -/
theorem keeps_setRange (h : s.Accounts bad others) (range : KeyRange) (entries : List Entry) :
    (setRange d range entries).Keeps bad others s :=
  keeps_runSteps hbad h (Dictionary.settles_replaceSteps range entries)

/-- To look for an entry keeps the accounts. -/
theorem keeps_isEmpty (h : s.Accounts bad others) (token : Option Token) (range : KeyRange) :
    (isEmpty d token range).Keeps bad others s :=
  (keeps_submit hbad h (Dictionary.settles_getFirst token) (Backend.grants_nil _)).bind
    fun _ _ hafter => Op.keeps_pure hafter.accounts _

/-- Jobs that settle their pins keep the accounts one after the other. -/
theorem keeps_submitAll (h : s.Accounts bad others) {ws : List (Work Empty α)}
    (hws : ∀ w ∈ ws, w.Settles bad [] (fun _ _ => True) [] seen)
    (hseen : Backend.Grants others s.database.snapshots seen) :
    (submitAll d ws).Keeps bad others s := by
  have hrun : s.After bad others ((ws.mapM fun w => (submit d w).run) s).2 ∧
      ∀ r ∈ ((ws.mapM fun w => (submit d w).run) s).1, Except.Spares bad r := by
    induction ws generalizing s with
    | nil => exact ⟨h.after, nofun⟩
    | cons w rest ih =>
      obtain ⟨hafter, hspares⟩ := keeps_submit (d := d) hbad h (hws w List.mem_cons_self) hseen
      obtain ⟨hafter', hspares'⟩ := ih hafter.accounts
        (fun v hv => hws v (List.mem_cons_of_mem _ hv)) (hafter.snapshots_eq ▸ hseen)
      rw [List.mapM_cons]
      refine ⟨hafter.trans hafter', fun r hr => ?_⟩
      rcases List.mem_cons.mp hr with rfl | hr
      · exact hspares
      · exact hspares' r hr
  refine ⟨hrun.1, fun e he => ?_⟩
  -- The first failure is the failure of one of the pieces.
  have hfirst : ∀ rs : List (Except StoreError α), (∀ r ∈ rs, Except.Spares bad r) →
      rs.mapM id = .error e → e.Spares bad := by
    intro rs hrs
    induction rs with
    | nil => exact fun h => nomatch h
    | cons r rest ih =>
      rw [List.mapM_cons]
      cases r with
      | error e' =>
        intro heq
        obtain rfl : e' = e := Except.error.inj heq
        exact hrs _ List.mem_cons_self e' rfl
      | ok a =>
        intro heq
        refine ih (fun r hr => hrs r (List.mem_cons_of_mem _ hr)) ?_
        cases hrest : rest.mapM id with
        | error e' =>
          rw [hrest] at heq
          exact congrArg Except.error (Except.error.inj heq)
        | ok as =>
          rw [hrest] at heq
          cases heq
  exact hfirst _ hrun.2 he

/-- To count the shards keeps the accounts, if the view is one that was seen. -/
theorem keeps_countShards (h : s.Accounts bad others) {view : ReadView} (hview : view.IsAmong seen)
    (hseen : Backend.Grants others s.database.snapshots seen) :
    (countShards d view).Keeps bad others s := by
  refine (keeps_submitAll hbad h (fun w hw => ?_) hseen).bind
    fun _ _ hafter => Op.keeps_pure hafter.accounts _
  obtain ⟨range, -, rfl⟩ := List.mem_map.mp hw
  exact Dictionary.settles_count hview none

/-- Pinning the newest state fails, or there is one more pin that has to be taken away. -/
theorem pin_cases (h : s.Accounts bad others) :
    (∃ e s', (submit d (Work.call "snapshot" d.engineName .snapshot)).run s = (.error e, s') ∧
        e.Spares bad ∧ s.After bad others s') ∨
      ∃ q s', (submit d (Work.call "snapshot" d.engineName .snapshot)).run s = (.ok q, s') ∧
        s.After bad (Backend.lent others [q]) s' := by
  have hb : (s.backend d).Accounts bad others s.engine.engine [] := h.backend _
  obtain ⟨hspares, haccounts⟩ := hb.ask (c := .snapshot) hbad trivial
  show (∃ e s', (((s.database.pool.run _ (s.backend d)).1,
    s.absorb d s.database.pool (s.database.pool.run _ (s.backend d)).2) = (Except.error e, s')) ∧ _) ∨
    ∃ q s', (((s.database.pool.run _ (s.backend d)).1,
      s.absorb d s.database.pool (s.database.pool.run _ (s.backend d)).2) = (Except.ok q, s')) ∧ _
  unfold Pool.run
  -- A closed pool refuses the job; an open one makes one call, which is struck or pins a sequence.
  split
  · exact .inl ⟨_, _, rfl, by simp [StoreError.Spares, StoreError.source?],
      after_absorb hb rfl s.database.pool⟩
  · rw [Work.run_call]
    cases hr : ((s.backend d).engine.answer .snapshot).1 with
    | error failure =>
      rw [hr] at hspares haccounts
      exact .inl ⟨_, _, rfl, StoreError.spares_ofEngine hspares "snapshot" d.engineName,
        after_absorb haccounts rfl s.database.pool⟩
    | ok q =>
      rw [hr] at haccounts
      exact .inr ⟨q, _, rfl, after_absorb (Backend.Accounts.iff_lent.mp haccounts) rfl
        s.database.pool⟩

omit hbad in
/-- Taking a pin of somebody else away. -/
theorem Accounts.unpin {q : Nat} (h : s.Accounts bad (Backend.lent others [q])) :
    s.After bad others { s with engine := s.engine.modify (·.unpin q) } := by
  have hunpin := (Backend.Accounts.iff_lent.mpr (h.backend [])).unpin List.mem_cons_self
  rw [List.erase_cons_head] at hunpin
  exact ⟨accounts_of_backend hunpin, rfl, hunpin.evolves⟩

/-- The pin of an exact size is gone when the size is there. -/
theorem keeps_exactSize (h : s.Accounts bad others) {view : ReadView} (hview : view.IsAmong seen)
    (hseen : Backend.Grants others s.database.snapshots seen) :
    (exactSize d view).Keeps bad others s := by
  cases view with
  | «at» q => exact keeps_countShards hbad h hview hseen
  | latest =>
    unfold Op.Keeps exactSize
    rcases pin_cases hbad (d := d) h with ⟨e, s', hrun, he, hafter⟩ | ⟨q, s', hrun, hafter⟩
    · rw [run_bind_of_error hrun]
      refine ⟨hafter, fun e' he' => ?_⟩
      obtain rfl : e = e' := Except.error.inj he'
      exact he
    · rw [run_bind_of_ok hrun]
      -- The size has pinned its own sequence, which is lent to the jobs that count and taken away
      -- behind them.
      have hamong : (ReadView.at q).IsAmong [q] := List.mem_singleton_self q
      obtain ⟨hcounted, hspares⟩ := keeps_countShards (d := d) hbad hafter.accounts hamong
        (Backend.grants_lent q _)
      exact ⟨(hafter.trans hcounted).trans hcounted.accounts.unpin, hspares⟩

/-- A quick size keeps the accounts. -/
theorem keeps_fastSize (h : s.Accounts bad others) {view : ReadView} (hview : view.IsAmong seen)
    (hseen : Backend.Grants others s.database.snapshots seen) :
    (fastSize d view).Keeps bad others s := by
  cases view with
  | latest =>
    exact keeps_submit hbad h (Work.settles_call (c := .estimate d.column) trivial (fun _ => rfl)
      "estimate" d.name) (Backend.grants_nil _)
  | «at» q => exact keeps_submit hbad h (Dictionary.settles_count hview _) hseen

/-- Every size keeps the accounts. -/
theorem keeps_size (h : s.Accounts bad others) (token : Option Token) (range : KeyRange)
    (fast : Bool) : (size d token range fast).Keeps bad others s := by
  refine Op.keeps_get_bind (Op.keeps_given_bind h (fun e he => Snapshots.spares_of_resolve he)
    fun view hview => ?_)
  -- A snapshot that is live pins what it shows.
  obtain ⟨seen, hamong, hseen⟩ : ∃ seen, view.IsAmong seen ∧
      Backend.Grants others s.database.snapshots seen := by
    cases view with
    | latest => exact ⟨[], trivial, Backend.grants_nil _⟩
    | «at» q =>
      refine ⟨[q], List.mem_singleton_self q, fun t ht => ?_⟩
      have hpos := List.count_pos_iff.mpr (Snapshots.mem_pinned_of_resolve hview)
      rw [List.mem_singleton.mp ht]
      omega
  split
  · split
    · exact keeps_fastSize hbad h hamong hseen
    · exact keeps_exactSize hbad h hamong hseen
  · exact keeps_submit hbad h (Dictionary.settles_count hamong none) hseen

/-! ## Operations of the database -/

/-- To open a dictionary keeps the accounts. -/
theorem keeps_dictionary (h : s.Accounts bad others) (name : String) (mode : UpdateMode) :
    (dictionary name mode).Keeps bad others s := by
  refine (Op.keeps_checkOpen h).bind fun _ s₁ h₁ => Op.keeps_get_bind ?_
  dsimp only
  split
  · split
    · exact Op.keeps_pure h₁.accounts _
    · exact Op.keeps_throw h₁.accounts (by simp [StoreError.Spares, StoreError.source?])
  · refine (keeps_callEngine hbad h₁.accounts rfl (fun _ => rfl) "open column" name).bind
      fun column s₂ h₂ => Op.keeps_get_bind ?_
    exact ⟨⟨⟨h₂.accounts.pins, h₂.accounts.spares⟩, rfl, .refl⟩, fun _ h => by cases h⟩

/-- A flush keeps the accounts. -/
theorem keeps_flush (h : s.Accounts bad others) : flush.Keeps bad others s :=
  (Op.keeps_checkOpen h).bind fun _ _ h₁ => Op.keeps_get_bind
    (keeps_callEngine hbad h₁.accounts rfl (fun _ => rfl) "flush" _)

omit hbad in
/-- A closed database fails its check. -/
theorem run_checkOpen_of_closed (hclosed : s.database.isClosed = true) :
    checkOpen.run s = (.error .closed, s) := by
  unfold checkOpen
  rw [run_bind_of_ok run_get, if_pos hclosed]
  rfl

omit hbad in
/-- An open database passes its check. -/
theorem run_checkOpen_of_open (hopen : s.database.isClosed = false) :
    checkOpen.run s = (.ok (), s) := by
  unfold checkOpen
  rw [run_bind_of_ok run_get, if_neg (by simp [hopen])]
  rfl

/-- A snapshot is not taken, or it gets the next number. -/
theorem takeSnapshot_cases (h : s.Accounts bad others) :
    (∃ e s', takeSnapshot.run s = (.error e, s') ∧ e.Spares bad ∧ s.After bad others s') ∨
      ∃ q s', takeSnapshot.run s = (.ok s.database.snapshots.nextId, s') ∧
        (s.engine.answer .snapshot).1 = .ok q ∧ s'.Accounts bad others ∧
        s'.database.snapshots = (s.database.snapshots.register q).2 ∧
        s.engine.engine.Evolves s'.engine.engine := by
  have hclosed : StoreError.closed.Spares bad := by simp [StoreError.Spares, StoreError.source?]
  unfold takeSnapshot
  cases hopen : s.database.isClosed with
  | true =>
    rw [run_bind_of_error (run_checkOpen_of_closed hopen)]
    exact .inl ⟨_, _, rfl, hclosed, h.after⟩
  | false =>
    rw [run_bind_of_ok (run_checkOpen_of_open hopen), run_bind_of_ok run_get]
    unfold submitPlain Pool.run
    rw [ExceptT.run_mk]
    cases s.database.pool.isClosed with
    | true => exact .inl ⟨_, _, rfl, hclosed, h.after⟩
    | false =>
      obtain ⟨hspares, haccounts⟩ := (h.backend []).ask (c := .snapshot) hbad trivial
      simp only [Bool.false_eq_true, if_false, Work.run_takeSnapshot]
      cases hr : (s.engine.answer .snapshot).1 with
      | error failure =>
        simp only [hr] at hspares haccounts ⊢
        exact .inl ⟨_, _, rfl, StoreError.spares_ofEngine hspares _ _, accounts_of_backend haccounts,
          rfl, haccounts.evolves⟩
      | ok q =>
        simp only [hr] at haccounts ⊢
        refine .inr ⟨q, _, rfl, rfl, ⟨fun t => ?_, haccounts.spares⟩, rfl, haccounts.evolves⟩
        -- The pin that the work held is now that of the registered snapshot.
        have hpins := haccounts.pins t
        simp only [Engine.pinnedBy, Snapshots.pinned, Snapshots.register, List.map_append,
          List.map_cons, List.map_nil, List.count_append, List.count_nil] at hpins ⊢
        omega

omit hbad in
/-- A snapshot that is released was live, and its sequence has one pin less. -/
theorem releaseSnapshot_cases (h : s.Accounts bad others)
    (hnodup : (s.database.snapshots.live.map (·.1)).Nodup) (t : Token) :
    (∃ e s', (releaseSnapshot t).run s = (.error e, s') ∧ e.Spares bad ∧ s.After bad others s') ∨
      ∃ q s', (releaseSnapshot t).run s = (.ok (), s') ∧
        s.database.snapshots.sequence? t = some q ∧ s'.Accounts bad others ∧
        s'.database.snapshots = s.database.snapshots.forget t ∧
        s.engine.engine.Evolves s'.engine.engine := by
  unfold releaseSnapshot submitPlain Pool.run
  rw [ExceptT.run_mk]
  cases s.database.pool.isClosed with
  | true =>
    exact .inl ⟨_, _, rfl, by simp [StoreError.Spares, StoreError.source?], h.after⟩
  | false =>
    simp only [Bool.false_eq_true, if_false, Work.run_releaseSnapshot]
    cases ht : s.database.snapshots.sequence? t with
    | none =>
      rw [Snapshots.forget_of_not_live ht]
      exact .inl ⟨_, _, rfl, by simp [StoreError.Spares, StoreError.source?], h.after⟩
    | some q =>
      -- The pin goes from the snapshot to the release, which takes it away.
      have hheld : Backend.Accounts bad others s.engine.engine
          ⟨s.engine, s.database.snapshots.forget t, []⟩ [q] := by
        refine ⟨fun u => ?_, h.spares, .refl⟩
        have hpins := h.pins u
        have hforget := Snapshots.count_pinned_forget hnodup ht u
        dsimp only
        omega
      have hunpin := hheld.unpin List.mem_cons_self
      rw [List.erase_cons_head] at hunpin
      exact .inr ⟨q, _, rfl, rfl, accounts_of_backend hunpin, rfl, hunpin.evolves⟩

omit hbad in
/-- Taking the pins of all live snapshots away. -/
theorem Accounts.releaseAll (h : s.Accounts bad others) :
    s.releaseAll.Accounts bad others ∧ s.engine.engine.Evolves s.releaseAll.engine.engine := by
  -- Each live snapshot gives its pin back in turn, so that none is left in the end.
  have hfold : ∀ (live : List (Token × Nat)) (b : Backend),
      b.Accounts bad others s.engine.engine (live.map (·.2)) →
      Backend.Accounts bad others s.engine.engine
        { b with engine := b.engine.modify fun e => live.foldl (fun e x => e.unpin x.2) e } [] := by
    intro live
    induction live with
    | nil => exact fun _ hb => hb
    | cons x rest ih =>
      intro b hb
      have hunpin := hb.unpin List.mem_cons_self
      rw [List.map_cons, List.erase_cons_head] at hunpin
      exact ih _ hunpin
  have hreleased := hfold s.database.snapshots.live ⟨s.engine, ⟨s.database.snapshots.nextId, []⟩, []⟩
    ⟨fun u => by
      have hpins := h.pins u
      simp only [Snapshots.pinned, List.map_nil, List.count_nil] at hpins ⊢
      omega, h.spares, .refl⟩
  exact ⟨accounts_of_backend hreleased, hreleased.evolves⟩

/-- Closing releases all snapshots, unless the database is closed already. -/
theorem close_cases (h : s.Accounts bad others) :
    (close.run s).2.Accounts bad others ∧ Except.Spares bad (close.run s).1 ∧
      s.engine.engine.Evolves (close.run s).2.engine.engine ∧
      ((close.run s).2.database.snapshots = s.database.snapshots ∨
        (close.run s).2.database.snapshots = ⟨s.database.snapshots.nextId, []⟩) := by
  unfold close
  rw [run_bind_of_ok run_get]
  cases hclosed : s.database.isClosed with
  | true => exact ⟨h, nofun, .refl, .inl rfl⟩
  | false =>
    -- Closing marks the database and its pool first, which changes no pin.
    have hclosing : Store.Accounts bad others ⟨s.engine, { s.database with
        isClosed := true
        pool := if s.database.ownsPool then s.database.pool.close else s.database.pool }⟩ :=
      ⟨h.pins, h.spares⟩
    obtain ⟨hreleased, hevolves⟩ := hclosing.releaseAll
    obtain ⟨hafter, hspares⟩ := keeps_callEngine (c := .flush) hbad hreleased rfl (fun _ => rfl) "flush"
      s.database.name
    exact ⟨⟨hafter.accounts.pins, hafter.accounts.spares⟩, hspares,
      (hevolves.trans hafter.evolves).close, .inr hafter.snapshots_eq⟩

end Store

end SnapshotStore
