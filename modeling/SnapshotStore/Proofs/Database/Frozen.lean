import SnapshotStore.Proofs.Database.Refinement

/-!
# Snapshots stay as they are

A snapshot shows what the maps were when it was taken, until it is released; from then on it is not
there, and never will be again.  On plain maps this is a matter of the numbers: a copy is made under
a number that no copy had before (`PlainStore.Numbered`), and nothing but its release touches it.
The refinement carries it over to databases, together with the answers of whole scripts.
-/

namespace SnapshotStore

namespace PlainStore

variable {p : PlainStore} {t : Token} {maps : String → PlainMap}

/-- The copies have numbers that were given before. -/
def Numbered (p : PlainStore) : Prop := ∀ copy ∈ p.frozen, copy.1 < p.nextId

/-- There is no copy under a number, and there will be none. -/
structure IsGone (p : PlainStore) (t : Token) : Prop where
  /-- There is no copy. -/
  lookup_eq : p.frozen.lookup t = none
  /-- The number was given before. -/
  lt : t < p.nextId

/-- What an operation may do to the copies. -/
inductive Handles (p : PlainStore) (act : Act) (p' : PlainStore) : Prop where
  /-- Nothing. -/
  | nothing (hfrozen : p'.frozen = p.frozen) (hid : p'.nextId = p.nextId)
  /-- A copy is made under the next number. -/
  | copies (hfrozen : p'.frozen = p.frozen ++ [(p.nextId, p.now)]) (hid : p'.nextId = p.nextId + 1)
  /-- The copy under a number is given up. -/
  | releases (t : Token) (hact : act = .releaseSnapshot t)
      (hfrozen : p'.frozen = p.frozen.filter (·.1 ≠ t)) (hid : p'.nextId = p.nextId)

/-- An operation of a dictionary does not touch the copies. -/
theorem frozen_op (name : String) (mode : UpdateMode) (op : DictionaryOp) :
    (op.plain name mode p).2.frozen = p.frozen ∧ (op.plain name mode p).2.nextId = p.nextId := by
  cases op with
  | getMany token keys sure limit =>
    simp only [DictionaryOp.plain]
    split <;> exact ⟨rfl, rfl⟩
  | update key f sure => cases mode <;> exact ⟨rfl, rfl⟩
  | replaceRange range entries limit =>
    simp only [DictionaryOp.plain]
    split <;> exact ⟨rfl, rfl⟩
  | removeFirst range =>
    simp only [DictionaryOp.plain]
    split <;> exact ⟨rfl, rfl⟩
  | _ => exact ⟨rfl, rfl⟩

/-- An operation makes at most one copy, or gives up at most one. -/
theorem handles_plain (act : Act) : p.Handles act (act.plain p).2 := by
  cases act with
  | opening name mode =>
    simp only [Act.plain]
    split
    · split <;> exact .nothing rfl rfl
    · exact .nothing rfl rfl
  | on name op =>
    simp only [Act.plain]
    split
    · exact .nothing (frozen_op ..).1 (frozen_op ..).2
    · exact .nothing rfl rfl
  | takeSnapshot => exact .copies rfl rfl
  | releaseSnapshot t =>
    simp only [Act.plain]
    split
    · exact .releases t rfl rfl rfl
    · exact .nothing rfl rfl
  | flush => exact .nothing rfl rfl

/-- At first there are no copies. -/
theorem numbered_empty (config : Config) : (empty config).Numbered := by
  simp [Numbered, empty]

/-- A new copy has a number that is given then, and the others keep theirs. -/
theorem Numbered.plain (h : p.Numbered) (act : Act) : (act.plain p).2.Numbered := by
  intro copy hcopy
  cases handles_plain (p := p) act with
  | nothing hfrozen hid =>
    rw [hfrozen] at hcopy
    exact hid ▸ h copy hcopy
  | copies hfrozen hid =>
    rw [hfrozen] at hcopy
    rw [hid]
    rcases List.mem_append.mp hcopy with hcopy | hcopy
    · exact Nat.lt_succ_of_lt (h copy hcopy)
    · rw [List.mem_singleton.mp hcopy]
      exact Nat.lt_succ_self _
  | releases t hact hfrozen hid =>
    rw [hfrozen] at hcopy
    exact hid ▸ h copy (List.mem_of_mem_filter hcopy)

/-- A number that is not used yet has no copy. -/
theorem Numbered.lookup_eq_none (h : p.Numbered) (ht : p.nextId ≤ t) : p.frozen.lookup t = none :=
  List.lookup_eq_none_iff.mpr fun copy hcopy => by
    have hne : t ≠ copy.1 := Nat.ne_of_gt (Nat.lt_of_lt_of_le (h copy hcopy) ht)
    simpa using hne

/-- A token that is gone does not come back. -/
theorem IsGone.plain (h : p.IsGone t) (act : Act) : (act.plain p).2.IsGone t := by
  cases handles_plain (p := p) act with
  | nothing hfrozen hid => exact ⟨hfrozen ▸ h.lookup_eq, hid ▸ h.lt⟩
  | copies hfrozen hid =>
    have hlt := h.lt
    refine ⟨?_, hid ▸ Nat.lt_succ_of_lt hlt⟩
    have hne : (t == p.nextId) = false := by simpa using Nat.ne_of_lt hlt
    rw [hfrozen, List.lookup_append, h.lookup_eq]
    simp [List.lookup_cons, hne]
  | releases t' hact hfrozen hid =>
    refine ⟨?_, hid ▸ h.lt⟩
    rw [hfrozen]
    exact List.lookup_eq_none_iff.mpr fun copy hcopy =>
      List.lookup_eq_none_iff.mp h.lookup_eq copy (List.mem_of_mem_filter hcopy)

/-- A copy stays until it is released. -/
theorem lookup_plain (h : p.frozen.lookup t = some maps) {act : Act}
    (hact : act ≠ .releaseSnapshot t) : (act.plain p).2.frozen.lookup t = some maps := by
  cases handles_plain (p := p) act with
  | nothing hfrozen hid => exact hfrozen ▸ h
  | copies hfrozen hid =>
    rw [hfrozen, List.lookup_append, h]
    rfl
  | releases t' hact' hfrozen hid =>
    have hne : t ≠ t' := fun heq => hact (heq ▸ hact')
    rw [hfrozen, List.lookup_filter_ne hne]
    exact h

/-- A new copy is under the next number. -/
theorem Numbered.lookup_takeSnapshot (h : p.Numbered) :
    (Act.takeSnapshot.plain p).2.frozen.lookup p.nextId = some p.now := by
  show (p.frozen ++ [(p.nextId, p.now)]).lookup p.nextId = some p.now
  rw [List.lookup_append, h.lookup_eq_none (Nat.le_refl _)]
  simp

/-- A copy that is given up is gone. -/
theorem Numbered.isGone_releaseSnapshot (h : p.Numbered)
    (hdone : ((Act.releaseSnapshot t).plain p).1 = .done) :
    ((Act.releaseSnapshot t).plain p).2.IsGone t := by
  simp only [Act.plain] at hdone ⊢
  cases ht : p.frozen.lookup t with
  | none => simp [ht] at hdone
  | some maps =>
    have hlt : t < p.nextId := by
      by_contra hge
      simp [h.lookup_eq_none (Nat.le_of_not_lt hge)] at ht
    refine ⟨List.lookup_eq_none_iff.mpr fun copy hcopy => ?_, hlt⟩
    simpa using Ne.symm (by simpa using (List.mem_filter.mp hcopy).2 : ¬ copy.1 = t)

end PlainStore

/-- What every operation of a script keeps holds after the script. -/
theorem replies_induction {σ : Type} {step : Act → σ → Reply × σ} {P : σ → Prop} {script : List Act}
    (hstep : ∀ s, ∀ act ∈ script, P s → P (step act s).2) {s : σ} (h : P s) :
    P (replies step script s).2 := by
  induction script generalizing s with
  | nil => exact h
  | cons act rest ih =>
    exact ih (fun s act hact => hstep s act (List.mem_cons_of_mem _ hact))
      (hstep s act List.mem_cons_self h)

namespace Store

variable {s : Store} {p : PlainStore} {t : Token} {maps : String → PlainMap} {name : String}

/-- Every read at a snapshot answers from given maps. -/
structure Shows (s : Store) (t : Token) (maps : String → PlainMap) : Prop where
  /-- One key is read. -/
  get : ∀ name, (s.database.find? name).isSome → ∀ key sure,
    ((Act.on name (.get (some t) key sure)).run s).1 = .value ((maps name).get key)
  /-- Many keys are read. -/
  getMany : ∀ name, (s.database.find? name).isSome → ∀ keys sure limit,
    ((Act.on name (.getMany (some t) keys sure limit)).run s).1
      = .cut .values limit (keys.map fun key => .ok (key, (maps name).get key))

/-- Every read at a snapshot and every release of it fails because the snapshot is not there. -/
structure HasNo (s : Store) (t : Token) : Prop where
  /-- The snapshot is released. -/
  releaseSnapshot :
    ((Act.releaseSnapshot t).run s).1 = .refused (.snapshotNotFound t)
  /-- One key is read. -/
  get : ∀ name, (s.database.find? name).isSome → ∀ key sure,
    ((Act.on name (.get (some t) key sure)).run s).1 = .refused (.snapshotNotFound t)
  /-- Many keys are read. -/
  getMany : ∀ name, (s.database.find? name).isSome → ∀ keys sure limit, ∃ items isEnd,
    ((Act.on name (.getMany (some t) keys sure limit)).run s).1 = .values items isEnd ∧
      (∀ x ∈ items, x = .error (.snapshotNotFound t)) ∧ (keys ≠ [] → 0 < limit → items ≠ [])

/-- A store and plain maps answer all further scripts alike. -/
def Matches (s : Store) (p : PlainStore) : Prop := p.Numbered ∧ ∃ w, s.Refines p w

namespace Matches

/-- One act is answered alike, and leaves store and maps alike. -/
theorem step (h : s.Matches p) (act : Act) :
    (act.run s).1 = (act.plain p).1 ∧ (act.run s).2.Matches (act.plain p).2 := by
  obtain ⟨hnumbered, w, href⟩ := h
  obtain ⟨hreply, hnext⟩ := href.alike_act act
  exact ⟨hreply, hnumbered.plain act, hnext⟩

/-- A script is answered alike, act by act. -/
theorem run (h : s.Matches p) (script : List Act) :
    (replies Act.run script s).1 = (replies Act.plain script p).1 ∧
      (replies Act.run script s).2.Matches (replies Act.plain script p).2 :=
  replies_eq_of_step (fun _ _ act hmatches => hmatches.step act) script h

/-- A dictionary that is open in the store is open in the plain store. -/
theorem exists_mode (h : s.Matches p) (hname : (s.database.find? name).isSome) :
    ∃ mode, p.mode? name = some mode := by
  obtain ⟨-, w, href⟩ := h
  obtain ⟨d, hd⟩ := Option.isSome_iff_exists.mp hname
  exact ⟨d.mode, by rw [href.mode?_eq, hd]; rfl⟩

/-- Reads at a number with a copy answer from the copy. -/
theorem shows (h : s.Matches p) (ht : p.frozen.lookup t = some maps) : s.Shows t maps where
  get name hname key sure := by
    obtain ⟨mode, hmode⟩ := h.exists_mode hname
    rw [(h.step _).1]
    simp [Act.plain, hmode, DictionaryOp.plain, PlainStore.shown, ht, Reply.of]
  getMany name hname keys sure limit := by
    obtain ⟨mode, hmode⟩ := h.exists_mode hname
    rw [(h.step _).1]
    simp [Act.plain, hmode, DictionaryOp.plain, PlainStore.shown, ht]

/-- Reads and releases at a number without a copy fail. -/
theorem hasNo (h : s.Matches p) (ht : p.frozen.lookup t = none) : s.HasNo t where
  releaseSnapshot := by
    rw [(h.step _).1]
    simp [Act.plain, ht]
  get name hname key sure := by
    obtain ⟨mode, hmode⟩ := h.exists_mode hname
    rw [(h.step _).1]
    simp [Act.plain, hmode, DictionaryOp.plain, PlainStore.shown, ht, Reply.of]
  getMany name hname keys sure limit := by
    obtain ⟨mode, hmode⟩ := h.exists_mode hname
    have hreply : ((Act.on name (.getMany (some t) keys sure limit)).plain p).1
        = .cut .values limit ((p.keyWindows keys).map fun _ => .error (.snapshotNotFound t)) := by
      simp [Act.plain, hmode, DictionaryOp.plain, PlainStore.shown, ht]
    rw [(h.step _).1, hreply]
    refine ⟨_, _, rfl, fun x hx => ?_, fun hkeys hlimit hnil => ?_⟩
    · obtain ⟨window, -, rfl⟩ := List.mem_map.mp (List.mem_of_mem_take hx)
      rfl
    · -- The windows of some keys join to these keys, so there is one.
      have hflatten : (p.keyWindows keys).flatten = keys := flatten_windows _ _
      rcases List.take_eq_nil_iff.mp hnil with hzero | hwindows
      · exact absurd hzero (Nat.ne_of_gt hlimit)
      · rw [List.map_eq_nil_iff.mp hwindows] at hflatten
        exact hkeys hflatten.symm

end Matches

end Store

/-- A database that is created is empty. -/
theorem Database.create_eq_ok {name engineName : String} {config : Config} {pool : Option Pool}
    {db : Database} (hcreate : create name engineName config pool = .ok db) :
    ∃ poolName, db =
      { name, engineName, config
        pool := pool.getD (.new poolName config.maxConcurrentOps config.maxConcurrentScans)
        ownsPool := pool.isNone
        snapshots := .empty
        dictionaries := []
        isClosed := false } := by
  unfold create at hcreate
  cases hcheck : config.check with
  | error e =>
    rw [hcheck] at hcreate
    cases hcreate
  | ok u =>
    rw [hcheck] at hcreate
    cases hcreate
    exact ⟨_, rfl⟩

/-- A database that nobody has worked with, whatever its choices. -/
structure Database.IsNew (db : Database) : Prop where
  /-- No snapshot was taken. -/
  snapshots_eq : db.snapshots = .empty
  /-- No dictionary is open. -/
  dictionaries_eq : db.dictionaries = []
  /-- The database is open. -/
  isClosed_eq : db.isClosed = false
  /-- Its pool starts work. -/
  pool : db.pool.IsReady

namespace Database

/-- A database that is created is new. -/
theorem isNew_create {name engineName : String} {config : Config} {pool : Option Pool}
    {db : Database} (hcreate : create name engineName config pool = .ok db)
    (hpool : ∀ p ∈ pool, p.IsReady) : db.IsNew ∧ db.config = config := by
  obtain ⟨poolName, rfl⟩ := create_eq_ok hcreate
  refine ⟨⟨rfl, rfl, rfl, ?_⟩, rfl⟩
  cases pool with
  | none => exact Pool.isReady_new _ _ _
  | some p => exact hpool p rfl

/-- A new database on a new engine is in the empty world. -/
theorem IsNew.isIn {db : Database} (h : db.IsNew) (options : Engine.Options) :
    Store.IsIn ⟨.reliable (.new options), db⟩ ⟨.empty, [], .empty, []⟩ := by
  have hdictionaries : ∀ e, e ∉ db.dictionaries := by simp [h.dictionaries_eq]
  refine ⟨?_, h.isClosed_eq, h.pool, ?_, fun e he => absurd he (hdictionaries e),
    fun e he => absurd he (hdictionaries e)⟩
  · exact ⟨rfl, Engine.agrees_new options, Engine.covers_new options,
      Engine.counts_new options, rfl, rfl, h.snapshots_eq, rfl⟩
  · rw [h.dictionaries_eq]
    exact List.nodup_nil

/-- It matches the plain store without dictionaries. -/
theorem matches_create {name engineName : String} {config : Config} {pool : Option Pool}
    {db : Database} (hcreate : create name engineName config pool = .ok db)
    (hpool : ∀ p ∈ pool, p.IsReady) (options : Engine.Options) :
    Store.Matches ⟨.reliable (.new options), db⟩ (.empty config) := by
  obtain ⟨hnew, hconfig⟩ := isNew_create hcreate hpool
  refine ⟨PlainStore.numbered_empty config, _, hnew.isIn options, PlainStore.mirrors_empty config,
    hconfig.symm, ?_⟩
  rw [hnew.dictionaries_eq]
  rfl

end Database

/-- **A database refines plain maps with frozen copies.**  All answers of a script are those of
plain maps.  After any script, a snapshot shows the maps of the moment in which it was taken,
whatever else is done, until it is released; and once it is released it is not there any more, for
ever. -/
theorem Database.refines_plain_maps {name engineName : String} {config : Config}
    {pool : Option Pool} {db : Database} (hcreate : create name engineName config pool = .ok db)
    (hpool : ∀ p ∈ pool, p.IsReady) (options : Engine.Options) (script : List Act) :
    let s := replies Act.run script ⟨.reliable (.new options), db⟩
    let p := replies Act.plain script (.empty config)
    s.1 = p.1 ∧
      (∀ t later, (Act.takeSnapshot.run s.2).1 = .token t → .releaseSnapshot t ∉ later →
        (replies Act.run (.takeSnapshot :: later) s.2).2.Shows t p.2.now) ∧
      ∀ t later, ((Act.releaseSnapshot t).run s.2).1 = .done →
        (replies Act.run (.releaseSnapshot t :: later) s.2).2.HasNo t := by
  intro s p
  obtain ⟨hreplies, hmatches⟩ := (matches_create hcreate hpool options).run script
  -- The copies say it for the plain store; what matches the plain store after `later` answers so.
  refine ⟨hreplies, fun t later htaken hlater => ?_, fun t later hreleased => ?_⟩
  · obtain ⟨htoken, htake⟩ := hmatches.step .takeSnapshot
    obtain rfl : p.2.nextId = t := Reply.token.inj (htoken.symm.trans htaken)
    refine (htake.run later).2.shows ?_
    exact replies_induction (P := fun q : PlainStore => q.frozen.lookup p.2.nextId = some p.2.now)
      (fun q act hact hq => PlainStore.lookup_plain hq fun heq => hlater (heq ▸ hact))
      hmatches.1.lookup_takeSnapshot
  · obtain ⟨hdone, hrelease⟩ := hmatches.step (.releaseSnapshot t)
    have hgone := hmatches.1.isGone_releaseSnapshot (hdone.symm.trans hreleased)
    refine (hrelease.run later).2.hasNo ?_
    exact (replies_induction (P := fun q : PlainStore => q.IsGone t)
      (fun q act _ hq => hq.plain act) hgone).lookup_eq

/-- A snapshot that is read after an update and a clearing, and after its release. -/
theorem Database.refines_plain_maps_of_clear :
    (replies Act.run
      [.opening "a" .allow, .on "a" (.put [1] [10] .previousValue), .takeSnapshot,
        .on "a" (.update [1] (fun _ => some (some [20])) false), .on "a" .clear,
        .on "a" (.get (some 1) [1] false), .on "a" (.get none [1] false), .releaseSnapshot 1,
        .on "a" (.get (some 1) [1] false)]
      ⟨.reliable (.new (engineOptions .testing)), {
        name := "db"
        engineName := "memory"
        config := .testing
        pool := .new "db-storage" Config.testing.maxConcurrentOps Config.testing.maxConcurrentScans
        ownsPool := true
        snapshots := .empty
        dictionaries := []
        isClosed := false }⟩).1
      = [.done, .value none, .token 1, .updated (.ok ⟨some [10], some [20]⟩) 1, .done,
        .value (some [10]), .value none, .done, .refused (.snapshotNotFound 1)] :=
  (@refines_plain_maps "db" "memory" .testing none _ rfl (by simp) _ _).1.trans (by rfl)

end SnapshotStore
