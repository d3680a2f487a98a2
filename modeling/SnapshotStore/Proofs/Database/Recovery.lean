import SnapshotStore.Proofs.Database.Frozen
import SnapshotStore.Proofs.Footprint.Store
import SnapshotStore.Proofs.Pins.Host

/-!
# Databases recover from failures

Any call of an engine may fail, and an operation may then end half done.  Its locks and its permit
are given back nevertheless, the pins of the engine are those of the live snapshots, and what is
stored is what some batches made of it.  So once the engine works again, the database is one that
plain maps with frozen copies mirror (`Store.Recovers.exists_refines`), as if it had never failed.
All requests but closing keep this, and go on with writes that they may do
(`Store.Recovers.request`).
-/

namespace SnapshotStore

/-! ## Plain maps for a world -/

/-- Every state of a column is one of a plain map. -/
theorem History.exists_plainMap (h : History) (k column : Nat) :
    ∃ m : PlainMap, m.get = h.contents k column := by
  refine @contents_induction [] h column (fun c => ∃ m : PlainMap, m.get = c) (fun k => ?_) ?_ k
  · rw [contents_eq_empty (by simp)]
    exact ⟨.empty, rfl⟩
  · rintro b - - op - c ⟨m, rfl⟩
    exact ⟨m.apply op, m.get_apply op⟩

namespace PlainStore

/-- A world whose snapshots are of the past and pinned is one that plain maps mirror. -/
theorem exists_mirrors {w : World} (config : Config) (modes : List (String × UpdateMode))
    (hpast : ∀ x ∈ w.snapshots.live, x.2 ≤ w.ledger.history.length)
    (hpinned : w.snapshots.pinned.Subperm w.pins) :
    ∃ p : PlainStore, p.config = config ∧ p.modes = modes ∧ p.Mirrors w := by
  choose m hm using w.ledger.history.exists_plainMap
  refine ⟨⟨config, modes, fun name => m w.ledger.history.length (w.columnOf name),
    w.snapshots.live.map fun x => (x.1, fun name => m x.2 (w.columnOf name)),
    w.snapshots.nextId⟩, rfl, rfl, fun name => hm _ _, ?_, rfl, hpinned⟩
  rw [List.forall₂_map_left_iff, List.forall₂_same]
  exact fun x hx => ⟨rfl, hpast x hx, fun name => hm _ _⟩

/-- A copy shows what a live snapshot shows. -/
theorem Mirrors.exists_live {p : PlainStore} {w : World} (h : p.Mirrors w)
    {copy : Token × (String → PlainMap)} (hcopy : copy ∈ p.frozen) :
    ∃ x ∈ w.snapshots.live, Shows w copy x := by
  have hfrozen := h.frozen
  revert hcopy
  generalize p.frozen = copies at hfrozen
  generalize w.snapshots.live = live at hfrozen
  intro hcopy
  induction hfrozen with
  | nil => cases hcopy
  | cons hshows _ ih =>
    rcases List.mem_cons.mp hcopy with rfl | hcopy
    · exact ⟨_, List.mem_cons_self, hshows⟩
    · obtain ⟨x, hx, hshows⟩ := ih hcopy
      exact ⟨x, List.mem_cons_of_mem _ hx, hshows⟩

end PlainStore

/-! ## Stores that recover -/

/-- What a request may write. -/
def Request.footprint (db : Database) : Request → Permit
  | act (.on name op) => fun n _ =>
      op.readsAt? = none ∧ ∃ d, db.find? name = some d ∧ n = d.column
  | nested name stem layout _ => fun n o =>
      ∃ A, db.nested? name stem layout = some (.ok A) ∧ A.footprint n o
  | _ => fun _ _ => False

namespace Store

/-- The store with an engine whose calls do not fail any more. -/
def mend (s : Store) : Store := ⟨.reliable s.engine.engine, s.database⟩

/-- To mend the engine does not touch the database. -/
theorem database_mend (s : Store) : s.mend.database = s.database := rfl

/-- The store after requests, one after the other. -/
def after (s : Store) (script : List Request) : Store :=
  script.foldl (fun s r => (r.run s).2) s

/-- With an engine that works the store is one that nobody works on, and its pins are those of its
live snapshots. -/
structure Recovers (s : Store) (w : World) : Prop where
  /-- The store is in the world. -/
  isIn : s.mend.IsIn w
  /-- The pins are accounted for. -/
  accounts : s.Accounts (fun _ => False) fun _ => 0
  /-- The numbers of the snapshots were given out one after the other. -/
  numbers : ∃ issued released, s.database.snapshots.Numbers issued released

variable {s s' : Store} {w w' : World} {may : Permit} {name : String} {d : Dictionary}
  {stem : Bytes} {layout : KeyLayout} {A : SubMap} {r : Request}

/-- A dictionary is found by its name among those that are open. -/
theorem find?_eq_some (hd : s.database.find? name = some d) :
    d.name = name ∧ d ∈ s.database.dictionaries.map (·.1) := by
  obtain ⟨e, he, rfl⟩ := Option.map_eq_some_iff.mp hd
  exact ⟨by simpa using List.find?_some he,
    List.mem_map.mpr ⟨e, List.mem_of_find?_eq_some he, rfl⟩⟩

/-- A nested map that there is belongs to the dictionary and is where its stem says. -/
theorem nested?_eq_some (h : s.database.nested? name stem layout = some (.ok A)) :
    s.database.find? name = some A.dictionary ∧ A.stem = stem ∧ A.layout = layout ∧ A.Selects := by
  obtain ⟨d, hd, hnew⟩ := Option.map_eq_some_iff.mp h
  obtain ⟨hdictionary, hstem, hlayout, hA⟩ := SubMap.new_eq_ok hnew
  exact ⟨hdictionary ▸ hd, hstem, hlayout, hA⟩

/-- Who keeps the dictionaries keeps the nested maps. -/
theorem Keeps.nested?_eq (h : s.Keeps s') (name : String) (stem : Bytes) (layout : KeyLayout) :
    s'.database.nested? name stem layout = s.database.nested? name stem layout := by
  rw [Database.nested?, Database.nested?, h.find?_eq]

/-- A store whose engine works is as it is. -/
theorem IsIn.mend_eq (h : s.IsIn w) : s.mend = s := by
  rw [mend, ← h.backend.engine_eq]

/-- So a store that plain maps mirror stays as it is when its engine is mended. -/
theorem Matches.mend {p : PlainStore} (h : s.Matches p) : s.mend.Matches p := by
  obtain ⟨hnumbered, w, hrefines⟩ := h
  rw [hrefines.isIn.mend_eq]
  exact ⟨hnumbered, w, hrefines⟩

/-- A dictionary is found by its own name. -/
theorem find?_name (hd : s.database.find? name = some d) :
    ∀ d' ∈ [d], s.database.find? d'.name = some d' := by
  intro d' hd'
  rw [List.mem_singleton.mp hd', (find?_eq_some hd).1]
  exact hd

/-- A store whose engine went on, and which is otherwise as it was. -/
theorem IsIn.goesOn (h : s.mend.IsIn w) (hgoes : s.GoesOn may s')
    (hevolves : s.engine.engine.Evolves s'.engine.engine) :
    ∃ w', w.ledger.GoesOn may w'.ledger ∧ s'.mend.IsIn w' := by
  obtain ⟨l', hl', ha'⟩ := hgoes.engine w.ledger h.backend.agrees
  have hdatabase : s'.mend.database
      = { s.database with snapshots := s'.database.snapshots } := hgoes.keeps
  refine ⟨⟨l', s'.engine.engine.pins, s'.database.snapshots, []⟩, hl', ?_, ?_, ?_, ?_, ?_, ?_⟩
  · exact ⟨rfl, ha', hevolves.covers h.backend.covers, hevolves.counts h.backend.counts,
      hl'.isOpen_eq.trans h.backend.isOpen, rfl, rfl, rfl⟩
  · exact hdatabase ▸ h.isClosed_eq
  · exact hdatabase ▸ h.pool
  · exact hdatabase ▸ h.nodup
  · rw [hdatabase]
    exact fun e he => (h.isOpened e he).mono hl'.names
  · exact hdatabase ▸ h.stripes_eq

/-- A dictionary is opened as with an engine that works, unless the engine fails. -/
theorem mend_dictionary (s : Store) (name : String) (mode : UpdateMode) :
    ((dictionary name mode).run s).2.mend = s.mend ∨
      ((dictionary name mode).run s).2.mend = ((dictionary name mode).run s.mend).2 := by
  unfold dictionary
  cases hclosed : s.database.isClosed with
  | true =>
    rw [run_bind_of_error (run_checkOpen_of_closed hclosed)]
    exact .inl rfl
  | false =>
    rw [run_bind_of_ok (run_checkOpen_of_open hclosed), run_bind_of_ok run_get]
    cases hd : s.database.find? name with
    | some d =>
      simp only [hd]
      split <;> exact .inl rfl
    | none =>
      have hmend : s.mend.database.find? name = none := hd
      rw [run_bind_of_ok (@run_checkOpen_of_open s.mend hclosed), run_bind_of_ok run_get]
      simp only [hd, hmend]
      have hrun : ∀ s : Store, (callEngine "open column" name (.createColumn name)).run s
          = ((s.engine.answer (.createColumn name)).1.mapError (.ofEngine "open column" name),
            { s with engine := (s.engine.answer (.createColumn name)).2 }) := fun _ => rfl
      obtain ⟨faults, -, ⟨failure, -, hanswer⟩ | hanswer⟩ :=
        s.engine.answer_cases (.createColumn name)
      · -- The failure leaves the engine as it was.
        rw [run_bind_of_error ((hrun s).trans (by rw [hanswer]; rfl))]
        exact .inl rfl
      · have hworks : s.mend.engine.answer (.createColumn name)
            = ((s.engine.engine.answer (.createColumn name)).1,
              .reliable (s.engine.engine.answer (.createColumn name)).2) := rfl
        refine .inr ?_
        -- Unstruck, the call answers as that of the mended engine.
        cases hcolumn : (s.engine.engine.answer (.createColumn name)).1 with
        | error failure =>
          rw [run_bind_of_error ((hrun s).trans (by rw [hanswer, hcolumn]; rfl)),
            run_bind_of_error ((hrun s.mend).trans (by rw [hworks, hcolumn]; rfl))]
          rfl
        | ok column =>
          rw [run_bind_of_ok ((hrun s).trans (by rw [hanswer, hcolumn]; rfl)),
            run_bind_of_ok ((hrun s.mend).trans (by rw [hworks, hcolumn]; rfl))]
          rfl

namespace Recovers

/-- A request keeps the accounts of the pins. -/
theorem keeps (h : s.Recovers w) (r : Request) : r.Keeps (fun _ => False) (fun _ => 0) s := by
  obtain ⟨issued, released, hnumbers⟩ := h.numbers
  exact r.keeps (fun _ hbad => hbad.elim) h.accounts hnumbers.nodup

/-- Between requests nobody holds a stripe. -/
theorem isIdle (h : s.Recovers w) : s.IsIdle := ⟨h.isIn.nodup, h.isIn.stripes_eq⟩

/-- A request leaves the register of snapshots and the pins in order. -/
theorem of_isIn (h : s.Recovers w) (hin : (r.run s).2.mend.IsIn w') : (r.run s).2.Recovers w' := by
  obtain ⟨haccounts, -, hmoves, -⟩ := h.keeps r
  obtain ⟨issued, released, hnumbers⟩ := h.numbers
  exact ⟨hin, haccounts, _, _, hnumbers.moves hmoves⟩

/-- A request that confines what it writes. -/
theorem goesOn (h : s.Recovers w) (hgoes : s.GoesOn may (r.run s).2) :
    ∃ w', w.ledger.GoesOn may w'.ledger ∧ (r.run s).2.Recovers w' := by
  obtain ⟨w', hw', hin⟩ := h.isIn.goesOn hgoes (h.keeps r).evolves
  exact ⟨w', hw', h.of_isIn hin⟩

/-- What operations on open dictionaries confine is confined here. -/
theorem confined (h : s.Recovers w) {x : StateM Store Reply} {ds : List Dictionary}
    (hx : Confines may ds x) (hds : ∀ d ∈ ds, s.database.find? d.name = some d) :
    s.GoesOn may (x s).2 :=
  hx s w.ledger h.isIn.backend.agrees h.isIdle hds

/-- A dictionary that is opened gets a column, and nothing is written. -/
theorem opening (h : s.Recovers w) (name : String) (mode : UpdateMode) :
    ∃ w', w.ledger.GoesOn (fun _ _ => False) w'.ledger ∧
      ((Request.act (.opening name mode)).run s).2.Recovers w' := by
  have hrun : ((Request.act (.opening name mode)).run s).2 = ((dictionary name mode).run s).2 := rfl
  rcases s.mend_dictionary name mode with hsame | hopened
  · exact ⟨w, w.ledger.goesOn_refl _, h.of_isIn (by rw [hrun, hsame]; exact h.isIn)⟩
  · cases hd : s.mend.database.find? name with
    | some d =>
      rw [h.isIn.run_dictionary_of_find? hd mode] at hopened
      exact ⟨w, w.ledger.goesOn_refl _, h.of_isIn (by rw [hrun, hopened]; exact h.isIn)⟩
    | none =>
      obtain ⟨d, s', hdictionary, hin, -⟩ := h.isIn.run_dictionary_of_none hd mode
      rw [hdictionary] at hopened
      exact ⟨_, w.ledger.goesOn_call (c := .createColumn name) (by simp [EngineCall.writes]),
        h.of_isIn (by rw [hrun, hopened]; exact hin)⟩

/-- A request that neither closes the database nor opens a dictionary confines what it writes. -/
theorem goesOn_request (h : s.Recovers w) (hr : r ≠ .close)
    (hopening : ∀ name mode, r ≠ .act (.opening name mode)) :
    s.GoesOn (r.footprint s.database) (r.run s).2 := by
  have hnothing : (r.run s).2 = s → s.GoesOn (r.footprint s.database) (r.run s).2 :=
    fun hsame => hsame.symm ▸ goesOn_refl _ s
  cases r with
  | close => exact absurd rfl hr
  | nested name stem layout op =>
    cases hnested : s.database.nested? name stem layout with
    | none => exact hnothing (by simp only [Request.run, hnested])
    | some made =>
      cases made with
      | error e => exact hnothing (by simp only [Request.run, hnested])
      | ok A =>
        obtain ⟨hd, -, -, hA⟩ := nested?_eq_some hnested
        have hgoes := h.confined (op.confines hA List.mem_cons_self) (find?_name hd)
        refine GoesOn.mono ?_ fun n o (ho : A.footprint n o) => ⟨A, hnested, ho⟩
        simpa only [Request.run, hnested] using hgoes
  | act a =>
    have hnone : ∀ d ∈ ([] : List Dictionary), s.database.find? d.name = some d := by simp
    cases a with
    | opening name mode => exact absurd rfl (hopening name mode)
    | takeSnapshot => exact h.confined (confines_answer .token confines_takeSnapshot) hnone
    | releaseSnapshot token =>
      exact h.confined (confines_answer (fun _ => .done) (confines_releaseSnapshot token)) hnone
    | flush => exact h.confined (confines_answer (fun _ => .done) confines_flush) hnone
    | on name op =>
      cases hd : s.database.find? name with
      | none => exact hnothing (by simp only [Request.run, Act.run, hd])
      | some d =>
        -- An operation only reads, or it may change its own column as it likes.
        have hmay : op.readsAt?.isSome ∨
            ∀ o, (Request.act (.on name op)).footprint s.database d.column o := by
          cases hreads : op.readsAt? with
          | some view => exact .inl rfl
          | none => exact .inr fun _ => ⟨hreads, d, hd, rfl⟩
        have hgoes := h.confined (DictionaryOp.confines List.mem_cons_self hmay) (find?_name hd)
        simpa only [Request.run, Act.run, hd] using hgoes

/-- **A request goes on with writes that it may do**, whatever fails, and the store recovers from
it. -/
theorem request (h : s.Recovers w) (hr : r ≠ .close) :
    ∃ w', w.ledger.GoesOn (r.footprint s.database) w'.ledger ∧ (r.run s).2.Recovers w' := by
  by_cases hopening : ∃ name mode, r = .act (.opening name mode)
  · obtain ⟨name, mode, rfl⟩ := hopening
    exact h.opening name mode
  · exact h.goesOn (h.goesOn_request hr fun name mode heq => hopening ⟨name, mode, heq⟩)

/-- An operation of a dictionary leaves it open, and the store recovers from it. -/
theorem on (h : s.Recovers w) (hd : s.database.find? name = some d) (op : DictionaryOp) :
    ∃ w', ((Act.on name op).run s).2.Recovers w' ∧
      ((Act.on name op).run s).2.database.find? name = some d := by
  obtain ⟨w', -, h'⟩ := h.request (r := .act (.on name op)) (by simp)
  have hkeeps := (h.goesOn_request (r := .act (.on name op)) (by simp) (by simp)).keeps
  exact ⟨w', h', (hkeeps.find?_eq name).trans hd⟩

/-- With an engine that works, the backend of a dictionary is in the world. -/
theorem backend_isIn (h : s.Recovers w) (hd : s.database.find? name = some d) :
    (s.backend d).mend.IsIn (w.seenBy d) := h.isIn.backend_isIn hd

/-- Between requests every dictionary is at rest. -/
theorem atRest (h : s.Recovers w) (hd : s.database.find? name = some d) :
    d.AtRest (w.seenBy d) := (h.isIn.find?_eq hd).2.1.atRest

/-- The pool serves. -/
theorem isReady (h : s.Recovers w) : s.database.pool.IsReady := h.isIn.pool

/-- A request changes nothing of the database but its snapshots and its dictionaries. -/
theorem database_request (h : s.Recovers w) (hr : r ≠ .close) :
    ∃ snapshots dictionaries,
      (r.run s).2.database = { s.database with snapshots, dictionaries } := by
  by_cases hopening : ∃ name mode, r = .act (.opening name mode)
  · obtain ⟨name, mode, rfl⟩ := hopening
    have hrun : ((Request.act (.opening name mode)).run s).2.database
        = ((dictionary name mode).run s).2.mend.database := rfl
    rw [hrun]
    rcases s.mend_dictionary name mode with hsame | hopened
    · exact ⟨_, _, (congrArg database hsame).trans s.database_mend⟩
    · rw [hopened]
      cases hd : s.mend.database.find? name with
      | some d => exact ⟨_, _, by rw [h.isIn.run_dictionary_of_find? hd mode]; rfl⟩
      | none =>
        obtain ⟨d, s', hdictionary, -, hdatabase, -⟩ := h.isIn.run_dictionary_of_none hd mode
        exact ⟨_, _, by rw [hdictionary, hdatabase]; rfl⟩
  · have hkeeps := (h.goesOn_request hr fun name mode heq => hopening ⟨name, mode, heq⟩).keeps
    exact ⟨_, _, hkeeps⟩

/-- A store recovers from requests one after the other, which leave the other choices of the
database alone. -/
theorem after (h : s.Recovers w) {script : List Request} (hscript : .close ∉ script) :
    (∃ w', (s.after script).Recovers w') ∧ ∃ snapshots dictionaries,
      (s.after script).database = { s.database with snapshots, dictionaries } := by
  induction script generalizing s w with
  | nil => exact ⟨⟨w, h⟩, _, _, rfl⟩
  | cons r rest ih =>
    rw [List.mem_cons, not_or] at hscript
    obtain ⟨w', -, h'⟩ := h.request (Ne.symm hscript.1)
    obtain ⟨hrecovers, snapshots, dictionaries, hafter⟩ := ih h' hscript.2
    obtain ⟨_, _, hfirst⟩ := h.database_request (Ne.symm hscript.1)
    refine ⟨hrecovers, snapshots, dictionaries, hafter.trans ?_⟩
    rw [hfirst]

/-- **A store that recovers is one that plain maps mirror.** -/
theorem exists_refines (h : s.Recovers w) : ∃ p, p.Numbered ∧ s.mend.Refines p w := by
  have hsnapshots : w.snapshots = s.database.snapshots := h.isIn.backend.snapshots_eq.symm
  have hpins : w.pins = s.engine.engine.pins := h.isIn.backend.pins_eq.symm
  have hcount : ∀ q, w.snapshots.pinned.count q = w.pins.count q := fun q => by
    rw [hsnapshots, hpins]
    exact (h.accounts.pins q).symm
  -- What a snapshot shows is pinned, so it is no later than now.
  have hpast : ∀ x ∈ w.snapshots.live, x.2 ≤ w.ledger.history.length := by
    intro x hx
    have hpinned : x.2 ∈ w.pins := List.count_pos_iff.mp
      (hcount x.2 ▸ List.count_pos_iff.mpr (List.mem_map_of_mem hx))
    have hle := h.isIn.backend.agrees.represents.pins_le x.2 (hpins ▸ hpinned)
    exact h.isIn.sequence_eq ▸ hle
  obtain ⟨p, hconfig, hmodes, hmirrors⟩ := PlainStore.exists_mirrors s.database.config
    (s.database.dictionaries.map fun e => (e.1.name, e.1.mode)) hpast
    (List.subperm_ext_iff.mpr fun q _ => (hcount q).le)
  obtain ⟨issued, released, hnumbers⟩ := h.numbers
  refine ⟨p, fun copy hcopy => ?_, h.isIn, hmirrors, hconfig, hmodes⟩
  obtain ⟨x, hx, hshows⟩ := hmirrors.exists_live hcopy
  rw [hsnapshots] at hx
  have hissued := (hnumbers.live x.1 (List.mem_map_of_mem hx)).1
  rw [hnumbers.issued_eq, List.mem_range'_1, Nat.add_comm] at hissued
  rw [hshows.token_eq, hmirrors.nextId, hsnapshots, hnumbers.nextId_eq]
  exact hissued.2

/-- So it answers like plain maps as soon as its engine works. -/
theorem exists_matches (h : s.Recovers w) : ∃ p, s.mend.Matches p := by
  obtain ⟨p, hnumbered, hrefines⟩ := h.exists_refines
  exact ⟨p, hnumbered, w, hrefines⟩

end Recovers

end Store

namespace Database

/-- A new database recovers, whatever failures are scheduled. -/
theorem IsNew.recovers {db : Database} (h : db.IsNew) (options : Engine.Options)
    (faults : List Fault) : Store.Recovers ⟨⟨.new options, faults⟩, db⟩ ⟨.empty, [], .empty, []⟩ := by
  refine ⟨h.isIn options, ⟨fun q => ?_, fun _ _ => id⟩, [], [], ?_⟩
  · rw [h.snapshots_eq]
    rfl
  · rw [h.snapshots_eq]
    exact Snapshots.numbers_empty

/-- Whatever was done to it and whatever failed, it answers like plain maps as soon as its engine
works. -/
theorem IsNew.exists_matches {db : Database} (h : db.IsNew) (options : Engine.Options)
    (faults : List Fault) {script : List Request} (hscript : .close ∉ script) :
    ∃ p, (Store.after ⟨⟨.new options, faults⟩, db⟩ script).mend.Matches p := by
  obtain ⟨⟨w, hrecovers⟩, -⟩ := (h.recovers options faults).after hscript
  exact hrecovers.exists_matches

/-- A new database recovers from whatever faults are to come. -/
theorem recovers_create {name engineName : String} {config : Config} {pool : Option Pool}
    {db : Database} (hcreate : create name engineName config pool = .ok db)
    (hpool : ∀ p ∈ pool, p.IsReady) (options : Engine.Options) (faults : List Fault) :
    Store.Recovers ⟨⟨.new options, faults⟩, db⟩ ⟨.empty, [], .empty, []⟩ :=
  (isNew_create hcreate hpool).1.recovers options faults

end Database

end SnapshotStore
