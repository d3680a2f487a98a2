import SnapshotStore.Proofs.Pins.Host

/-!
# Databases that share engines account for their pins

At any moment every pin of an engine belongs to a live snapshot of one of its databases, to a stream
that runs, or to a size that is being counted (`Traffic.Accounts`).  Every command keeps that
(`Traffic.Accounts.step`).  So when nothing runs, a sequence has as many pins as there are snapshots
that show it (`Traffic.pins_accounted`).
-/

namespace SnapshotStore

namespace Traffic

variable {bad : EngineError → Prop} {x : Traffic} {i k n : Nat}

/-! ## What callers saw -/

/-- Streams and counts are of databases that exist, registers know their numbers, and nobody saw a
bad failure. -/
structure IsSound (bad : EngineError → Prop) (x : Traffic) : Prop where
  /-- A stream is of a database on its engine. -/
  streams : ∀ f ∈ x.streams, ∃ db, x.host.databases[f.database]? = some (f.engine, db)
  /-- A count is of a database on its engine. -/
  counts : ∀ c ∈ x.counts, ∃ db, x.host.databases[c.database]? = some (c.engine, db)
  /-- The registers gave out and took back what callers saw. -/
  numbers : ∀ (i n : Nat) (db : Database), x.host.databases[i]? = some (n, db) →
    db.snapshots.Numbers (x.issued i) (x.released i)
  /-- Nobody saw an answer of a database that does not exist. -/
  fresh : ∀ i, x.host.databases[i]? = none → x.issued i = [] ∧ x.released i = []
  /-- Nobody saw a bad failure. -/
  spares : ∀ e ∈ x.failures, e.Spares bad

/-- A database that is replaced by another one on the same engine is still there. -/
private theorem exists_getElem?_set {databases : List (Nat × Database)} {n : Nat} {db : Database}
    (hdb : databases[i]? = some (n, db)) (db' : Database) {j m : Nat}
    (hj : ∃ db, databases[j]? = some (m, db)) : ∃ db, (databases.set i (n, db'))[j]? = some (m, db) := by
  obtain ⟨db₁, hj⟩ := hj
  by_cases hij : i = j
  · subst hij
    obtain ⟨rfl, -⟩ := Prod.mk.inj (Option.some.inj (hdb.symm.trans hj))
    exact ⟨db', List.getElem?_set_self (List.getElem?_eq_some_iff.mp hdb).1⟩
  · exact ⟨db₁, by rw [List.getElem?_set_ne hij, hj]⟩

variable {db db' : Database} {log : List Event} {streams : List Flight}
  {counts : List Count}

/-- A database carried something out, and callers saw some events of it. -/
theorem IsSound.on (h : x.IsSound bad) (events : List Event) (hdb : x.host.databases[i]? = some (n, db))
    {taken given : Option Token} (hmoves : db.snapshots.Moves taken given db'.snapshots)
    (htaken : events.filterMap (·.issued? i) = taken.toList)
    (hgiven : events.filterMap (·.released? i) = given.toList)
    (hothers : ∀ j, j ≠ i → events.filterMap (·.issued? j) = [] ∧ events.filterMap (·.released? j) = [])
    (hspares : ∀ event ∈ events, ∀ e ∈ event.failures, e.Spares bad)
    (hlog : log = x.log ++ events)
    (hstreams : ∀ f ∈ streams, ∃ db, x.host.databases[f.database]? = some (f.engine, db))
    (hcounts : ∀ c ∈ counts, ∃ db, x.host.databases[c.database]? = some (c.engine, db))
    (engines : List FaultyEngine) :
    IsSound bad ⟨⟨engines, x.host.databases.set i (n, db')⟩, streams, counts, log⟩ := by
  subst hlog
  have hi : i < x.host.databases.length := (List.getElem?_eq_some_iff.mp hdb).1
  refine ⟨fun f hf => exists_getElem?_set hdb db' (hstreams f hf),
    fun c hc => exists_getElem?_set hdb db' (hcounts c hc), fun j m db₁ hj => ?_, fun j hj => ?_,
    fun e he => ?_⟩
  · rw [issued, released, List.filterMap_append, List.filterMap_append]
    -- The events are those of one database, so the numbers of the others stay.
    by_cases hij : i = j
    · subst hij
      obtain ⟨rfl, rfl⟩ := Prod.mk.inj (Option.some.inj ((List.getElem?_set_self hi).symm.trans hj))
      rw [htaken, hgiven]
      exact (h.numbers i n db hdb).moves hmoves
    · obtain ⟨hnone, hnone'⟩ := hothers j (Ne.symm hij)
      rw [hnone, hnone', List.append_nil, List.append_nil]
      exact h.numbers j m db₁ ((List.getElem?_set_ne hij).symm.trans hj)
  · have hij : i ≠ j := by
      rintro rfl
      simp [List.getElem?_set_self hi] at hj
    obtain ⟨hnone, hnone'⟩ := hothers j (Ne.symm hij)
    rw [issued, released, List.filterMap_append, List.filterMap_append, hnone, hnone', List.append_nil,
      List.append_nil]
    exact h.fresh j ((List.getElem?_set_ne hij).symm.trans hj)
  · obtain ⟨event, hevent, he⟩ := List.mem_flatMap.mp he
    rcases List.mem_append.mp hevent with hevent | hevent
    · exact h.spares e (List.mem_flatMap.mpr ⟨event, hevent, he⟩)
    · exact hspares event hevent e he

/-- A database carried something out that leaves its snapshots as they are, and callers saw at most
failures. -/
theorem IsSound.quiet (h : x.IsSound bad) (events : List Event)
    (hdb : x.host.databases[i]? = some (n, db)) (hlive : db'.snapshots = db.snapshots)
    (hevents : ∀ event ∈ events, ∃ failures : List StoreError, event = .showed failures ∧
      ∀ e ∈ failures, e.Spares bad)
    (hlog : log = x.log ++ events)
    (hstreams : ∀ f ∈ streams, ∃ db, x.host.databases[f.database]? = some (f.engine, db))
    (hcounts : ∀ c ∈ counts, ∃ db, x.host.databases[c.database]? = some (c.engine, db))
    (engines : List FaultyEngine) :
    IsSound bad ⟨⟨engines, x.host.databases.set i (n, db')⟩, streams, counts, log⟩ := by
  have hissued : ∀ j, events.filterMap (·.issued? j) = [] := fun j => by
    refine List.filterMap_eq_nil_iff.mpr fun event hevent => ?_
    obtain ⟨_, rfl, -⟩ := hevents event hevent
    rfl
  have hreleased : ∀ j, events.filterMap (·.released? j) = [] := fun j => by
    refine List.filterMap_eq_nil_iff.mpr fun event hevent => ?_
    obtain ⟨_, rfl, -⟩ := hevents event hevent
    rfl
  have hkept : db.snapshots.Moves none none db'.snapshots := by
    rw [hlive]
    exact .kept
  refine h.on events hdb hkept (hissued i) (hreleased i) (fun j _ => ⟨hissued j, hreleased j⟩)
    (fun event hevent e he => ?_) hlog hstreams hcounts engines
  obtain ⟨_, rfl, hspares⟩ := hevents event hevent
  exact hspares e he

/-! ## Pins abroad -/

/-- The pins of a sequence that streams and counts hold. -/
def abroad (flights : List (Flight × List Nat)) (counts : List Count) (n s : Nat) : Nat :=
  (flights.map fun f => if f.1.engine = n then f.2.count s else 0).sum +
    (counts.map fun c => if c.engine = n then [c.sequence].count s else 0).sum

variable {flights : List (Flight × List Nat)} {f f' : Flight} {c : Count} {held held' : List Nat}

/-- What one stream holds, besides what is held otherwise. -/
theorem abroad_eq_flight (hk : flights[k]? = some (f, held)) (m s : Nat) :
    abroad flights counts m s
      = abroad (flights.eraseIdx k) counts m s + if f.engine = m then held.count s else 0 := by
  have hsum := List.sum_map_eraseIdx (f := fun f : Flight × List Nat =>
    if f.1.engine = m then f.2.count s else 0) hk
  dsimp only at hsum
  unfold abroad
  omega

/-- A stream that is replaced by another one changes what it holds itself. -/
theorem abroad_set (hk : flights[k]? = some (f, held)) (m s : Nat) :
    abroad (flights.set k (f', held')) counts m s
      = abroad (flights.eraseIdx k) counts m s + if f'.engine = m then held'.count s else 0 := by
  rw [abroad_eq_flight (List.getElem?_set_self (List.getElem?_eq_some_iff.mp hk).1),
    List.eraseIdx_set_eq]

/-- What one count holds, besides what is held otherwise. -/
theorem abroad_eq_count (hk : counts[k]? = some c) (m s : Nat) :
    abroad flights counts m s
      = abroad flights (counts.eraseIdx k) m s + if c.engine = m then [c.sequence].count s else 0 := by
  have hsum := List.sum_map_eraseIdx (f := fun c : Count =>
    if c.engine = m then [c.sequence].count s else 0) hk
  unfold abroad
  omega

/-- A stream that was just asked for holds nothing. -/
theorem abroad_append_flight (f : Flight) (m s : Nat) :
    abroad (flights ++ [(f, [])]) counts m s = abroad flights counts m s := by
  simp [abroad]

/-- A count that starts holds one pin. -/
theorem abroad_append_count (c : Count) (m s : Nat) :
    abroad flights (counts ++ [c]) m s
      = abroad flights counts m s + if c.engine = m then [c.sequence].count s else 0 := by
  simp [abroad, Nat.add_assoc]

/-! ## Accounts -/

/-- Every pin belongs to a live snapshot, to a stream or to a count. -/
structure Accounts (bad : EngineError → Prop) (x : Traffic) : Prop where
  /-- Streams, counts and registers are as callers see them. -/
  sound : x.IsSound bad
  /-- Every stream holds some pins, and all of them make up the pins of the engines. -/
  flights : ∃ flights : List (Flight × List Nat), flights.map Prod.fst = x.streams ∧
    (∀ f ∈ flights, f.1.stream.stream.Holds bad f.2) ∧ x.host.Accounts bad (abroad flights x.counts)

/-- At the start there are no databases, streams or counts, and nothing is pinned. -/
theorem accounts_start (options : List Engine.Options) : (start options).Accounts bad where
  sound := ⟨nofun, nofun, nofun, fun _ _ => ⟨rfl, rfl⟩, nofun⟩
  flights := by
    refine ⟨[], rfl, nofun, fun n e he s => ?_, fun n e he => ?_⟩
    · obtain ⟨o, -, rfl⟩ := List.mem_map.mp (List.mem_of_getElem? he)
      rfl
    · obtain ⟨o, -, rfl⟩ := List.mem_map.mp (List.mem_of_getElem? he)
      exact nofun

/-- A stream that is open holds some pins of its engine. -/
theorem exists_held (hflights : flights.map Prod.fst = x.streams) (hk : x.streams[k]? = some f) :
    ∃ held, flights[k]? = some (f, held) := by
  rw [← hflights, List.getElem?_map] at hk
  obtain ⟨⟨_, held⟩, hheld, rfl⟩ := Option.map_eq_some_iff.mp hk
  exact ⟨held, hheld⟩

/-! ## Commands -/

/-- The accounts are kept, and the engines, databases and snapshots are still there. -/
structure Keeps (bad : EngineError → Prop) (x x' : Traffic) : Prop where
  /-- The accounts are kept. -/
  accounts : x'.Accounts bad
  /-- Nothing that callers know got lost. -/
  leads : x.host.Leads x'.host

/-- Nothing done keeps the accounts. -/
theorem Accounts.refl (h : x.Accounts bad) : x.Keeps bad x := ⟨h, x.host.leads_refl⟩

/-- What keeps the accounts twice keeps them. -/
theorem Keeps.trans {x' x'' : Traffic} (h : x.Keeps bad x') (h' : x'.Keeps bad x'') :
    x.Keeps bad x'' := ⟨h'.accounts, h.leads.trans h'.leads⟩

/-- A database that is created has no snapshots. -/
theorem snapshots_of_create {name engineName : String} {config : Config} {pool : Option Pool}
    (h : Database.create name engineName config pool = .ok db) : db.snapshots = .empty := by
  unfold Database.create at h
  cases hcheck : config.check.mapError ConfigError.toStore with
  | error e =>
    rw [hcheck] at h
    cases h
  | ok u =>
    rw [hcheck] at h
    exact Except.ok.inj h ▸ rfl

/-- A new database has no snapshots. -/
theorem Accounts.create (h : x.Accounts bad) (engine : Nat) (name engineName : String)
    (config : Config) (pool : Option Pool) :
    x.Keeps bad (x.step (.create engine name engineName config pool)) := by
  simp only [step]
  cases hcreate : Database.create name engineName config pool with
  | error e => exact h.refl
  | ok db =>
    have hempty := snapshots_of_create hcreate
    have hold : ∀ {j m : Nat}, (∃ db, x.host.databases[j]? = some (m, db)) →
        ∃ db', (x.host.databases ++ [(engine, db)])[j]? = some (m, db') := fun ⟨db', hj⟩ =>
      ⟨db', by rw [List.getElem?_append_left (List.getElem?_eq_some_iff.mp hj).1, hj]⟩
    obtain ⟨flights, hstreams, hholds, hhost⟩ := h.flights
    refine ⟨⟨⟨fun f hf => hold (h.sound.streams f hf), fun c hc => hold (h.sound.counts c hc),
      fun j m db' hj => ?_, fun j hj => ?_, h.sound.spares⟩, flights, hstreams, hholds,
      hhost.create hempty⟩, rfl, fun m e he => ⟨e, he, .refl⟩, fun j m db' hj => ?_⟩
    · rw [List.getElem?_append] at hj
      split at hj
      · exact h.sound.numbers j m db' hj
      · next hlt =>
        -- Nobody saw a snapshot of the new database yet.
        obtain ⟨hissued, hreleased⟩ := h.sound.fresh j (List.getElem?_eq_none (Nat.le_of_not_lt hlt))
        obtain ⟨-, rfl⟩ := Prod.mk.inj (List.mem_singleton.mp (List.mem_of_getElem? hj))
        show db'.snapshots.Numbers (x.issued j) (x.released j)
        rw [hempty, hissued, hreleased]
        exact Snapshots.numbers_empty
    · rw [List.getElem?_append] at hj
      split at hj
      · exact h.sound.fresh j hj
      · next hlt => exact h.sound.fresh j (List.getElem?_eq_none (Nat.le_of_not_lt hlt))
    · exact ⟨db', by rw [List.getElem?_append_left (List.getElem?_eq_some_iff.mp hj).1, hj],
        db'.snapshots.leads_refl⟩

/-- A stream that is taken holds nothing until it is polled. -/
theorem Accounts.take (h : x.Accounts bad) (i : Nat) (request : Request) :
    x.Keeps bad (x.step (.take i request)) := by
  simp only [step]
  split
  · next n db hdb =>
    split
    · next stream hstream =>
      obtain ⟨flights, hstreams, hholds, hhost⟩ := h.flights
      refine ⟨⟨⟨fun f hf => ?_, h.sound.counts, h.sound.numbers, h.sound.fresh, h.sound.spares⟩,
        flights ++ [(⟨i, n, stream⟩, [])], by rw [List.map_append, hstreams]; rfl, fun f hf => ?_, ?_⟩,
        x.host.leads_refl⟩
      · rcases List.mem_append.mp hf with hf | hf
        · exact h.sound.streams f hf
        · obtain rfl := List.mem_singleton.mp hf
          exact ⟨db, hdb⟩
      · rcases List.mem_append.mp hf with hf | hf
        · exact hholds f hf
        · obtain rfl := List.mem_singleton.mp hf
          exact Request.holds_stream hstream
      · rw [show abroad (flights ++ [(⟨i, n, stream⟩, [])]) x.counts = abroad flights x.counts from
          funext₂ (abroad_append_flight _)]
        exact hhost
    · exact h.refl
  · exact h.refl

/-- A fault to come pins nothing. -/
theorem Accounts.schedule (h : x.Accounts bad) {fault : Fault} (hfault : ¬ bad fault.error) (n : Nat) :
    x.Keeps bad (x.step (.schedule n fault)) := by
  obtain ⟨flights, hstreams, hholds, hhost⟩ := h.flights
  refine ⟨⟨⟨h.sound.streams, h.sound.counts, h.sound.numbers, h.sound.fresh, h.sound.spares⟩, flights,
    hstreams, hholds, hhost.modify (fun _ => rfl) fun e he fault' hmem => ?_⟩,
    x.host.leads_modify fun _ => .refl⟩
  rcases List.mem_append.mp hmem with hmem | hmem
  · exact he fault' hmem
  · exact List.mem_singleton.mp hmem ▸ hfault

/-- Compaction pins nothing, be it struck or not. -/
theorem Accounts.compact (h : x.Accounts bad) (n column : Nat) :
    x.Keeps bad (x.step (.compact n column)) := by
  obtain ⟨flights, hstreams, hholds, hhost⟩ := h.flights
  refine ⟨⟨⟨h.sound.streams, h.sound.counts, h.sound.numbers, h.sound.fresh, h.sound.spares⟩, flights,
    hstreams, hholds, hhost.modify (fun e => ?_) fun e he => ?_⟩,
    x.host.leads_modify fun e => e.evolves_answer _⟩
  · obtain ⟨_, -, ⟨_, -, hanswer⟩ | hanswer⟩ := e.answer_cases (.compact column)
    · rw [hanswer]
    · rw [hanswer]
      exact (e.engine.changes_answer (.compact column)).pins_eq
  · obtain ⟨faults, hfaults, ⟨_, -, hanswer⟩ | hanswer⟩ := e.answer_cases (.compact column)
    · rw [hanswer]
      exact he.of_errors hfaults
    · rw [hanswer]
      exact he.of_errors hfaults

/-- A database carried something out that keeps its accounts and snapshots, and callers saw
nothing. -/
theorem Accounts.on {α : Type} (h : x.Accounts bad) {op : StateM Store α}
    (hop : ∀ e db others, Store.Accounts bad others ⟨e, db⟩ →
      Store.After bad others ⟨e, db⟩ (op ⟨e, db⟩).2)
    {a : α} {host : Host} (hon : Host.on i op x.host = (some a, host)) :
    x.Keeps bad { x with host } := by
  obtain ⟨n, db, e, hdb, he, -, rfl⟩ := Host.on_eq_some hon
  obtain ⟨flights, hstreams, hholds, hhost⟩ := h.flights
  have hafter := hop e db _ (hhost.store hdb he)
  exact ⟨⟨h.sound.quiet [] hdb hafter.snapshots_eq (List.forall_mem_nil _) (List.append_nil _).symm
    h.sound.streams h.sound.counts _, flights, hstreams, hholds,
    hhost.absorb hdb he hafter.accounts fun _ _ _ => rfl⟩, hafter.leads hdb he⟩

variable (hbad : ∀ failure, bad failure → failure.IsReleased)
include hbad

/-- A request keeps the accounts of its database, and no other is touched. -/
theorem Accounts.ask (h : x.Accounts bad) (i : Nat) (request : Request) :
    x.Keeps bad (x.step (.ask i request)) := by
  simp only [step]
  split
  · next reply host hon =>
    obtain ⟨n, db, e, hdb, he, rfl, rfl⟩ := Host.on_eq_some hon
    obtain ⟨flights, hstreams, hholds, hhost⟩ := h.flights
    have hkeeps := request.keeps hbad (hhost.store hdb he) (h.sound.numbers i n db hdb).nodup
    refine ⟨⟨h.sound.on [.answered i request _] hdb hkeeps.moves ?_ ?_ (fun j hj => ?_)
      (List.forall_mem_singleton.mpr hkeeps.spares) rfl h.sound.streams h.sound.counts _, flights,
      hstreams, hholds, hhost.absorb hdb he hkeeps.accounts fun _ _ _ => rfl⟩,
      Host.leads_set hdb he hkeeps.evolves hkeeps.moves.leads⟩
    · simp only [List.filterMap_cons, List.filterMap_nil, Event.issued?, if_true]
      cases request.issued? _ <;> rfl
    · simp only [List.filterMap_cons, List.filterMap_nil, Event.released?, if_true]
      cases request.released? _ <;> rfl
    · simp [Event.issued?, Event.released?, Ne.symm hj]
  · exact h.refl

/-- Asking a stream for items changes what it holds. -/
theorem Accounts.poll (h : x.Accounts bad) (k n : Nat) : x.Keeps bad (x.step (.poll k n)) := by
  simp only [step]
  split
  · next f hf =>
    split
    · next items isEnd stream host hon =>
      obtain ⟨flights, hstreams, hholds, hhost⟩ := h.flights
      obtain ⟨held, hheld⟩ := exists_held hstreams hf
      obtain ⟨db, e, hdb, he, ha, rfl⟩ :=
        Host.on_eq_some_of (h.sound.streams f (List.mem_of_getElem? hf)) hon
      obtain ⟨held₁, hheld₁, hafter, hitems⟩ := Store.accounts_pollMany (d := f.stream.dictionary)
        -- The pins of this stream are lent to its own poll; those of the other streams and counts
        -- stay abroad.
        hbad n (hholds _ (List.mem_of_getElem? hheld)) (hhost.store_lent hdb he
          (abroad (flights.eraseIdx k) x.counts f.engine) fun s => by
            rw [abroad_eq_flight hheld, if_pos rfl])
      rw [← ha] at hheld₁ hitems
      refine ⟨⟨h.sound.quiet [.showed (items.filterMap failure?)] hdb hafter.snapshots_eq
        (List.forall_mem_singleton.mpr ⟨_, rfl, Store.spares_of_items hitems⟩) rfl (fun g hg => ?_)
        h.sound.counts _, flights.set k ({ f with stream := ⟨f.stream.dictionary, _, stream⟩ }, held₁),
        by rw [List.map_set, hstreams], fun g hg => ?_, hhost.absorb hdb he
        (hafter.accounts.congr fun s => ?_) fun m hm s => ?_⟩, hafter.leads hdb he⟩
      · rcases List.mem_or_eq_of_mem_set hg with hg | rfl
        · exact h.sound.streams g hg
        · exact ⟨db, hdb⟩
      · rcases List.mem_or_eq_of_mem_set hg with hg | rfl
        · exact hholds g hg
        · exact hheld₁
      · rw [abroad_set hheld, if_pos rfl, ← Nat.add_assoc]
        rfl
      · rw [abroad_set hheld, abroad_eq_flight hheld, if_neg (Ne.symm hm), if_neg (Ne.symm hm)]
    · exact h.refl
  · exact h.refl

/-- A stream that is dropped holds nothing any more. -/
theorem Accounts.drop (h : x.Accounts bad) (k : Nat) : x.Keeps bad (x.step (.drop k)) := by
  simp only [step]
  split
  · next f hf =>
    split
    · next host hon =>
      obtain ⟨flights, hstreams, hholds, hhost⟩ := h.flights
      obtain ⟨held, hheld⟩ := exists_held hstreams hf
      obtain ⟨db, e, hdb, he, -, rfl⟩ :=
        Host.on_eq_some_of (h.sound.streams f (List.mem_of_getElem? hf)) hon
      -- The stream gives back what it held, so it is abroad no more.
      have hafter := Store.after_drop (d := f.stream.dictionary) hbad
        (hholds _ (List.mem_of_getElem? hheld)) (hhost.store_lent hdb he
          (abroad (flights.eraseIdx k) x.counts f.engine) fun s => by
            rw [abroad_eq_flight hheld, if_pos rfl])
      refine ⟨⟨h.sound.quiet [] hdb hafter.snapshots_eq (List.forall_mem_nil _) (List.append_nil _).symm
        (fun g hg => h.sound.streams g (List.mem_of_mem_eraseIdx hg)) h.sound.counts _,
        flights.eraseIdx k, by rw [← List.eraseIdx_map, hstreams],
        fun g hg => hholds g (List.mem_of_mem_eraseIdx hg),
        hhost.absorb hdb he hafter.accounts fun m hm s => ?_⟩, hafter.leads hdb he⟩
      rw [abroad_eq_flight hheld, if_neg (Ne.symm hm), Nat.add_zero]
    · exact h.refl
  · exact h.refl

/-- Pinning the newest state for a count. -/
theorem Accounts.startCount (h : x.Accounts bad) (i : Nat) (name : String) :
    x.Keeps bad (x.step (.startCount i name)) := by
  obtain ⟨flights, hstreams, hholds, hhost⟩ := h.flights
  simp only [step]
  split
  · next n db hdb =>
    split
    · next d hd =>
      split
      · next q host hon =>
        obtain ⟨_, _, e, hdb', he, ha, rfl⟩ := Host.on_eq_some hon
        obtain ⟨rfl, rfl⟩ := Prod.mk.inj (Option.some.inj (hdb.symm.trans hdb'))
        -- A count begins with a pin of its own, or fails and is not begun.
        rcases Store.pin_cases hbad (d := d) (hhost.store hdb he) with
          ⟨_, _, hrun, -, -⟩ | ⟨q', s', hrun, hafter⟩
        · rw [hrun] at ha
          cases ha
        · rw [hrun] at ha ⊢
          obtain rfl := Except.ok.inj ha
          refine ⟨⟨h.sound.quiet [] hdb hafter.snapshots_eq (List.forall_mem_nil _)
            (List.append_nil _).symm h.sound.streams (fun c hc => ?_) _, flights, hstreams, hholds,
            hhost.absorb hdb he (hafter.accounts.congr fun s => ?_) fun m hm s => ?_⟩,
            hafter.leads hdb he⟩
          · rcases List.mem_append.mp hc with hc | hc
            · exact h.sound.counts c hc
            · obtain rfl := List.mem_singleton.mp hc
              exact ⟨db, hdb⟩
          · rw [abroad_append_count, if_pos rfl, ← Nat.add_assoc]
            rfl
          · rw [abroad_append_count, if_neg (Ne.symm hm), Nat.add_zero]
      · next failure host hon =>
        obtain ⟨_, _, e, hdb', he, ha, rfl⟩ := Host.on_eq_some hon
        obtain ⟨rfl, rfl⟩ := Prod.mk.inj (Option.some.inj (hdb.symm.trans hdb'))
        rcases Store.pin_cases hbad (d := d) (hhost.store hdb he) with
          ⟨failure', s', hrun, hspares, hafter⟩ | ⟨_, _, hrun, -⟩
        · rw [hrun] at ha ⊢
          obtain rfl := Except.error.inj ha
          exact ⟨⟨h.sound.quiet [.showed [failure]] hdb hafter.snapshots_eq
            (List.forall_mem_singleton.mpr ⟨_, rfl, List.forall_mem_singleton.mpr hspares⟩) rfl
            h.sound.streams h.sound.counts _, flights, hstreams, hholds,
            hhost.absorb hdb he hafter.accounts fun _ _ _ => rfl⟩, hafter.leads hdb he⟩
        · rw [hrun] at ha
          cases ha
      · exact h.refl
    · exact h.refl
  · exact h.refl

/-- Counting the entries of a range. -/
theorem Accounts.count (h : x.Accounts bad) (k : Nat) (range : KeyRange) :
    x.Keeps bad (x.step (.count k range)) := by
  obtain ⟨flights, hstreams, hholds, hhost⟩ := h.flights
  simp only [step]
  split
  · next c hc =>
    split
    · next r host hon =>
      obtain ⟨db, e, hdb, he, ha, rfl⟩ :=
        Host.on_eq_some_of (h.sound.counts c (List.mem_of_getElem? hc)) hon
      -- The count reads the state that it has pinned, which nobody else can release.
      have hamong : (ReadView.at c.sequence).IsAmong [c.sequence] := List.mem_singleton_self _
      obtain ⟨hafter, hspares⟩ := Store.keeps_submit (d := c.dictionary) hbad
        (hhost.store_lent hdb he (abroad flights (x.counts.eraseIdx k) c.engine) fun s => by
          rw [abroad_eq_count hc, if_pos rfl])
        (Dictionary.settles_count hamong none) (Backend.grants_lent _ _)
      rw [← ha] at hspares
      refine ⟨⟨h.sound.quiet [.showed (failure? r).toList] hdb hafter.snapshots_eq
        (List.forall_mem_singleton.mpr ⟨_, rfl, fun e he => ?_⟩) rfl h.sound.streams h.sound.counts _,
        flights, hstreams, hholds, hhost.absorb hdb he (hafter.accounts.congr fun s => ?_)
        fun _ _ _ => rfl⟩, hafter.leads hdb he⟩
      · exact Store.spares_of_items (List.forall_mem_singleton.mpr hspares) e (by simpa using he)
      · rw [abroad_eq_count hc, if_pos rfl, ← Nat.add_assoc]
        rfl
    · exact h.refl
  · exact h.refl

omit hbad in
/-- A count that is over holds nothing any more. -/
theorem Accounts.endCount (h : x.Accounts bad) (k : Nat) : x.Keeps bad (x.step (.endCount k)) := by
  obtain ⟨flights, hstreams, hholds, hhost⟩ := h.flights
  simp only [step]
  split
  · next c hc =>
    split
    · next host hon =>
      obtain ⟨db, e, hdb, he, -, rfl⟩ :=
        Host.on_eq_some_of (h.sound.counts c (List.mem_of_getElem? hc)) hon
      -- The pin of the count goes with it.
      have hunpinned := (hhost.store_lent hdb he
        (abroad flights (x.counts.eraseIdx k) c.engine) fun s => by
          rw [abroad_eq_count hc, if_pos rfl]).unpin
      refine ⟨⟨h.sound.quiet [] hdb rfl (List.forall_mem_nil _) (List.append_nil _).symm
        h.sound.streams (fun c hc => h.sound.counts c (List.mem_of_mem_eraseIdx hc)) _, flights,
        hstreams, hholds, hhost.absorb hdb he hunpinned.accounts fun m hm s => ?_⟩, hunpinned.leads hdb he⟩
      rw [abroad_eq_count hc, if_neg (Ne.symm hm), Nat.add_zero]
    · exact h.refl
  · exact h.refl

/-- **Every command keeps the accounts.** -/
theorem Accounts.step (h : x.Accounts bad) {command : Command}
    (hcommand : ∀ n fault, command = .schedule n fault → ¬ bad fault.error) :
    x.Keeps bad (x.step command) := by
  cases command with
  | create engine name engineName config pool => exact h.create engine name engineName config pool
  | ask i request => exact h.ask hbad i request
  | take i request => exact h.take i request
  | poll k n => exact h.poll hbad k n
  | drop k => exact h.drop hbad k
  | startCount i name => exact h.startCount hbad i name
  | count k range => exact h.count hbad k range
  | endCount k => exact h.endCount k
  | closePool i =>
    simp only [Traffic.step]
    split
    · next host hon =>
      exact h.on (fun _ _ _ hs => ⟨⟨hs.pins, hs.spares⟩, rfl, .refl⟩) hon
    · exact h.refl
  | compact n column => exact h.compact n column
  | schedule n fault => exact h.schedule (hcommand n fault rfl) n

/-- Several commands keep the accounts. -/
theorem Accounts.run (h : x.Accounts bad) {commands : List Command}
    (hcommands : ∀ n fault, .schedule n fault ∈ commands → ¬ bad fault.error) :
    x.Keeps bad (x.run commands) := by
  induction commands generalizing x with
  | nil => exact h.refl
  | cons command rest ih =>
    have hstep : x.Keeps bad (x.step command) := h.step hbad fun n fault heq =>
      hcommands n fault (heq ▸ List.mem_cons_self)
    exact hstep.trans (ih hstep.accounts fun n fault hmem =>
      hcommands n fault (List.mem_cons_of_mem _ hmem))

/-! ## Pins and snapshots -/

/-- Nothing runs: no stream waits for its caller, and no size is being counted. -/
def IsAtRest (x : Traffic) : Prop :=
  (∀ f ∈ x.streams, f.stream.stream.isRunning = false) ∧ x.counts = []

/-- What pins have to do with snapshots. -/
structure IsAccounted (x : Traffic) : Prop where
  /-- When nothing runs, a sequence has as many pins as snapshots show it. -/
  pins : x.IsAtRest → ∀ (n : Nat) (e : FaultyEngine), x.host.engines[n]? = some e → ∀ s,
    ∃ tokens : List (Nat × Token), tokens.Nodup ∧
      (∀ i t, (i, t) ∈ tokens ↔
        ∃ db, x.host.databases[i]? = some (n, db) ∧ db.snapshots.resolve (some t) = .ok (.at s)) ∧
      e.engine.pinCount s = tokens.length
  /-- What a live snapshot shows is pinned, whatever runs. -/
  isPinned : ∀ (i n : Nat) (db : Database) (e : FaultyEngine) (t : Token) (s : Nat),
    x.host.databases[i]? = some (n, db) → x.host.engines[n]? = some e →
      db.snapshots.resolve (some t) = .ok (.at s) → 0 < e.engine.pinCount s
  /-- A database numbers its snapshots 1, 2, 3 and so on. -/
  issued_eq : ∀ i, x.issued i = List.range' 1 (x.issued i).length
  /-- No snapshot is released twice. -/
  released_nodup : ∀ i, (x.released i).Nodup
  /-- Only snapshots that were taken are released. -/
  released_sub : ∀ i, ∀ t ∈ x.released i, t ∈ x.issued i
  /-- A snapshot that was released is gone. -/
  released_gone : ∀ (i n : Nat) (db : Database), x.host.databases[i]? = some (n, db) →
    ∀ t ∈ x.released i, db.snapshots.resolve (some t) = .error (.snapshotNotFound t)
  /-- When nothing runs and all snapshots that were taken are gone, nothing is pinned. -/
  pins_eq_nil : x.IsAtRest → ∀ (n : Nat) (e : FaultyEngine), x.host.engines[n]? = some e →
    (∀ (i : Nat) (db : Database), x.host.databases[i]? = some (n, db) →
      ∀ t ∈ x.issued i, db.snapshots.resolve (some t) = .error (.snapshotNotFound t)) →
    e.engine.pins = []

omit hbad in
/-- Nothing is held abroad when nothing runs. -/
theorem abroad_eq_zero (hrest : x.IsAtRest) (hstreams : flights.map Prod.fst = x.streams)
    (hholds : ∀ f ∈ flights, f.1.stream.stream.Holds bad f.2) (n s : Nat) :
    abroad flights x.counts n s = 0 := by
  have hsum : ∀ k ∈ flights.map fun f => if f.1.engine = n then f.2.count s else 0, k = 0 := by
    intro k hk
    obtain ⟨f, hf, rfl⟩ := List.mem_map.mp hk
    have hnil := (hholds f hf).eq_nil (hrest.1 f.1 (hstreams ▸ List.mem_map_of_mem hf))
    simp [hnil]
  rw [abroad, hrest.2, List.sum_eq_zero hsum]
  rfl

omit hbad in
/-- What is accounted for is told in terms of tokens and of what they show. -/
theorem Accounts.isAccounted (h : x.Accounts bad) : x.IsAccounted := by
  obtain ⟨flights, hstreams, hholds, hhost⟩ := h.flights
  have hnodup := fun i n db hdb => (h.sound.numbers i n db hdb).nodup
  -- At rest nothing is abroad, so every pin is that of a live snapshot.
  have hpins : x.IsAtRest → ∀ (n : Nat) (e : FaultyEngine), x.host.engines[n]? = some e → ∀ s,
      e.engine.pinCount s = (x.host.showing n s).length := by
    intro hrest n e he s
    rw [hhost.pins n e he s, abroad_eq_zero hrest hstreams hholds, Host.length_showing, Nat.add_zero]
  have hnumbers : ∀ i, x.issued i = List.range' 1 (x.issued i).length ∧ (x.released i).Nodup ∧
      ∀ t ∈ x.released i, t ∈ x.issued i := by
    intro i
    cases hdb : x.host.databases[i]? with
    | none =>
      obtain ⟨hissued, hreleased⟩ := h.sound.fresh i hdb
      rw [hissued, hreleased]
      exact ⟨rfl, List.nodup_nil, nofun⟩
    | some y =>
      have hy := h.sound.numbers i y.1 y.2 hdb
      exact ⟨hy.issued_eq, hy.released_nodup, hy.released_sub⟩
  refine ⟨fun hrest n e he s => ⟨x.host.showing n s, Host.nodup_showing hnodup,
    fun i t => Host.mem_showing hnodup, hpins hrest n e he s⟩, fun i n db e t s hdb he ht => ?_,
    fun i => (hnumbers i).1, fun i => (hnumbers i).2.1, fun i => (hnumbers i).2.2,
    fun i n db hdb t ht => ?_, fun hrest n e he hgone => ?_⟩
  · have hcount := List.count_pos_iff.mpr (Snapshots.mem_pinned_of_resolve ht)
    have hle := Host.count_le_pinned hdb s
    have hall := hhost.pins n e he s
    omega
  · exact Snapshots.resolve_eq_error fun hlive => ((h.sound.numbers i n db hdb).live t hlive).2 ht
  · refine List.eq_nil_iff_forall_not_mem.mpr fun s hs => ?_
    have hpos := List.count_pos_iff.mpr hs
    have hshowing := hpins hrest n e he s
    unfold Engine.pinCount at hshowing
    -- A pin that is left would belong to a live snapshot, whose token was issued and is not gone.
    obtain ⟨y, hy⟩ := List.exists_mem_of_length_pos (hshowing ▸ hpos)
    obtain ⟨db, hdb, hresolve⟩ := (Host.mem_showing hnodup).mp hy
    have hlive := List.mem_map_of_mem (f := Prod.fst)
      ((Snapshots.resolve_eq_at_iff (hnodup _ _ _ hdb)).mp hresolve)
    have hissued := ((h.sound.numbers _ n db hdb).live _ hlive).1
    cases hresolve.symm.trans (hgone _ db hdb _ hissued)

end Traffic

/-- **Every pin is accounted for**: whatever callers do with databases that share engines, when
nothing runs a sequence has as many pins as there are snapshots that show it, and nobody is ever
told that a sequence is not pinned, unless such a failure was scheduled. -/
theorem Traffic.pins_accounted (options : List Engine.Options) (commands : List Command) :
    ((start options).run commands).IsAccounted ∧
      ((∀ n fault, .schedule n fault ∈ commands → ¬ fault.error.IsReleased) →
        ∀ e ∈ ((start options).run commands).failures, ∀ s, e.source? ≠ some (.snapshotReleased s)) := by
  refine ⟨?_, fun hfaults e he s hs => ?_⟩
  -- Which failures are scheduled does not matter to the pins.
  · have hkeeps : (start options).Keeps (fun _ => False) ((start options).run commands) :=
      (accounts_start options).run (fun _ => False.elim) fun _ _ _ => id
    exact hkeeps.accounts.isAccounted
  · have hkeeps : (start options).Keeps EngineError.IsReleased ((start options).run commands) :=
      (accounts_start options).run (fun _ => id) hfaults
    exact hkeeps.accounts.sound.spares e he _ hs ⟨s, rfl⟩

/-- Two databases show the same state of an engine.  After a stream of the first was dropped and its
snapshot released, the pin of the other one is left, and nobody saw a failure. -/
theorem Traffic.pins_accounted_of_shared :
    let commands : List Command := [
      .create 0 "a" "memory" .testing none, .create 0 "b" "memory" .testing none,
      .ask 0 (.act (.opening "d" .allow)), .ask 0 (.act (.on "d" (.put [1] [10] .void))),
      .ask 0 (.act .takeSnapshot), .ask 1 (.act .takeSnapshot),
      .take 0 (.act (.on "d" (.getEntries (some 1) .all 0))), .poll 0 1, .startCount 0 "d",
      .ask 0 (.act (.releaseSnapshot 1)), .endCount 0, .drop 0]
    let x := (start [Database.engineOptions .testing]).run commands
    x.host.engines.map (·.engine.pins) = [[1]] ∧ x.IsAccounted ∧ x.IsAtRest ∧
      ∀ e ∈ x.failures, ∀ s, e.source? ≠ some (.snapshotReleased s) := by
  intro commands x
  have hstreams : x.streams.length = 0 := by decide +kernel
  have hcounts : x.counts.length = 0 := by decide +kernel
  obtain ⟨haccounted, hfailures⟩ := pins_accounted [Database.engineOptions .testing] commands
  refine ⟨by decide +kernel, haccounted, ⟨?_, List.eq_nil_of_length_eq_zero hcounts⟩,
    hfailures (by simp [commands])⟩
  rw [List.eq_nil_of_length_eq_zero hstreams]
  exact List.forall_mem_nil _
end SnapshotStore
