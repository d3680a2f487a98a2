import SnapshotStore.Proofs.Database.Recovery

/-!
# All readers of a range agree

A range is read in many ways: its entries or keys are streamed, its first entry or key is looked
for, and it is counted.  Behind them are a cursor, a point read for a range of one key, a counter of
live keys that the engine maintains, a walk up to a cap, and a sum over shards that are counted one
by one at a pinned sequence.  All answer from one list, the entries of the range in ascending order
(`Database.readers_agree`).  Only the quick size of a whole dictionary at a snapshot may be less
than their number, and then it is the cap.
-/

namespace SnapshotStore

/-- The readers of a range of a dictionary, now or at a snapshot, answer from given entries. -/
structure Store.ReadsRange (s : Store) (name : String) (d : Dictionary) (token : Option Token)
    (range : KeyRange) (entries : List Entry) : Prop where
  /-- The entries are streamed. -/
  getEntries : ∀ limit, ((Act.on name (.getEntries token range limit)).run s).1
    = .cut .entries limit (entries.map .ok)
  /-- Their keys are streamed. -/
  getKeys : ∀ limit, ((Act.on name (.getKeys token range limit)).run s).1
    = .cut .keys limit (entries.map fun e => .ok e.1)
  /-- The first entry is looked for. -/
  getFirst : ((Act.on name (.getFirst token range)).run s).1 = .entry entries.head?
  /-- Its key is looked for. -/
  getFirstKey : (Store.answer .value (Store.getFirstKey d token range) s).1
    = .value (entries.head?.map Prod.fst)
  /-- The range is empty or not. -/
  isEmpty : ((Act.on name (.isEmpty token range)).run s).1 = .truth entries.isEmpty
  /-- The entries are counted. -/
  size : ∀ fast, fast = false ∨ range ≠ .all ∨ token = none →
    ((Act.on name (.size token range fast)).run s).1 = .count entries.length
  /-- The entries of the whole dictionary at a snapshot are counted up to a cap of at least one. -/
  fastSize : range = .all → token ≠ none → ((Act.on name (.size token range true)).run s).1
    = .count (min entries.length (max s.database.config.fastSizeScanCap 1))

namespace PlainMap

variable (m : PlainMap) (cap : Nat) {token : Option Token} {range : KeyRange} {fast : Bool}

/-- A size is exact unless it is a quick one of a whole map at a snapshot. -/
theorem size_eq_length (h : fast = false ∨ range ≠ .all ∨ token = none) :
    m.size cap token range fast = (m.within range).length := by
  rw [size, if_neg]
  rw [Bool.and_eq_true, Bool.and_eq_true]
  rintro ⟨⟨hall, hfast⟩, htoken⟩
  rcases h with hexact | hrange | hnone
  · rw [hexact] at hfast
    cases hfast
  · exact hrange (KeyRange.eq_all_of_isAll hall)
  · rw [hnone] at htoken
    cases htoken

/-- A quick size of a whole map at a snapshot stops at a cap. -/
theorem size_all_of_token (h : token ≠ none) :
    m.size cap token .all true = min (m.within .all).length (max cap 1) := by
  rw [size, if_pos]
  rw [Bool.and_eq_true]
  exact ⟨rfl, Option.isSome_iff_ne_none.mpr h⟩

end PlainMap

namespace Store

variable {s : Store} {p : PlainStore} {w : World} {name : String} {d : Dictionary}
  {token : Option Token} {range : KeyRange} {maps : String → PlainMap}

/-- The first key is that of the first entry. -/
theorem Refines.alike_getFirstKey (h : s.Refines p w) (hd : s.database.find? name = some d)
    (token : Option Token) (range : KeyRange) :
    Alike (Store.answer .value (Store.getFirstKey d token range) s)
      (.of (fun maps => .value (((maps name).within range).head?.map Prod.fst)) (p.shown token),
        p) := by
  have hfirst := h.alike_shown hd (x := d.getFirst token range) (fun e => .value (e.map Prod.fst))
    (fun m => .value ((m.within range).head?.map Prod.fst))
    (fun _ m htoken hview hget =>
      ⟨_, Dictionary.takes_getFirst (h.atRest hd) htoken hview (hget ▸ m.lists_within range), rfl⟩)
    fun _ htoken => Dictionary.takes_getFirst_failed htoken range
  rw [Store.getFirstKey, bind_pure_comp, Store.answer_map]
  exact hfirst

/-- A store that matches plain maps reads their ranges. -/
theorem Matches.readsRange (h : s.Matches p) (hd : s.database.find? name = some d)
    (hshown : p.shown token = .ok maps) (range : KeyRange) :
    s.ReadsRange name d token range ((maps name).within range) := by
  obtain ⟨mode, hmode⟩ := h.exists_mode (Option.isSome_of_eq_some hd)
  have hreply : ∀ op, ((Act.on name op).run s).1 = (op.plain name mode p).1 := by
    intro op
    rw [(h.step _).1]
    simp only [Act.plain, hmode]
  -- All readers answer from the same map, so each of them reads its list of entries.
  obtain ⟨-, w, hrefines⟩ := h
  refine ⟨fun limit => ?_, fun limit => ?_, ?_, ?_, ?_, fun fast hfast => ?_, fun hall htoken => ?_⟩
  · simp only [hreply, DictionaryOp.plain, PlainStore.stream, hshown]
  · simp only [hreply, DictionaryOp.plain, PlainStore.stream, hshown, PlainMap.keysWithin,
      List.map_map]
    rfl
  · simp only [hreply, DictionaryOp.plain, hshown, Reply.of]
  · rw [(hrefines.alike_getFirstKey hd token range).1, hshown]
    rfl
  · simp only [hreply, DictionaryOp.plain, hshown, Reply.of]
  · simp only [hreply, DictionaryOp.plain, hshown, Reply.of, PlainMap.size_eq_length _ _ hfast]
  · subst hall
    simp only [hreply, DictionaryOp.plain, hshown, Reply.of, hrefines.config_eq,
      PlainMap.size_all_of_token _ _ htoken]

end Store

/-- **All readers of a range agree.**  Whatever was done before and whatever failed then, as soon as
the engine works every range of a dictionary, at the newest state or at a snapshot, has entries
which are exactly what is stored there for its keys, in ascending order, and from which all of its
readers answer. -/
theorem Database.readers_agree {db : Database} (hnew : db.IsNew) (options : Engine.Options)
    (before : List Fault) {script : List Request} (hscript : .close ∉ script)
    {dictionary : String} {d : Dictionary}
    (hopen : (Store.after ⟨⟨.new options, before⟩, db⟩ script).database.find? dictionary = some d)
    {token : Option Token} {view : ReadView}
    (hview : (Store.after ⟨⟨.new options, before⟩, db⟩ script).database.snapshots.resolve token
      = .ok view) (range : KeyRange) :
    let s := (Store.after ⟨⟨.new options, before⟩, db⟩ script).mend
    ∃ (c : Contents) (entries : List Entry),
      (∀ key, s.stored d view key = .ok (c key)) ∧ c.Lists range entries ∧
      s.ReadsRange dictionary d token range entries := by
  intro s
  obtain ⟨p, hmatches⟩ : ∃ p, s.Matches p := hnew.exists_matches options before hscript
  obtain ⟨maps, hshown, hstored⟩ := hmatches.shown_of_resolve hopen hview
  exact ⟨(maps dictionary).get, _, hstored, PlainMap.lists_within _ range,
    hmatches.readsRange hopen hshown range⟩

/-- A database that counts three shards, and looks at one key for a quick size at a snapshot. -/
def Database.sharded : Database :=
  { name := "db"
    engineName := "memory"
    config := { Config.testing with exactSizeShards := 3, fastSizeScanCap := 1 }
    pool := .new "db-storage" Config.testing.maxConcurrentOps Config.testing.maxConcurrentScans
    ownsPool := true
    snapshots := .empty
    dictionaries := []
    isClosed := false }

/-- The empty key and the key 7 are put, a snapshot is taken, and everything is removed. -/
def Database.shardedScript : List Request :=
  [.act (.opening "a" .allow), .act (.on "a" (.put [7] [70] .void)),
    .act (.on "a" (.put [] [10] .void)), .act .takeSnapshot, .act (.on "a" .clear)]

/-- All readers at the snapshot see two entries behind the removal, and only the quick size stops at
the first. -/
theorem Database.readers_agree_of_cleared :
    let s := (Store.after ⟨⟨.new (engineOptions sharded.config), []⟩, sharded⟩ shardedScript).mend
    ∃ d, s.ReadsRange "a" d (some 1) .all [([], [10]), ([7], [70])] ∧
      ((Act.on "a" (.size (some 1) .all false)).run s).1 = .count 2 ∧
      ((Act.on "a" (.size (some 1) .all true)).run s).1 = .count 1 := by
  intro s
  have hnew : sharded.IsNew := ⟨rfl, rfl, rfl, Pool.isReady_new _ _ _⟩
  obtain ⟨d, hopen⟩ : ∃ d, (Store.after ⟨⟨.new (engineOptions sharded.config), []⟩, sharded⟩
      shardedScript).database.find? "a" = some d :=
    Option.isSome_iff_exists.mp (by decide +kernel)
  have hsequence : (Store.after ⟨⟨.new (engineOptions sharded.config), []⟩, sharded⟩
      shardedScript).database.snapshots.sequence? 1 = some 2 := by decide +kernel
  obtain ⟨c, entries, -, -, hreads⟩ : ∃ (c : Contents) (entries : List Entry), _ ∧ _ ∧
      s.ReadsRange "a" d (some 1) .all entries :=
    readers_agree hnew (engineOptions sharded.config) [] (by simp [shardedScript]) hopen
      (show Snapshots.resolve _ (some 1) = .ok (.at 2) by simp [Snapshots.resolve, hsequence]) .all
  have hcreate : create "db" "memory" sharded.config none = .ok sharded := rfl
  obtain ⟨p, hmatches, hconfig, hplain⟩ : ∃ p, s.Matches p ∧ p.config = sharded.config ∧
      ((Act.on "a" (.getEntries (some 1) .all 9)).plain p).1
        = .entries [.ok ([], [10]), .ok ([7], [70])] true :=
    ⟨_, (((((matches_create hcreate (by simp) (engineOptions sharded.config)).step
      (.opening "a" .allow)).2.step (.on "a" (.put [7] [70] .void))).2.step
      (.on "a" (.put [] [10] .void))).2.step .takeSnapshot).2.step (.on "a" .clear) |>.2.mend,
      rfl, by rfl⟩
  clear_value s
  have hitems : Reply.cut .entries 9 (entries.map .ok)
      = .entries [.ok ([], [10]), .ok ([7], [70])] true :=
    (hreads.getEntries 9).symm.trans ((hmatches.step _).1.trans hplain)
  obtain ⟨htake, hend⟩ := Reply.entries.inj hitems
  rw [decide_eq_true_iff] at hend
  rw [List.take_of_length_le hend.le] at htake
  obtain rfl : entries = [([], [10]), ([7], [70])] :=
    List.map_injective_iff.mpr (fun _ _ => Except.ok.inj) htake
  have hfast : ((Act.on "a" (.size (some 1) .all true)).run s).1
      = .count (min 2 (max s.database.config.fastSizeScanCap 1)) := hreads.fastSize rfl (by simp)
  obtain ⟨-, w, hrefines⟩ := hmatches
  rw [← hrefines.config_eq, hconfig] at hfast
  exact ⟨d, hreads, hreads.size false (.inl rfl), hfast⟩

end SnapshotStore
