import SnapshotStore.Proofs.Database.Script
import SnapshotStore.Proofs.Database.Sizes
import SnapshotStore.Proofs.Dictionary.Draining

/-!
# A database refines plain maps with frozen copies

Whatever script runs on a new database, all its answers are those of plain maps: reads answer the
values of the maps, reads at a live snapshot those of its copy, and nothing that is written later
shows in them.  Locks, batches, pins, versions, filters, producers and compaction are not seen.

`Store.Refines` ties a store to plain maps.  Every operation keeps it and answers alike, first for
the operations of a dictionary, then for those of the database, and so do scripts.
-/

namespace SnapshotStore

/-! ## Steps and sides of operations -/

/-- Giving a key the value that it has changes nothing. -/
theorem Contents.apply_assign {m : Contents} {key : Bytes} {value : Option Bytes}
    (h : m key = value) : m.apply (Dictionary.assign key value) = m := by
  funext k
  cases value with
  | none =>
    by_cases hk : k = key
    · simp [Dictionary.assign, apply, hk, h]
    · simp [Dictionary.assign, apply, hk]
  | some v =>
    by_cases hk : k = key
    · simp [Dictionary.assign, apply, hk, h]
    · simp [Dictionary.assign, apply, hk]

/-- An update writes its new side. -/
theorem Dictionary.writes_updated (w : World) (n : Nat) (key : Bytes) (current : Option Bytes) :
    w.Writes n ((w.now n).apply (assign key current)) (updated w n key current) := by
  unfold updated
  split
  · rename_i hsame
    rw [Contents.apply_assign hsame]
    exact .refl w n
  · exact .commit w n [assign key current]

/-- Windows are put up to the first that has a key outside the range. -/
theorem Pool.runSteps_writeSteps {pool : Pool} (hpool : pool.isClosed = false) {d : Dictionary}
    {w : World} {b : Backend} (hb : b.IsIn w) (h : d.AtRest w) (range : KeyRange)
    (windows : List (List Entry)) {m : PlainMap} (hm : m.get = w.now d.column) :
    ∃ b' w', pool.runSteps (windows.map (d.writeStep range)) b = ((m.fill range windows).1, b') ∧
      b'.IsIn w' ∧ w.Writes d.column (m.fill range windows).2.get w' := by
  induction windows generalizing m w b with
  | nil => exact ⟨b, w, rfl, hb, hm ▸ .refl w _⟩
  | cons window rest ih =>
    unfold PlainMap.fill
    rw [List.map_cons, Dictionary.writeStep]
    -- A key outside of the range refuses its window and ends the writes; otherwise the window is
    -- put as a whole.
    cases hfind : window.find? fun e => !range.contains e.1 with
    | some e => exact ⟨b, w, rfl, hb, hm ▸ .refl w _⟩
    | none =>
      obtain ⟨w₁, hput, hw₁⟩ := Dictionary.makes_putWindow (ε := Empty) h window false
      rw [← hm, ← PlainMap.get_puts] at hw₁
      obtain ⟨b₁, hends, hb₁⟩ := (hput.map (f := fun _ => ())) b hb
      have hrun : pool.run (discard (d.putWindow window false)) b = (.ok (), b₁) := by
        rw [Pool.run, hpool]
        exact hends.run_eq
      obtain ⟨b', w', hrest, hb', hw'⟩ := ih hb₁ (h.writes hw₁) hw₁.now.symm
      refine ⟨b', w', ?_, hb', hw₁.trans hw'⟩
      simp only [Pool.runSteps, hrun]
      exact hrest

/-- The answer of a stream are the first items that it serves; what it did meanwhile is done. -/
theorem Store.IsIdle.collect_eq {ε : Type} {s : Store} (h : s.IsIdle) {name : String}
    {d : Dictionary} (hd : s.database.find? name = some d) {x : Stream ε} {limit : Nat}
    {items : List (Except StoreError ε)} {b : Backend}
    (hserves : x.Serves limit s.database.pool (s.backend d) items b)
    (hstripes : b.stripes = (d.striping.map Stripes.idle).getD [])
    (f : List (Except StoreError ε) → Bool → Reply) :
    Store.collect d f limit x s
      = (.cut f limit items, ⟨b.engine, { s.database with snapshots := b.snapshots }⟩) := by
  obtain ⟨y, p₁, b₁, hpoll, hdrop⟩ := hserves
  obtain ⟨s₁, hpollMany, hdropped⟩ := h.onBackend_twice (g := fun p b => ((), y.drop p b)) hd hpoll
    (by rw [hdrop]) hstripes
  unfold Store.collect Store.pollMany Store.drop
  simp only [hpollMany, hdropped]
  rfl

/-! ## Refinement -/

/-- A store and plain maps show the same in a world. -/
structure Store.Refines (s : Store) (p : PlainStore) (w : World) : Prop where
  /-- The store is in the world. -/
  isIn : s.IsIn w
  /-- The plain maps mirror the world. -/
  mirrors : p.Mirrors w
  /-- Both make the same choices. -/
  config_eq : p.config = s.database.config
  /-- The same dictionaries are open. -/
  modes_eq : p.modes = s.database.dictionaries.map fun e => (e.1.name, e.1.mode)

/-- Two answers are equal, and the states after them correspond. -/
def Alike (x : Reply × Store) (y : Reply × PlainStore) : Prop :=
  x.1 = y.1 ∧ ∃ w, x.2.Refines y.2 w

/-- A value that is changed before it is answered. -/
theorem Store.answer_map {α β : Type} (f : β → Reply) (g : α → β) (op : Store.Op α) :
    Store.answer f (g <$> op) = Store.answer (f ∘ g) op := by
  funext s
  unfold Store.answer
  rw [ExceptT.run_map]
  show (Reply.of f (Except.map g (op.run s).1), (op.run s).2)
    = (Reply.of (f ∘ g) (op.run s).1, (op.run s).2)
  cases (op.run s).1 <;> rfl

namespace Store.Refines

variable {s s' : Store} {p p' : PlainStore} {w w' : World} {d : Dictionary} {name : String}

/-- A store goes on as the maps do, if it keeps its dictionaries and its engine shows the new
maps. -/
theorem of_keeps (h : s.Refines p w) (hs : s'.IsIn w') (hkeeps : s.Keeps s') (hp : p'.Mirrors w')
    (hconfig : p'.config = p.config) (hmodes : p'.modes = p.modes) : s'.Refines p' w' := by
  refine ⟨hs, hp, ?_, ?_⟩
  · rw [hkeeps, hconfig, h.config_eq]
  · rw [hkeeps, hmodes, h.modes_eq]

/-- A dictionary sees the same maps. -/
theorem mirrors_seenBy (h : s.Refines p w) (d : Dictionary) : p.Mirrors (w.seenBy d) :=
  h.mirrors.with_stripes _

/-! ## Work of a dictionary -/

section Dictionary

variable (h : s.Refines p w) (hd : s.database.find? name = some d)

include h hd

theorem atRest : d.AtRest (w.seenBy d) := (h.isIn.find?_eq hd).2.1.atRest

theorem column_eq : d.column = (w.seenBy d).columnOf name := by
  obtain ⟨hname, hopened, -⟩ := h.isIn.find?_eq hd
  rw [hopened.column_eq, hname]
  rfl

/-- The plain map of a dictionary has the contents of its column. -/
theorem get_now : (p.now name).get = (w.seenBy d).now d.column := by
  rw [h.column_eq hd]
  exact (h.mirrors_seenBy d).now name

/-- Keys are cut into the same windows. -/
theorem keyWindows_eq (keys : List Bytes) : d.keyWindows keys = p.keyWindows keys := by
  rw [Dictionary.keyWindows, PlainStore.keyWindows, h.config_eq, (h.isIn.find?_eq hd).2.1.config_eq]

/-- Entries are cut into the same windows. -/
theorem entryWindows_eq (entries : List Entry) : d.entryWindows entries = p.entryWindows entries := by
  rw [Dictionary.entryWindows, PlainStore.entryWindows, h.config_eq,
    (h.isIn.find?_eq hd).2.1.config_eq]

/-- What is written to the column of a dictionary changes its plain map. -/
theorem of_writes {m : PlainMap} (hs : s'.IsIn w') (hkeeps : s.Keeps s')
    (hw : (w.seenBy d).Writes d.column m.get w') : s'.Refines (p.set name m) w' := by
  obtain ⟨hname, hopened, -⟩ := h.isIn.find?_eq hd
  rw [h.column_eq hd] at hw
  exact h.of_keeps hs hkeeps ((h.mirrors_seenBy d).writes (hname ▸ hopened.mem) hw) rfl rfl

/-- Work that reads answers, and changes nothing. -/
theorem alike_reads {α : Type} {x : Work Empty α} {r : Outcome α} (f : α → Reply)
    (hx : x.Takes (w.seenBy d) r (w.seenBy d)) :
    Alike (Store.answer f (Store.submit d x) s) (.of f r.toExcept, p) := by
  obtain ⟨s', hrun, hs, hkeeps⟩ := h.isIn.submit hd hx rfl rfl
  unfold Store.answer
  rw [hrun]
  exact ⟨rfl, _, h.of_keeps hs hkeeps (h.mirrors_seenBy d) rfl rfl⟩

/-- Work that writes answers, and changes the plain map. -/
theorem alike_makes {α : Type} {x : Work Empty α} {r : Outcome α} {m : PlainMap} (f : α → Reply)
    (hx : x.Makes (w.seenBy d) r d.column m.get) :
    Alike (Store.answer f (Store.submit d x) s) (.of f r.toExcept, p.set name m) := by
  obtain ⟨w', hx, hw⟩ := hx
  obtain ⟨s', hrun, hs, hkeeps⟩ := h.isIn.submit hd hx hw.stripes hw.names_eq
  unfold Store.answer
  rw [hrun]
  exact ⟨rfl, w', h.of_writes hd hs hkeeps hw⟩

/-! ## Reads -/

/-- Work that reads at a token answers from the maps that the token shows. -/
theorem alike_shown {α : Type} {x : Work Empty α} {token : Option Token} (f : α → Reply)
    (g : PlainMap → Reply)
    (hdone : ∀ view (m : PlainMap), (w.seenBy d).snapshots.resolve token = .ok view →
      (w.seenBy d).CanRead view → m.get = (w.seenBy d).seen d.column view →
      ∃ a, x.Takes (w.seenBy d) (.done a) (w.seenBy d) ∧ f a = g m)
    (hfailed : ∀ e, (w.seenBy d).snapshots.resolve token = .error e →
      x.Takes (w.seenBy d) (.failed e) (w.seenBy d)) :
    Alike (Store.answer f (Store.submit d x) s)
      (.of (fun maps => g (maps name)) (p.shown token), p) := by
  rcases (h.mirrors_seenBy d).shown_cases token with
    ⟨maps, view, hshown, htoken, hview, hget⟩ | ⟨e, hshown, htoken⟩
  · obtain ⟨a, hx, hfg⟩ := hdone view (maps name) htoken hview (h.column_eq hd ▸ hget name)
    have halike := h.alike_reads hd f hx
    rw [hshown, Reply.of, ← hfg]
    exact halike
  · rw [hshown]
    exact h.alike_reads hd f (hfailed e htoken)

/-- A point read shows what the map shows, at the moment that is asked for. -/
theorem alike_get (token : Option Token) (key : Bytes) (sure : Bool) :
    Alike ((DictionaryOp.get token key sure).run d s)
      ((DictionaryOp.get token key sure).plain name d.mode p) :=
  h.alike_shown hd .value (fun m => .value (m.get key))
    (fun _ _ htoken hview hget =>
      ⟨_, Dictionary.takes_get (h.atRest hd) htoken hview key sure, by rw [hget]⟩)
    fun _ htoken => Dictionary.takes_get_failed htoken key sure

/-- So does the first entry of a range. -/
theorem alike_getFirst (token : Option Token) (range : KeyRange) :
    Alike ((DictionaryOp.getFirst token range).run d s)
      ((DictionaryOp.getFirst token range).plain name d.mode p) :=
  h.alike_shown hd .entry (fun m => .entry (m.within range).head?)
    (fun _ m htoken hview hget =>
      ⟨_, Dictionary.takes_getFirst (h.atRest hd) htoken hview (hget ▸ m.lists_within range), rfl⟩)
    fun _ htoken => Dictionary.takes_getFirst_failed htoken range

/-- A range is empty if it has no first entry. -/
theorem alike_isEmpty (token : Option Token) (range : KeyRange) :
    Alike ((DictionaryOp.isEmpty token range).run d s)
      ((DictionaryOp.isEmpty token range).plain name d.mode p) := by
  have hfirst := h.alike_shown hd (x := d.getFirst token range) (fun e => .truth e.isNone)
    (fun m => .truth (m.within range).isEmpty)
    (fun _ m htoken hview hget =>
      ⟨_, Dictionary.takes_getFirst (h.atRest hd) htoken hview (hget ▸ m.lists_within range), by
        cases m.within range <;> rfl⟩)
    fun _ htoken => Dictionary.takes_getFirst_failed htoken range
  rw [DictionaryOp.run, Store.isEmpty, bind_pure_comp, Store.answer_map]
  exact hfirst

/-- The size of a range is that of the map, up to the cap of fast sizes. -/
theorem alike_size (token : Option Token) (range : KeyRange) (fast : Bool) :
    Alike ((DictionaryOp.size token range fast).run d s)
      ((DictionaryOp.size token range fast).plain name d.mode p) := by
  rw [DictionaryOp.run, Store.answer, DictionaryOp.plain, h.config_eq]
  rcases (h.mirrors_seenBy d).shown_cases token with
    ⟨maps, view, hshown, htoken, hview, hget⟩ | ⟨e, hshown, htoken⟩
  · obtain ⟨s', hrun, hs, hkeeps⟩ := h.isIn.size hd htoken hview (h.column_eq hd ▸ hget name) range fast
    rw [hrun, hshown]
    exact ⟨rfl, _, h.of_keeps hs hkeeps (h.mirrors_seenBy d) rfl rfl⟩
  · rw [h.isIn.size_failed d htoken range fast, hshown]
    exact ⟨rfl, w, h⟩

/-! ## Streams -/

/-- What a consumer collects from a stream is what the stream hands out. -/
private theorem collect_eq {ε : Type} {x : Stream ε} {limit : Nat}
    {items : List (Except StoreError ε)}
    (hserves : ∃ b, x.Serves limit s.database.pool (s.backend d) items b ∧ b.IsIn w')
    (hstripes : w'.stripes = (w.seenBy d).stripes) (hnames : w'.ledger.names = w.ledger.names)
    (f : List (Except StoreError ε) → Bool → Reply) :
    ∃ s', Store.collect d f limit x s = (.cut f limit items, s') ∧ s'.IsIn w' ∧ s.Keeps s' := by
  obtain ⟨b, hserves, hb⟩ := hserves
  exact ⟨_, h.isIn.isIdle.collect_eq hd hserves (hb.stripes_eq.trans hstripes) f,
    h.isIn.moved hb hnames, rfl⟩

/-- A stream that reads hands out its first items, and changes nothing. -/
theorem alike_collect_reads {ε : Type} {x : Stream ε} {limit : Nat}
    {items : List (Except StoreError ε)} (f : List (Except StoreError ε) → Bool → Reply)
    (hserves : ∃ b, x.Serves limit s.database.pool (s.backend d) items b ∧ b.IsIn (w.seenBy d)) :
    Alike (Store.collect d f limit x s) (.cut f limit items, p) := by
  obtain ⟨s', hrun, hs, hkeeps⟩ := h.collect_eq hd hserves rfl rfl f
  rw [hrun]
  exact ⟨rfl, _, h.of_keeps hs hkeeps (h.mirrors_seenBy d) rfl rfl⟩

/-- A stream that writes hands out its first items, and changes the plain map. -/
theorem alike_collect_makes {ε : Type} {x : Stream ε} {limit : Nat}
    {items : List (Except StoreError ε)} {m : PlainMap}
    (f : List (Except StoreError ε) → Bool → Reply)
    (hserves : ∃ b, x.Serves limit s.database.pool (s.backend d) items b ∧ b.IsIn w')
    (hw : (w.seenBy d).Writes d.column m.get w') :
    Alike (Store.collect d f limit x s) (.cut f limit items, p.set name m) := by
  obtain ⟨s', hrun, hs, hkeeps⟩ := h.collect_eq hd hserves hw.stripes hw.names_eq f
  rw [hrun]
  exact ⟨rfl, w', h.of_writes hd hs hkeeps hw⟩

/-- A read of many keys shows the map key by key, or fails in each of its windows. -/
theorem alike_getMany (token : Option Token) (keys : List Bytes) (sure : Bool) (limit : Nat) :
    Alike ((DictionaryOp.getMany token keys sure limit).run d s)
      ((DictionaryOp.getMany token keys sure limit).plain name d.mode p) := by
  have hne : ∀ window ∈ p.keyWindows keys, window ≠ [] := fun _ => ne_nil_of_mem_windows
  have hflatten : (p.keyWindows keys).flatten = keys := flatten_windows _ _
  rw [DictionaryOp.run, Dictionary.getMany, h.keyWindows_eq hd, DictionaryOp.plain]
  -- The maps know the token exactly if the register does.
  rcases (h.mirrors_seenBy d).shown_cases token with
    ⟨maps, view, hshown, htoken, hview, hget⟩ | ⟨e, hshown, htoken⟩
  · have hhands := Dictionary.handsOut_getWindow (h.atRest hd) htoken hview sure limit hne
    have hitems : (keys.map fun key => (key, (w.seenBy d).seen d.column view key)).map .ok
        = keys.map fun key => (.ok (key, (maps name).get key) : Except StoreError _) := by
      rw [hget name, ← h.column_eq hd, List.map_map]
      rfl
    rw [hflatten, hitems] at hhands
    rw [hshown]
    exact h.alike_collect_reads hd .values
      (Stream.serves_windowed hhands h.isIn.pool.isClosed_eq (h.isIn.backend_isIn hd))
  · have hhands := Dictionary.handsOut_getWindow_failed (d := d) htoken sure limit (p.keyWindows keys)
    rw [hshown]
    exact h.alike_collect_reads hd .values
      (Stream.serves_windowed hhands h.isIn.pool.isClosed_eq (h.isIn.backend_isIn hd))

/-- A write of many keys answers and leaves what single puts would. -/
theorem alike_putMany (entries : List Entry) (wantsPrevious : Bool) (limit : Nat) :
    Alike ((DictionaryOp.putMany entries wantsPrevious limit).run d s)
      ((DictionaryOp.putMany entries wantsPrevious limit).plain name d.mode p) := by
  have hflatten : (p.entryWindows entries).flatten = entries := flatten_windows _ _
  have hne : ∀ window ∈ p.entryWindows entries, window ≠ [] := fun _ => ne_nil_of_mem_windows
  obtain ⟨w', hhands, hw⟩ := Dictionary.handsOut_putWindow (h.atRest hd) wantsPrevious limit hne
  rw [hflatten, ← h.get_now hd] at hhands
  rw [← h.get_now hd, ← PlainMap.get_puts] at hw
  rw [DictionaryOp.run, Dictionary.putMany, h.entryWindows_eq hd]
  exact h.alike_collect_makes hd .previous
    (Stream.serves_windowed hhands h.isIn.pool.isClosed_eq (h.isIn.backend_isIn hd)) hw

/-- A stream of a producer that reads at a token hands out what the maps that the token shows
have. -/
theorem alike_stream {ε : Type} {x : Work ε Unit} {token : Option Token} {items : PlainMap → List ε}
    (f : List (Except StoreError ε) → Bool → Reply) (limit : Nat)
    (hsends : ∀ view (m : PlainMap), (w.seenBy d).snapshots.resolve token = .ok view →
      (w.seenBy d).CanRead view → m.get = (w.seenBy d).seen d.column view →
      x.Sends (w.seenBy d) ((items m).map .ok))
    (hfailed : ∀ e, (w.seenBy d).snapshots.resolve token = .error e →
      x.Sends (w.seenBy d) [.error e]) :
    Alike (Store.collect d f limit (d.producing x) s) (p.stream f limit token name items, p) := by
  have hserves := fun {items : List (Except StoreError ε)} (hx : x.Sends (w.seenBy d) items) =>
    Stream.serves_produced hx h.isIn.pool.isClosed_eq h.isIn.pool.scans (h.isIn.backend_isIn hd)
      limit d.config.streamBuffer
  unfold PlainStore.stream
  rcases (h.mirrors_seenBy d).shown_cases token with
    ⟨maps, view, hshown, htoken, hview, hget⟩ | ⟨e, hshown, htoken⟩
  · rw [hshown]
    exact h.alike_collect_reads hd f
      (hserves (hsends view (maps name) htoken hview (h.column_eq hd ▸ hget name)))
  · rw [hshown]
    exact h.alike_collect_reads hd f (hserves (hfailed e htoken))

/-- A stream of entries shows the range of the map. -/
theorem alike_getEntries (token : Option Token) (range : KeyRange) (limit : Nat) :
    Alike ((DictionaryOp.getEntries token range limit).run d s)
      ((DictionaryOp.getEntries token range limit).plain name d.mode p) :=
  h.alike_stream hd .entries limit
    (fun _ m htoken hview hget =>
      Dictionary.sends_streamEntries (h.atRest hd) htoken hview (hget ▸ m.lists_within range) id)
    fun _ htoken => Work.sends_view_failed htoken _

theorem alike_getKeys (token : Option Token) (range : KeyRange) (limit : Nat) :
    Alike ((DictionaryOp.getKeys token range limit).run d s)
      ((DictionaryOp.getKeys token range limit).plain name d.mode p) := by
  refine h.alike_stream hd .keys limit (fun _ m htoken hview hget => ?_)
    fun _ htoken => Work.sends_view_failed htoken _
  rw [PlainMap.keysWithin, List.map_map]
  exact Dictionary.sends_streamEntries (h.atRest hd) htoken hview (hget ▸ m.lists_within range)
    Prod.fst

/-- Groups are the runs of entries with the same stem. -/
theorem alike_getGroups (stemLen : Nat) (token : Option Token) (range : KeyRange) (limit : Nat) :
    Alike ((DictionaryOp.getGroups stemLen token range limit).run d s)
      ((DictionaryOp.getGroups stemLen token range limit).plain name d.mode p) := by
  refine h.alike_stream hd .groups limit (fun _ m htoken hview hget => ?_)
    fun _ htoken => Work.sends_view_failed htoken _
  have hsends := Dictionary.sends_streamGroups (h.atRest hd) htoken hview
    (hget ▸ m.lists_within range) id stemLen
  simpa [PlainMap.groupsWithin] using hsends

theorem alike_getKeyGroups (stemLen : Nat) (token : Option Token) (range : KeyRange) (limit : Nat) :
    Alike ((DictionaryOp.getKeyGroups stemLen token range limit).run d s)
      ((DictionaryOp.getKeyGroups stemLen token range limit).plain name d.mode p) := by
  refine h.alike_stream hd .keyGroups limit (fun _ m htoken hview hget => ?_)
    fun _ htoken => Work.sends_view_failed htoken _
  rw [List.map_map]
  exact Dictionary.sends_streamGroups (h.atRest hd) htoken hview (hget ▸ m.lists_within range)
    Prod.fst stemLen

/-- Stems are handed out once for each run. -/
theorem alike_getStems (stemLen : Nat) (token : Option Token) (range : KeyRange) (limit : Nat) :
    Alike ((DictionaryOp.getStems stemLen token range limit).run d s)
      ((DictionaryOp.getStems stemLen token range limit).plain name d.mode p) :=
  h.alike_stream hd .keys limit
    (fun _ m htoken hview hget =>
      Dictionary.sends_streamStems (h.atRest hd) htoken hview (hget ▸ m.lists_within range) stemLen)
    fun _ htoken => Work.sends_view_failed htoken _

/-! ## Writes -/

/-- A put answers the old value if it is asked for, and puts the new one into the map. -/
theorem alike_put (key value : Bytes) (result : ResultType) :
    Alike ((DictionaryOp.put key value result).run d s)
      ((DictionaryOp.put key value result).plain name d.mode p) := by
  have hput := Dictionary.takes_put (ε := Empty) (h.atRest hd) key value result
  have hw := World.Writes.commit (w.seenBy d) d.column [.put key value]
  rw [← h.get_now hd] at hput hw
  exact h.alike_makes hd .value (m := (p.now name).apply (.put key value)) ⟨_, hput, by
    rw [PlainMap.get_apply]
    exact hw⟩

/-- A removal answers the old value and deletes the key from the map. -/
theorem alike_remove (key : Bytes) (result : ResultType) :
    Alike ((DictionaryOp.remove key result).run d s)
      ((DictionaryOp.remove key result).plain name d.mode p) := by
  have hremove := Dictionary.takes_remove (ε := Empty) (h.atRest hd) key result
  have hw := World.Writes.commit (w.seenBy d) d.column [.delete key]
  rw [← h.get_now hd] at hremove hw
  exact h.alike_makes hd .value (m := (p.now name).apply (.delete key)) ⟨_, hremove, by
    rw [PlainMap.get_apply]
    exact hw⟩

/-- The first entry of a range is taken out of the map.  Nobody else acts, so the first attempt
finds it. -/
theorem alike_removeFirst (range : KeyRange) :
    Alike ((DictionaryOp.removeFirst range).run d s)
      ((DictionaryOp.removeFirst range).plain name d.mode p) := by
  have hlists := (p.now name).lists_within range
  rw [h.get_now hd] at hlists
  have hremove := Dictionary.takes_removeFirst (ε := Empty) (h.atRest hd) hlists 0
  rw [DictionaryOp.run, Store.removeFirst, DictionaryOp.plain]
  cases hfirst : ((p.now name).within range).head? with
  | none =>
    rw [hfirst] at hremove
    exact h.alike_reads hd .entry hremove
  | some e =>
    rw [hfirst] at hremove
    obtain ⟨key, value⟩ := e
    have hw := World.Writes.commit (w.seenBy d) d.column [.delete key]
    rw [← h.get_now hd] at hw
    exact h.alike_makes hd .entry (m := (p.now name).apply (.delete key)) ⟨_, hremove, by
      rw [PlainMap.get_apply]
      exact hw⟩

/-- A cleared dictionary is the empty map. -/
theorem alike_clear :
    Alike (DictionaryOp.clear.run d s) (DictionaryOp.clear.plain name d.mode p) := by
  have hlists := (p.now name).lists_within .all
  rw [h.get_now hd] at hlists
  exact h.alike_makes hd (fun _ => .done) (m := .empty)
    (Dictionary.makes_clear (h.atRest hd) hlists)

/-- The work of an update also tells how many batches it committed. -/
theorem alike_commits {α : Type} {x : Work Empty α} {r : Outcome α} {m : PlainMap}
    (f : Except StoreError α → Nat → Reply) (hx : x.Takes (w.seenBy d) r w')
    (hw : (w.seenBy d).Writes d.column m.get w') {commits : Nat}
    (hcommits : w'.ledger.history.length = w.ledger.history.length + commits) :
    Alike
      (let (r, s') := (Store.submit d x).run s
      (f r (s'.engine.engine.sequence - s.engine.engine.sequence), s'))
      (f r.toExcept commits, p.set name m) := by
  obtain ⟨s', hrun, hs, hkeeps⟩ := h.isIn.submit hd hx hw.stripes hw.names_eq
  have hsequence : s'.engine.engine.sequence - s.engine.engine.sequence = commits := by
    rw [hs.sequence_eq, h.isIn.sequence_eq, hcommits, Nat.add_sub_cancel_left]
  simp only [hrun, hsequence]
  exact ⟨rfl, w', h.of_writes hd hs hkeeps hw⟩

/-- An update without effect commits nothing, any other one batch. -/
theorem alike_update (key : Bytes) (f : Updater) (sure : Bool) :
    Alike ((DictionaryOp.update key f sure).run d s)
      ((DictionaryOp.update key f sure).plain name d.mode p) := by
  obtain ⟨hname, hopened, -⟩ := h.isIn.find?_eq hd
  rw [DictionaryOp.run, Dictionary.update]
  cases hmode : d.mode with
  | disallow =>
    rw [hname]
    have hcommits : s.engine.engine.sequence - s.engine.engine.sequence = 0 := Nat.sub_self _
    exact ⟨congrArg (Reply.updated _) hcommits, w, h⟩
  | allow =>
    obtain ⟨striping, hstriping⟩ := Option.isSome_iff_exists.mp (hopened.striping hmode)
    have hrest := h.atRest hd
    have hlt : striping.index key < (w.seenBy d).stripes.length := by
      rw [hrest.stripes_eq, hstriping]
      simpa [Stripes.idle, Striping.index] using Nat.mod_lt _ striping.count_pos
    have hnow := h.get_now hd
    rw [hstriping]
    simp only [DictionaryOp.plain, PlainStore.update, Store.submitStep]
    rw [hnow]
    cases hf : f ((w.seenBy d).now d.column key) with
    | none =>
      -- The updater broke down before anything was written.
      have hupdate := Dictionary.takes_updateAt_panicked (ε := Empty) hrest.column hrest.areIdle
        (striping.index key) key hf sure
      have hw := World.Writes.refl (w.seenBy d) d.column
      rw [← hnow] at hw
      exact h.alike_commits hd .updated hupdate hw rfl
    | some current =>
      have hupdate := Dictionary.takes_updateAt (ε := Empty) hrest.column hrest.areIdle hlt key hf sure
      have hw := Dictionary.writes_updated (w.seenBy d) d.column key current
      rw [← hnow, ← PlainMap.get_apply] at hw
      refine h.alike_commits hd .updated hupdate hw ?_
      unfold Dictionary.updated
      split
      · rfl
      · simp [World.commit, World.seenBy]

/-- To set a range is to delete it and to fill it window by window. -/
theorem alike_setRange (range : KeyRange) (entries : List Entry) :
    Alike ((DictionaryOp.setRange range entries).run d s)
      ((DictionaryOp.setRange range entries).plain name d.mode p) := by
  have hwindows := h.entryWindows_eq hd entries
  have hlists := (p.now name).lists_within range
  rw [h.get_now hd] at hlists
  -- The range is deleted first; the windows are put into what that leaves.
  obtain ⟨w₁, hdelete, hw₁⟩ := Dictionary.makes_deleteRange (ε := Empty) (h.atRest hd) hlists
  rw [← h.get_now hd, ← PlainMap.get_apply] at hw₁
  obtain ⟨b₁, hends, hb₁⟩ := hdelete _ (h.isIn.backend_isIn hd)
  obtain ⟨b', w', hsteps, hb', hw'⟩ := Pool.runSteps_writeSteps h.isIn.pool.isClosed_eq hb₁
    ((h.atRest hd).writes hw₁) range (p.entryWindows entries) hw₁.now.symm
  have hreplace : s.database.pool.runSteps (d.replaceSteps range entries) (s.backend d)
      = ((((p.now name).apply (.deleteRange range)).fill range (p.entryWindows entries)).1, b') := by
    have hrun : s.database.pool.run (d.deleteRange range) (s.backend d) = (.ok (), b₁) := by
      rw [Pool.run, h.isIn.pool.isClosed_eq]
      exact hends.run_eq
    rw [Dictionary.replaceSteps, Dictionary.writeSteps, hwindows]
    simp only [Pool.runSteps, hrun]
    exact hsteps
  have hw := hw₁.trans hw'
  obtain ⟨s', hrun, hs, hkeeps⟩ := h.isIn.onBackend hd (f := fun pool b =>
    ((pool.runSteps (d.replaceSteps range entries) b).1, pool,
      (pool.runSteps (d.replaceSteps range entries) b).2)) (by rw [hreplace]) hb' hw.stripes hw.names_eq
  have hset : (Store.setRange d range entries).run s = _ := hrun
  rw [DictionaryOp.run, Store.answer, hset]
  exact ⟨rfl, w', h.of_writes hd hs hkeeps hw⟩

/-- For a consumer that asks for some items, entries are removed as far ahead as the channel
goes. -/
private theorem runs_drain (range : KeyRange) (k : Nat) :
    ∃ b₁ w₁, (d.drain range).Runs k (s.backend d)
        ((((p.now name).within range).take k).map .ok) (.done ()) b₁ ∧
      b₁.IsIn w₁ ∧
      (w.seenBy d).Writes d.column ((p.now name).without (((p.now name).within range).take k)).get
        w₁ := by
  have hlists := (p.now name).lists_within range
  rw [h.get_now hd] at hlists
  obtain ⟨items, r, b₁, w₁, hruns, hb₁, ⟨accepted, deleted, hdrained, rfl, hw₁⟩, hdone⟩ :=
    (Dictionary.endures_drain (h.atRest hd) hlists k).exists_runs (h.isIn.backend_isIn hd)
  obtain rfl := hdone rfl
  obtain ⟨rfl, rfl⟩ := hdrained.eq_take
  rw [← h.get_now hd, ← PlainMap.get_without] at hw₁
  exact ⟨b₁, w₁, hruns, hb₁, hw₁⟩

/-- A consumer that sees the end of the old entries has the new ones written. -/
private theorem alike_replaced_of_ended (range : KeyRange) (entries : List Entry) {limit : Nat}
    (hlength : ((p.now name).within range).length < limit + 1) :
    Alike (Store.collect d .entries (limit + 1) (d.replaced range entries) s)
      (.cut .entries (limit + 1) (((p.now name).within range).map .ok ++ Stream.failureItem
          (((p.now name).apply (.deleteRange range)).fill range (p.entryWindows entries)).1),
        p.set name
          (((p.now name).apply (.deleteRange range)).fill range (p.entryWindows entries)).2) := by
  obtain ⟨b₁, w₁, hruns, hb₁, hw₁⟩ :=
    h.runs_drain hd range (max d.config.streamBuffer 1 + (limit + 1))
  -- More was asked for than there is, so all entries of the range were removed.
  have hall : ((p.now name).within range).take (max d.config.streamBuffer 1 + (limit + 1))
      = (p.now name).within range := List.take_of_length_le (by omega)
  have hremoved : ((p.now name).without ((p.now name).within range)).get
      = ((p.now name).apply (.deleteRange range)).get := by
    rw [PlainMap.get_without, PlainMap.get_apply,
      ((p.now name).lists_within range).applyAll_deletions]
  rw [hall] at hruns hw₁
  rw [hremoved] at hw₁
  obtain ⟨b', w', hsteps, hb', hw'⟩ := Pool.runSteps_writeSteps h.isIn.pool.isClosed_eq hb₁
    ((h.atRest hd).writes hw₁) range (p.entryWindows entries) hw₁.now.symm
  have hserves := Stream.serves_followed_of_ended hruns h.isIn.pool.isClosed_eq
    h.isIn.pool.scans hlength hsteps
  rw [Dictionary.replaced, Dictionary.writeSteps, h.entryWindows_eq hd]
  exact h.alike_collect_makes hd .entries ⟨b', hserves, hb'⟩ (hw₁.trans hw')

/-- A consumer that goes away earlier leaves the new entries unwritten. -/
private theorem alike_replaced_of_left (range : KeyRange) (entries : List Entry) {limit : Nat}
    (hlength : limit + 1 ≤ ((p.now name).within range).length) :
    Alike (Store.collect d .entries (limit + 1) (d.replaced range entries) s)
      (.cut .entries (limit + 1) (((p.now name).within range).map .ok),
        p.set name ((p.now name).without
          (((p.now name).within range).take (max d.config.streamBuffer 1 + (limit + 1))))) := by
  obtain ⟨b₁, w₁, hruns, hb₁, hw₁⟩ :=
    h.runs_drain hd range (max d.config.streamBuffer 1 + (limit + 1))
  have hserves := Stream.serves_followed_of_runs hruns h.isIn.pool.isClosed_eq h.isIn.pool.scans
    (.inl (by rw [List.length_map, List.length_take]; omega)) (d.writeSteps range entries)
  rw [Outcome.report, List.append_nil] at hserves
  rw [Dictionary.replaced,
    ← Reply.cut_take .entries (Nat.le_add_left (limit + 1) (max d.config.streamBuffer 1)),
    ← List.map_take]
  exact h.alike_collect_makes hd .entries ⟨b₁, hserves, hb₁⟩ hw₁

/-- The old entries are handed out before the new ones are written. -/
theorem alike_replaceRange (range : KeyRange) (entries : List Entry) (limit : Nat) :
    Alike ((DictionaryOp.replaceRange range entries limit).run d s)
      ((DictionaryOp.replaceRange range entries limit).plain name d.mode p) := by
  have hbuffer : d.config.streamBuffer = p.config.streamBuffer := by
    rw [(h.isIn.find?_eq hd).2.1.config_eq, h.config_eq]
  rw [DictionaryOp.run, DictionaryOp.plain, PlainStore.removed, ← hbuffer]
  cases limit with
  | zero =>
    -- Nobody asks for anything, so nothing is started.
    have hw := World.Writes.refl (w.seenBy d) d.column
    rw [← h.get_now hd] at hw
    exact h.alike_collect_makes hd .entries
      ⟨s.backend d, ⟨_, _, _, rfl, rfl⟩, h.isIn.backend_isIn hd⟩ hw
  | succ limit =>
    by_cases hlength : ((p.now name).within range).length < limit + 1
    · rw [if_pos hlength]
      exact h.alike_replaced_of_ended hd range entries hlength
    · rw [if_neg hlength, if_neg (Nat.succ_ne_zero limit)]
      exact h.alike_replaced_of_left hd range entries (Nat.not_lt.mp hlength)

/-- Every operation of a dictionary answers as on plain maps. -/
theorem alike_op (op : DictionaryOp) : Alike (op.run d s) (op.plain name d.mode p) := by
  cases op with
  | get token key sure => exact h.alike_get hd token key sure
  | getMany token keys sure limit => exact h.alike_getMany hd token keys sure limit
  | getFirst token range => exact h.alike_getFirst hd token range
  | isEmpty token range => exact h.alike_isEmpty hd token range
  | size token range fast => exact h.alike_size hd token range fast
  | getEntries token range limit => exact h.alike_getEntries hd token range limit
  | getKeys token range limit => exact h.alike_getKeys hd token range limit
  | getGroups stemLen token range limit => exact h.alike_getGroups hd stemLen token range limit
  | getKeyGroups stemLen token range limit => exact h.alike_getKeyGroups hd stemLen token range limit
  | getStems stemLen token range limit => exact h.alike_getStems hd stemLen token range limit
  | put key value result => exact h.alike_put hd key value result
  | remove key result => exact h.alike_remove hd key result
  | update key f sure => exact h.alike_update hd key f sure
  | putMany entries wantsPrevious limit => exact h.alike_putMany hd entries wantsPrevious limit
  | setRange range entries => exact h.alike_setRange hd range entries
  | replaceRange range entries limit => exact h.alike_replaceRange hd range entries limit
  | removeFirst range => exact h.alike_removeFirst hd range
  | clear => exact h.alike_clear hd

end Dictionary

/-! ## Operations of the database -/

/-- The same dictionaries are open in the same modes. -/
theorem mode?_eq (h : s.Refines p w) (name : String) :
    p.mode? name = (s.database.find? name).map (·.mode) := by
  rw [PlainStore.mode?, h.modes_eq, Database.find?]
  induction s.database.dictionaries with
  | nil => rfl
  | cons e rest ih =>
    by_cases hname : e.1.name = name
    · simp [hname]
    · have hne : (name == e.1.name) = false := by simpa using Ne.symm hname
      simp [List.lookup_cons, hne, hname, ih]

/-- An opened dictionary is an empty map, or the one that it was. -/
theorem alike_opening (h : s.Refines p w) (name : String) (mode : UpdateMode) :
    Alike ((Act.opening name mode).run s) ((Act.opening name mode).plain p) := by
  rw [Act.run, Act.plain, h.mode?_eq]
  unfold Store.answer
  -- The name is known, and then the mode has to be the same, or it gets a column of its own.
  cases hd : s.database.find? name with
  | some d =>
    rw [h.isIn.run_dictionary_of_find? hd]
    by_cases hmode : d.mode = mode
    · simp only [hmode, Option.map_some, if_pos]
      exact ⟨rfl, w, h⟩
    · simp only [Option.map_some, if_neg hmode]
      exact ⟨rfl, w, h⟩
  | none =>
    obtain ⟨d, s', hrun, hs, hdatabase, hname, hmode⟩ := h.isIn.run_dictionary_of_none hd mode
    rw [hrun]
    have hcreated := h.mirrors.createColumn (fun b hb => by
      rw [h.isIn.backend.agrees.length_names]
      exact h.isIn.backend.agrees.represents.column_lt b hb) name
    refine ⟨rfl, _, hs, ⟨hcreated.now, hcreated.frozen, hcreated.nextId, hcreated.pinned⟩, ?_, ?_⟩
    · rw [hdatabase]
      exact h.config_eq
    · rw [hdatabase]
      simp [h.modes_eq, hname, hmode]

/-- A snapshot freezes the maps of its moment. -/
theorem alike_takeSnapshot (h : s.Refines p w) :
    Alike (Act.takeSnapshot.run s) (Act.takeSnapshot.plain p) := by
  obtain ⟨s', hrun, hs, hkeeps⟩ := h.isIn.submitPlain
    (Work.takes_takeSnapshot (ε := Empty) (w := { w with stripes := [] }) s.database.engineName) rfl
  have hmirrors := (h.mirrors.with_stripes []).takeSnapshot
  have htake : Store.takeSnapshot.run s = (.ok w.snapshots.nextId, s') := by
    unfold Store.takeSnapshot
    rw [Store.run_bind_of_ok h.isIn.run_checkOpen, Store.run_bind_of_ok Store.run_get]
    exact hrun
  rw [Act.run, Act.plain, Store.answer, htake]
  exact ⟨congrArg Reply.token h.mirrors.nextId.symm, _, h.of_keeps hs hkeeps
    hmirrors rfl rfl⟩

/-- A release forgets the frozen maps of one token. -/
theorem alike_releaseSnapshot (h : s.Refines p w) (token : Token) :
    Alike ((Act.releaseSnapshot token).run s) ((Act.releaseSnapshot token).plain p) := by
  rw [Act.run, Act.plain, Store.answer, Store.releaseSnapshot]
  rcases h.mirrors.live_cases token with ⟨maps, q, hcopy, hlive⟩ | ⟨hcopy, hlive⟩
  · obtain ⟨s', hrun, hs, hkeeps⟩ := h.isIn.submitPlain
      (Work.takes_releaseSnapshot (ε := Empty) (w := { w with stripes := [] }) hlive) rfl
    have hmirrors := (h.mirrors.with_stripes []).releaseSnapshot hlive
    rw [hrun, hcopy]
    exact ⟨rfl, _, h.of_keeps hs hkeeps hmirrors rfl rfl⟩
  · obtain ⟨s', hrun, hs, hkeeps⟩ := h.isIn.submitPlain
      (Work.takes_releaseSnapshot_failed (ε := Empty) (w := { w with stripes := [] }) hlive) rfl
    rw [show Snapshots.forget _ token = w.snapshots from Snapshots.forget_of_not_live hlive] at hs
    rw [hrun, hcopy]
    exact ⟨rfl, _, h.of_keeps hs hkeeps (h.mirrors.with_stripes []) rfl rfl⟩

/-- A flush changes no map. -/
theorem alike_flush (h : s.Refines p w) : Alike (Act.flush.run s) (Act.flush.plain p) := by
  have hcall := h.isIn.run_callEngine "flush" s.database.name .flush
  have hanswer : (s.engine.engine.answer .flush).1 = .ok () :=
    Engine.checkOpen_of_open h.isIn.backend.isClosed_eq
  have hflush : Store.flush.run s
      = (.ok (), { s with engine := .reliable (s.engine.engine.answer .flush).2 }) := by
    unfold Store.flush
    rw [Store.run_bind_of_ok h.isIn.run_checkOpen, Store.run_bind_of_ok Store.run_get, hcall, hanswer]
    rfl
  rw [Act.run, Act.plain, Store.answer, hflush]
  exact ⟨rfl, _, h.of_keeps (h.isIn.moved (h.isIn.backend.answer .flush) rfl) rfl
    (h.mirrors.with_stripes []) rfl rfl⟩

/-- **Every operation of a database answers as on plain maps**, and the states after it correspond
again. -/
theorem alike_act (h : s.Refines p w) (act : Act) : Alike (act.run s) (act.plain p) := by
  cases act with
  | opening name mode => exact h.alike_opening name mode
  | on name op =>
    have hmode := h.mode?_eq name
    cases hd : s.database.find? name with
    | some d =>
      rw [hd] at hmode
      simp only [Act.run, Act.plain, hd, hmode, Option.map_some]
      exact h.alike_op hd op
    | none =>
      rw [hd] at hmode
      simp only [Act.run, Act.plain, hd, hmode, Option.map_none]
      exact ⟨rfl, w, h⟩
  | takeSnapshot => exact h.alike_takeSnapshot
  | releaseSnapshot token => exact h.alike_releaseSnapshot token
  | flush => exact h.alike_flush

end Store.Refines

end SnapshotStore
