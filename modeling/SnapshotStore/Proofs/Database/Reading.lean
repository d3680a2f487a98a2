import SnapshotStore.Proofs.Database.Frozen

/-!
# Reading a dictionary

An operation that only reads is determined by the map that it reads, and the map by what such
operations answer.  So that a dictionary has some contents, now or at a snapshot, means that every
read of it answers from these contents (`Store.Holds`); and what does not change the map of a name
does not change the answer of any read of it (`DictionaryOp.plain_eq_of_shownAt`).
-/

namespace SnapshotStore

/-! ## On plain maps -/

/-- The snapshot that an operation reads at, if the operation only reads. -/
def DictionaryOp.readsAt? : DictionaryOp → Option (Option Token)
  | get token _ _ => some token
  | getMany token _ _ _ => some token
  | getFirst token _ => some token
  | isEmpty token _ => some token
  | size token _ _ => some token
  | getEntries token _ _ => some token
  | getKeys token _ _ => some token
  | getGroups _ token _ _ => some token
  | getKeyGroups _ token _ _ => some token
  | getStems _ token _ _ => some token
  | _ => none

namespace PlainStore

variable {p p' : PlainStore} {name other : String} {token : Option Token}

/-- The map of a name that an optional snapshot shows. -/
def shownAt (p : PlainStore) (token : Option Token) (name : String) : Except StoreError PlainMap :=
  (p.shown token).map (· name)

/-- If two stores show the same map, both know the token or neither does. -/
theorem shownAt_cases (h : p.shownAt token name = p'.shownAt token name) :
    (∃ maps maps', p.shown token = .ok maps ∧ p'.shown token = .ok maps' ∧ maps name = maps' name) ∨
      ∃ e, p.shown token = .error e ∧ p'.shown token = .error e := by
  unfold shownAt at h
  cases hp : p.shown token with
  | ok maps =>
    cases hp' : p'.shown token with
    | ok maps' =>
      rw [hp, hp'] at h
      exact .inl ⟨maps, maps', rfl, rfl, Except.ok.inj h⟩
    | error e =>
      rw [hp, hp'] at h
      cases h
  | error e =>
    cases hp' : p'.shown token with
    | ok maps' =>
      rw [hp, hp'] at h
      cases h
    | error e' =>
      rw [hp, hp'] at h
      exact .inr ⟨e, rfl, congrArg _ (Except.error.inj h).symm⟩

@[simp] theorem now_set_self (p : PlainStore) (name : String) (m : PlainMap) :
    (p.set name m).now name = m := Function.update_self ..

theorem now_set_of_ne (p : PlainStore) (m : PlainMap) (h : other ≠ name) :
    (p.set name m).now other = p.now other := Function.update_of_ne h ..

/-- To set a map to what it is changes nothing. -/
theorem set_now (p : PlainStore) (name : String) : p.set name (p.now name) = p := by
  rw [PlainStore.set, Function.update_eq_self]

/-- A store with another map for one name shows the other names, and the copies, as before. -/
theorem shownAt_set (p : PlainStore) (m : PlainMap) (h : other ≠ name ∨ token ≠ none) :
    (p.set name m).shownAt token other = p.shownAt token other := by
  cases token with
  | none =>
    have hne : other ≠ name := h.resolve_right fun hnone => hnone rfl
    exact congrArg Except.ok (p.now_set_of_ne m hne)
  | some t => rfl

@[simp] theorem shownAt_set_self (p : PlainStore) (name : String) (m : PlainMap) :
    (p.set name m).shownAt none name = .ok m :=
  congrArg Except.ok (p.now_set_self name m)

end PlainStore

section

variable {p p' : PlainStore} {name : String} {mode : UpdateMode} {op : DictionaryOp}
  {token : Option Token}

/-- An operation of a dictionary changes its map alone. -/
theorem DictionaryOp.exists_plain_eq_set (op : DictionaryOp) :
    ∃ m, (op.plain name mode p).2 = p.set name m := by
  cases op with
  | getMany token keys sure limit =>
    simp only [plain]
    split <;> exact ⟨_, (p.set_now name).symm⟩
  | update key f sure =>
    cases mode with
    | allow => exact ⟨_, rfl⟩
    | disallow => exact ⟨_, (p.set_now name).symm⟩
  | replaceRange range entries limit =>
    simp only [plain]
    split <;> exact ⟨_, rfl⟩
  | removeFirst range =>
    simp only [plain]
    split
    · exact ⟨_, rfl⟩
    · exact ⟨_, (p.set_now name).symm⟩
  | put key value result => exact ⟨_, rfl⟩
  | remove key result => exact ⟨_, rfl⟩
  | putMany entries wantsPrevious limit => exact ⟨_, rfl⟩
  | setRange range entries => exact ⟨_, rfl⟩
  | clear => exact ⟨_, rfl⟩
  | _ => exact ⟨_, (p.set_now name).symm⟩

/-- An operation that reads answers from the map of its name. -/
theorem DictionaryOp.plain_eq_of_shownAt (hop : op.readsAt? = some token)
    (hconfig : p.config = p'.config) (hshown : p.shownAt token name = p'.shownAt token name) :
    (op.plain name mode p).1 = (op.plain name mode p').1 := by
  rcases PlainStore.shownAt_cases hshown with ⟨maps, maps', hp, hp', hm⟩ | ⟨e, hp, hp'⟩
  · cases op <;> cases hop <;>
      simp only [plain, PlainStore.stream, Reply.of, hp, hp', hm, hconfig]
  · cases op <;> cases hop <;>
      simp only [plain, PlainStore.stream, PlainStore.keyWindows, Reply.of, hp, hp', hconfig]

/-- So does one by name, open or not. -/
theorem Act.plain_eq_of_shownAt (hop : op.readsAt? = some token) (hconfig : p.config = p'.config)
    (hmodes : p.modes = p'.modes) (hshown : p.shownAt token name = p'.shownAt token name) :
    ((Act.on name op).plain p).1 = ((Act.on name op).plain p').1 := by
  have hmode : p.mode? name = p'.mode? name := congrArg (·.lookup name) hmodes
  simp only [Act.plain, hmode]
  cases p'.mode? name with
  | some mode => exact DictionaryOp.plain_eq_of_shownAt hop hconfig hshown
  | none => rfl

end

/-! ## On a store -/

/-- What the engine stores for a key of a dictionary. -/
def Store.stored (s : Store) (d : Dictionary) (view : ReadView) (key : Bytes) :
    Except EngineError (Option Bytes) := s.engine.engine.get d.column view key

/-- Every read of a dictionary, now or at a snapshot, answers from some contents. -/
structure Store.Holds (s : Store) (name : String) (token : Option Token) (c : Contents) : Prop where
  /-- One key is read. -/
  get : ∀ key sure, ((Act.on name (.get token key sure)).run s).1 = .value (c key)
  /-- Many keys are read. -/
  getMany : ∀ keys sure limit, ((Act.on name (.getMany token keys sure limit)).run s).1
    = .cut .values limit (keys.map fun key => .ok (key, c key))
  /-- A range is read. -/
  getEntries : ∀ range limit, ∃ items, c.Lists range items ∧
    ((Act.on name (.getEntries token range limit)).run s).1 = .cut .entries limit (items.map .ok)

namespace Store.Matches

variable {s : Store} {p : PlainStore} {name : String} {token : Option Token} {m : PlainMap}
  {d : Dictionary} {view : ReadView}

/-- A snapshot that is there shows what is stored at it. -/
theorem shown_of_resolve (h : s.Matches p)
    (hd : s.database.find? name = some d) (hview : s.database.snapshots.resolve token = .ok view) :
    ∃ maps, p.shown token = .ok maps ∧
      ∀ key, s.stored d view key = .ok ((maps name).get key) := by
  obtain ⟨-, w, hrefines⟩ := h
  have hin := hrefines.isIn.backend_isIn hd
  have hsnapshots : s.database.snapshots = (w.seenBy d).snapshots := hin.snapshots_eq
  rcases (hrefines.mirrors_seenBy d).shown_cases token with
    ⟨maps, view', hshown, hresolve, hread, hget⟩ | ⟨e, -, hresolve⟩
  · obtain rfl : view = view' := Except.ok.inj (hview.symm.trans (hsnapshots ▸ hresolve))
    refine ⟨maps, hshown, fun key => ?_⟩
    rw [hget, ← hrefines.column_eq hd]
    exact hin.get_eq (hrefines.atRest hd).column hread key
  · rw [hsnapshots, hresolve] at hview
    cases hview

/-- The newest state stores what the map of a dictionary holds. -/
theorem stored_latest (h : s.Matches p) (hd : s.database.find? name = some d) (key : Bytes) :
    s.stored d .latest key = .ok ((p.now name).get key) := by
  have hview : s.database.snapshots.resolve none = .ok .latest := rfl
  obtain ⟨maps, hmaps, hstored⟩ := h.shown_of_resolve hd hview
  obtain rfl := Except.ok.inj hmaps
  exact hstored key

/-- A store that matches plain maps has their contents. -/
theorem holds (h : s.Matches p) {mode : UpdateMode} (hmode : p.mode? name = some mode)
    (hshown : p.shownAt token name = .ok m) : s.Holds name token m.get := by
  obtain ⟨maps, hmaps, hm⟩ : ∃ maps, p.shown token = .ok maps ∧ maps name = m := by
    unfold PlainStore.shownAt at hshown
    cases hp : p.shown token with
    | ok maps => rw [hp] at hshown; exact ⟨maps, rfl, Except.ok.inj hshown⟩
    | error e => rw [hp] at hshown; cases hshown
  refine ⟨fun key sure => ?_, fun keys sure limit => ?_, fun range limit => ?_⟩
  · rw [(h.step _).1]
    simp only [Act.plain, hmode, DictionaryOp.plain, hmaps, hm, Reply.of]
  · rw [(h.step _).1]
    simp only [Act.plain, hmode, DictionaryOp.plain, hmaps, hm]
  · refine ⟨m.within range, m.lists_within range, ?_⟩
    rw [(h.step _).1]
    simp only [Act.plain, hmode, DictionaryOp.plain, PlainStore.stream, hmaps, hm]

end Store.Matches

end SnapshotStore
