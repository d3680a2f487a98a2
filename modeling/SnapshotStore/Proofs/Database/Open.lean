import SnapshotStore.Proofs.Database.Submit

/-!
# Opening a dictionary

A dictionary that is opened gets the column of its name, which the engine creates if it has none
yet, and idle stripes if it admits updates.  The number of the column is the place of the name among
the names that the ledger records, and it never changes.
-/

namespace SnapshotStore

namespace Ledger

/-- A column that was created is there. -/
theorem mem_createColumn {l : Ledger} (hopen : l.isOpen = true) (name : String) :
    name ∈ (l.call (.createColumn name)).names := by
  rw [call]
  split
  · simp
  · rename_i hnot
    by_contra hmem
    exact hnot ⟨hopen, hmem⟩

/-- Columns keep their numbers. -/
theorem prefix_createColumn (l : Ledger) (name : String) :
    l.names <+: (l.call (.createColumn name)).names := by
  rw [call]
  split
  · exact List.prefix_append _ _
  · exact List.prefix_rfl

end Ledger

/-- A column is answered by its number. -/
theorem Backend.IsIn.createColumn_eq {b : Backend} {w : World} (h : b.IsIn w) (name : String) :
    (b.engine.engine.answer (.createColumn name)).1
      = .ok (World.columnOf { w with ledger := w.ledger.call (.createColumn name) } name) := by
  have hnames := h.agrees.names_eq
  rw [World.columnOf, Ledger.call]
  by_cases hmem : name ∈ w.ledger.names
  · have hcreate := Engine.createColumn_of_mem h.isClosed_eq (hnames ▸ hmem)
    simp [Engine.answer, Engine.both, hcreate, hnames, hmem]
  · have hcreate := Engine.createColumn_of_not_mem h.isClosed_eq (hnames ▸ hmem)
    simp [Engine.answer, Engine.both, hcreate, h.isOpen, hmem, List.idxOf_append_of_notMem hmem,
      h.agrees.length_names]

namespace Store

variable {s s' : Store} {w : World} {d : Dictionary} {name : String}

/-- An operation goes on where its first part ended. -/
theorem run_bind_of_ok {α β : Type} {x : Op α} {f : α → Op β} {a : α}
    (hx : x.run s = (.ok a, s')) : (x >>= f).run s = (f a).run s' := by
  rw [ExceptT.run_bind]
  show StateT.bind x.run _ s = _
  unfold StateT.bind
  rw [show x.run s = (.ok a, s') from hx]
  rfl

/-- An operation fails where its first part fails. -/
theorem run_bind_of_error {α β : Type} {x : Op α} {f : α → Op β} {e : StoreError}
    (hx : x.run s = (.error e, s')) : (x >>= f).run s = (.error e, s') := by
  rw [ExceptT.run_bind]
  show StateT.bind x.run _ s = _
  unfold StateT.bind
  rw [show x.run s = (.error e, s') from hx]
  rfl

/-- The state of an operation. -/
theorem run_get : (get : Op Store).run s = (.ok s, s) := rfl

/-- An operation goes on with a result that is there already. -/
theorem run_given_bind {α β : Type} (r : Except StoreError α) (f : α → Op β) :
    ((ExceptT.mk (pure r) : Op α) >>= f).run s
      = match r with
        | .ok a => (f a).run s
        | .error e => (.error e, s) := by
  cases r with
  | ok a => exact run_bind_of_ok rfl
  | error e => exact run_bind_of_error rfl

namespace IsIn

/-- The check that begins an operation passes. -/
theorem run_checkOpen (h : s.IsIn w) : checkOpen.run s = (.ok (), s) := by
  have hclosed := h.isClosed_eq
  unfold checkOpen
  show (if s.database.isClosed = true then _ else _ : Store.Op Unit).run s = _
  rw [hclosed]
  rfl

/-- A call of the engine is answered by the engine, and its failures say where. -/
theorem run_callEngine (h : s.IsIn w) (operation context : String) (c : EngineCall) :
    (callEngine operation context c).run s
      = ((s.engine.engine.answer c).1.mapError (.ofEngine operation context),
        { s with engine := .reliable (s.engine.engine.answer c).2 }) := by
  have hengine : s.engine = .reliable s.engine.engine := h.backend.engine_eq
  have hanswer : s.engine.answer c
      = ((s.engine.engine.answer c).1, .reliable (s.engine.engine.answer c).2) := by
    rw [hengine]
    rfl
  show ((s.engine.answer c).1.mapError _, { s with engine := (s.engine.answer c).2 }) = _
  rw [hanswer]

/-- An open dictionary is given again in its mode. -/
theorem run_dictionary_of_find? (h : s.IsIn w) (hd : s.database.find? name = some d)
    (mode : UpdateMode) :
    (dictionary name mode).run s
      = (if d.mode = mode then .ok d
        else .error (.invalidArgument
          s!"dictionary {name} is already open with update mode {d.mode.name}"), s) := by
  unfold dictionary
  rw [run_bind_of_ok h.run_checkOpen, run_bind_of_ok run_get]
  simp only [hd]
  split <;> rfl

/-- Another dictionary gets the column of its name and idle stripes. -/
theorem run_dictionary_of_none (h : s.IsIn w) (hd : s.database.find? name = none)
    (mode : UpdateMode) :
    ∃ d s', (dictionary name mode).run s = (.ok d, s') ∧
      s'.IsIn { w with ledger := w.ledger.call (.createColumn name) } ∧
      s'.database = { s.database with
        dictionaries :=
          s.database.dictionaries ++ [(d, (d.striping.map Stripes.idle).getD [])] } ∧
      d.name = name ∧ d.mode = mode := by
  have hcall := h.run_callEngine "open column" name (.createColumn name)
  have hcolumn := h.backend.createColumn_eq name
  rw [show (s.engine.engine.answer (.createColumn name)).1 = _ from hcolumn] at hcall
  unfold dictionary
  rw [run_bind_of_ok h.run_checkOpen, run_bind_of_ok run_get]
  simp only [hd]
  rw [run_bind_of_ok hcall]
  -- Names stay different, the other dictionaries keep their columns, and all stripes are idle.
  refine ⟨_, _, rfl, ⟨h.backend.answer (.createColumn name), h.isClosed_eq, h.pool, ?_,
    fun e he => ?_, fun e he => ?_⟩, rfl, rfl, rfl⟩
  · have hname : name ∉ s.database.dictionaries.map (·.1.name) := fun hmem => by
      obtain ⟨e, he, rfl⟩ := List.mem_map.mp hmem
      simpa using List.find?_eq_none.mp (Option.map_eq_none_iff.mp hd) e he
    rw [show (_ ++ [_] : List (Dictionary × Stripes)).map (·.1.name) = _ from List.map_append]
    have hnodup := h.nodup.concat hname
    rw [List.concat_eq_append] at hnodup
    exact hnodup
  · rcases List.mem_append.mp he with he | he
    · exact (h.isOpened e he).mono (w.ledger.prefix_createColumn name)
    · obtain rfl := List.mem_singleton.mp he
      refine ⟨Ledger.mem_createColumn h.backend.isOpen name, rfl, rfl, fun hmode => ?_⟩
      subst hmode
      rfl
  · rcases List.mem_append.mp he with he | he
    · exact h.stripes_eq e he
    · obtain rfl := List.mem_singleton.mp he
      rfl

end IsIn

end Store

end SnapshotStore
