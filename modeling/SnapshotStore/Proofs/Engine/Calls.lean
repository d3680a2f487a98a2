import SnapshotStore.Engine.Call

/-!
# Calls of open and of closed engines

What each call of an engine comes down to: a closed engine refuses it, an open one looks the column
up and answers.  Proofs about calls start from these equations and do not unfold the calls.

`Engine.Changes` lists the few ways in which a call can change an engine at all; what all of them
keep, every call keeps (`Engine.changes_answer`).  What is said of each column by itself only has to
be kept by single writes, new filters and compaction (`Engine.Changes.forall_columns`).
-/

namespace SnapshotStore.Engine

variable {e : Engine} {n : Nat} {c : Column}

/-! ## Checks -/

/-- An open engine passes the check that every call begins with. -/
theorem checkOpen_of_open (hopen : e.isClosed = false) : e.checkOpen = .ok () := by
  simp [checkOpen, hopen]

/-- A closed engine refuses every call. -/
theorem checkOpen_of_closed (hclosed : e.isClosed = true) : e.checkOpen = .error .closed := by
  simp [checkOpen, hclosed]

/-- A known column of an open engine is found. -/
theorem column_of_open (hopen : e.isClosed = false) (hc : e.columns[n]? = some c) :
    e.column n = .ok c := by
  simp [column, checkOpen_of_open hopen, hc, bind, Except.bind, pure, Except.pure]

/-- A number that no column has is refused with that number. -/
theorem column_of_unknown (hopen : e.isClosed = false) (hc : e.columns[n]? = none) :
    e.column n = .error (.unknownColumn n) := by
  simp [column, checkOpen_of_open hopen, hc, bind, Except.bind, throw, throwThe,
    MonadExceptOf.throw]

/-- A closed engine says that it is closed before it looks for the column. -/
theorem column_of_closed (hclosed : e.isClosed = true) : e.column n = .error .closed := by
  simp [column, checkOpen_of_closed hclosed, bind, Except.bind]

/-! ## Writes -/

/-- A batch is one commit: it takes the next sequence, and only its column changes. -/
theorem write_of_open (hopen : e.isClosed = false) (hc : e.columns[n]? = some c)
    {batch : WriteBatch} (hne : batch ≠ []) :
    e.write n batch = .ok { e with
      columns := e.columns.set n
        (applyBatch e.options e.pruneThreshold (e.sequence + 1) c batch)
      sequence := e.sequence + 1 } := by
  have hempty : batch.isEmpty = false := by simpa using hne
  simp [write, hempty, column_of_open hopen hc, bind, Except.bind, pure, Except.pure]

/-- A batch for an unknown column is refused. -/
theorem write_of_unknown (hopen : e.isClosed = false) (hc : e.columns[n]? = none)
    {batch : WriteBatch} (hne : batch ≠ []) : e.write n batch = .error (.unknownColumn n) := by
  have hempty : batch.isEmpty = false := by simpa using hne
  simp [write, hempty, column_of_unknown hopen hc, bind, Except.bind]

/-- A closed engine takes no batch, not even an empty one. -/
theorem write_of_closed (hclosed : e.isClosed = true) (batch : WriteBatch) :
    e.write n batch = .error .closed := by
  cases hempty : batch.isEmpty <;>
    simp [write, hempty, column_of_closed hclosed, checkOpen_of_closed hclosed, bind, Except.bind]

/-- An empty batch is no commit. -/
theorem write_nil_of_open (hopen : e.isClosed = false) : e.write n [] = .ok e := by
  simp [write, checkOpen_of_open hopen, bind, Except.bind, pure, Except.pure]

/-- Compaction changes one column, and no sequence is taken for it. -/
theorem compact_of_open (hopen : e.isClosed = false) (hc : e.columns[n]? = some c) :
    e.compact n = .ok { e with
      columns := e.columns.set n
        (c.compact e.options.scheme e.pruneThreshold e.options.filterCapacity) } := by
  simp [compact, column_of_open hopen hc, bind, Except.bind, pure, Except.pure]

/-- An unknown column cannot be compacted. -/
theorem compact_of_unknown (hopen : e.isClosed = false) (hc : e.columns[n]? = none) :
    e.compact n = .error (.unknownColumn n) := by
  simp [compact, column_of_unknown hopen hc, bind, Except.bind]

/-- A closed engine compacts nothing. -/
theorem compact_of_closed (hclosed : e.isClosed = true) : e.compact n = .error .closed := by
  simp [compact, column_of_closed hclosed, bind, Except.bind]

/-! ## Pins -/

/-- A closed engine takes no snapshot. -/
theorem snapshot_of_closed (hclosed : e.isClosed = true) : e.snapshot = .error .closed := by
  simp [snapshot, checkOpen_of_closed hclosed, bind, Except.bind]

/-- A snapshot is a pin of the newest sequence. -/
theorem snapshot_of_open (hopen : e.isClosed = false) :
    e.snapshot = .ok (e.sequence, e.pin e.sequence) := by
  simp [snapshot, checkOpen_of_open hopen, bind, Except.bind, pure, Except.pure]

/-- The cursor that a scan opens at a sequence. -/
def cursorAt (n : Nat) (c : Column) (range : KeyRange) (s : Nat) : Cursor :=
  { column := n, sequence := s, resume := range.lowerBound, upper := range.upperBound
    buffer := [], isExhausted := false, budget := c.chains.length + 1 }

/-- A scan of the newest state pins the sequence that it reads at. -/
theorem scan_latest_of_open (hopen : e.isClosed = false) (hc : e.columns[n]? = some c)
    (range : KeyRange) :
    e.scan n .latest range = .ok (cursorAt n c range e.sequence, e.pin e.sequence) := by
  simp [scan, column_of_open hopen hc, bind, Except.bind, pure, Except.pure, cursorAt]

/-- A scan at a sequence pins it once more, and is refused unless it is pinned already. -/
theorem scan_at_of_open (hopen : e.isClosed = false) (hc : e.columns[n]? = some c)
    (range : KeyRange) (s : Nat) :
    e.scan n (.at s) range
      = if s ∈ e.pins then .ok (cursorAt n c range s, e.pin s)
        else .error (.snapshotReleased s) := by
  by_cases hs : s ∈ e.pins <;>
    simp [scan, column_of_open hopen hc, checkPinned, hs, bind, Except.bind, pure, Except.pure,
      cursorAt, Functor.map, Except.map]

/-- An unknown column is not scanned, and nothing is pinned for it. -/
theorem scan_of_unknown (hopen : e.isClosed = false) (hc : e.columns[n]? = none) (view : ReadView)
    (range : KeyRange) : e.scan n view range = .error (.unknownColumn n) := by
  simp [scan, column_of_unknown hopen hc, bind, Except.bind]

/-- A closed engine scans nothing. -/
theorem scan_of_closed (hclosed : e.isClosed = true) (view : ReadView) (range : KeyRange) :
    e.scan n view range = .error .closed := by
  simp [scan, column_of_closed hclosed, bind, Except.bind]

/-! ## Reads -/

/-- A read of the newest state finds the newest version of the key. -/
theorem get_latest_of_open (hopen : e.isClosed = false) (hc : e.columns[n]? = some c)
    (key : Bytes) : e.get n .latest key = .ok (c.valueAt .latest key) := by
  simp [get, column_of_open hopen hc, bind, Except.bind, pure, Except.pure]

/-- A read at a sequence finds the newest version up to it, and is refused unless it is pinned. -/
theorem get_at_of_open (hopen : e.isClosed = false) (hc : e.columns[n]? = some c) (s : Nat)
    (key : Bytes) :
    e.get n (.at s) key
      = if s ∈ e.pins then .ok (c.valueAt (.at s) key) else .error (.snapshotReleased s) := by
  by_cases hs : s ∈ e.pins <;>
    simp [get, column_of_open hopen hc, checkPinned, hs, bind, Except.bind, pure, Except.pure]

/-- An unknown column is not read. -/
theorem get_of_unknown (hopen : e.isClosed = false) (hc : e.columns[n]? = none) (view : ReadView)
    (key : Bytes) : e.get n view key = .error (.unknownColumn n) := by
  simp [get, column_of_unknown hopen hc, bind, Except.bind]

/-- A closed engine reads nothing. -/
theorem get_of_closed (hclosed : e.isClosed = true) (view : ReadView) (key : Bytes) :
    e.get n view key = .error .closed := by
  simp [get, column_of_closed hclosed, bind, Except.bind]

/-- An open engine tells how many versions a column has. -/
theorem versionCount_of_open (hopen : e.isClosed = false) (hc : e.columns[n]? = some c) :
    e.versionCount n = .ok c.versionCount := by
  simp [versionCount, column_of_open hopen hc, bind, Except.bind, pure, Except.pure]

/-- The estimate is the counter of live keys. -/
theorem estimate_of_open (hopen : e.isClosed = false) (hc : e.columns[n]? = some c) :
    e.estimate n = .ok c.liveKeys := by
  simp [estimate, column_of_open hopen hc, bind, Except.bind, pure, Except.pure]

/-! ## New columns -/

/-- A closed engine creates no column. -/
theorem createColumn_of_closed (hclosed : e.isClosed = true) (name : String) :
    e.createColumn name = .error .closed := by
  simp [createColumn, checkOpen_of_closed hclosed, bind, Except.bind]

/-- A name that a column has already stands for the first such column, and nothing changes. -/
theorem createColumn_of_mem (hopen : e.isClosed = false) {name : String}
    (hmem : name ∈ e.columns.map (·.name)) :
    e.createColumn name = .ok ((e.columns.map (·.name)).idxOf name, e) := by
  have hfind : e.columns.findIdx? (·.name == name) = some ((e.columns.map (·.name)).idxOf name) := by
    have hnames : (e.columns.map (·.name)).findIdx? (· == name)
        = some ((e.columns.map (·.name)).idxOf name) :=
      List.findIdx?_eq_some_of_exists ⟨name, hmem, beq_self_eq_true name⟩
    rwa [List.findIdx?_map] at hnames
  simp [createColumn, checkOpen_of_open hopen, hfind, bind, Except.bind, pure, Except.pure]

/-- A new name stands for a new empty column behind all others. -/
theorem createColumn_of_not_mem (hopen : e.isClosed = false) {name : String}
    (hmem : name ∉ e.columns.map (·.name)) :
    e.createColumn name = .ok (e.columns.length, { e with
      columns := e.columns ++ [.empty e.options.scheme name e.options.filterCapacity] }) := by
  have hfind : e.columns.findIdx? (·.name == name) = none := by
    refine List.findIdx?_eq_none_iff.mpr fun c hc => ?_
    have hne : c.name ≠ name := fun heq => hmem (List.mem_map.mpr ⟨c, hc, heq⟩)
    simpa using hne
  simp [createColumn, checkOpen_of_open hopen, hfind, bind, Except.bind, pure, Except.pure]

/-! ## What a call can change -/

/-- The sequences that a call pins. -/
def pinnedBy : (c : EngineCall) → Except EngineError c.Answer → List Nat
  | .snapshot, .ok s => [s]
  | .scan .., .ok cursor => [cursor.sequence]
  | _, _ => []

/-- The ways in which a call changes an engine, with the sequences that it pins. -/
inductive Changes (e : Engine) : List Nat → Engine → Prop where
  /-- Nothing changes. -/
  | nothing : Changes e [] e
  /-- There is one more pin. -/
  | pin (s : Nat) : Changes e [s] (e.pin s)
  /-- There is one more column. -/
  | addColumn (name : String) : Changes e [] { e with
      columns := e.columns ++ [.empty e.options.scheme name e.options.filterCapacity] }
  /-- A batch was applied to a column. -/
  | write {n : Nat} {c : Column} (hc : e.columns[n]? = some c) (batch : WriteBatch) :
    Changes e [] { e with
      columns := e.columns.set n
        (applyBatch e.options e.pruneThreshold (e.sequence + 1) c batch)
      sequence := e.sequence + 1 }
  /-- A column was compacted. -/
  | compact {n : Nat} {c : Column} (hc : e.columns[n]? = some c) : Changes e [] { e with
      columns := e.columns.set n
        (c.compact e.options.scheme e.pruneThreshold e.options.filterCapacity) }

/-- A write is refused, or empty, or one batch on a known column. -/
private theorem changes_write (e : Engine) (n : Nat) (batch : WriteBatch) :
    e.Changes [] (e.writing (e.write n batch)).2 := by
  cases hclosed : e.isClosed with
  | true =>
    rw [write_of_closed hclosed]
    exact .nothing
  | false =>
    -- Only a batch with operations is refused for its column: an empty one is not looked at.
    by_cases hne : batch = []
    · rw [hne, write_nil_of_open hclosed]
      exact .nothing
    · cases hc : e.columns[n]? with
      | none =>
        rw [write_of_unknown hclosed hc hne]
        exact .nothing
      | some c =>
        rw [write_of_open hclosed hc hne]
        exact .write hc batch

/-- A compaction is refused or is one of a known column. -/
private theorem changes_compact (e : Engine) (n : Nat) :
    e.Changes [] (e.writing (e.compact n)).2 := by
  cases hclosed : e.isClosed with
  | true =>
    rw [compact_of_closed hclosed]
    exact .nothing
  | false =>
    cases hc : e.columns[n]? with
    | none =>
      rw [compact_of_unknown hclosed hc]
      exact .nothing
    | some c =>
      rw [compact_of_open hclosed hc]
      exact .compact hc

/-- A snapshot pins what it answers. -/
private theorem changes_snapshot (e : Engine) :
    e.Changes (pinnedBy .snapshot (e.both e.snapshot).1) (e.both e.snapshot).2 := by
  cases hclosed : e.isClosed with
  | true =>
    rw [snapshot_of_closed hclosed]
    exact .nothing
  | false =>
    rw [snapshot_of_open hclosed]
    exact .pin _

/-- A scan pins the sequence that its cursor reads at, if there is a cursor. -/
private theorem changes_scan (e : Engine) (n : Nat) (view : ReadView) (range : KeyRange) :
    e.Changes (pinnedBy (.scan n view range) (e.both (e.scan n view range)).1)
      (e.both (e.scan n view range)).2 := by
  cases hclosed : e.isClosed with
  | true =>
    rw [scan_of_closed hclosed]
    exact .nothing
  | false =>
    cases hc : e.columns[n]? with
    | none =>
      rw [scan_of_unknown hclosed hc]
      exact .nothing
    | some c =>
      -- The newest state can always be pinned; a sequence has to be pinned already.
      cases view with
      | latest =>
        rw [scan_latest_of_open hclosed hc]
        exact .pin _
      | «at» s =>
        rw [scan_at_of_open hclosed hc]
        split
        · exact .pin _
        · exact .nothing

/-- A call for a column adds at most an empty one. -/
private theorem changes_createColumn (e : Engine) (name : String) :
    e.Changes [] (e.both (e.createColumn name)).2 := by
  cases hclosed : e.isClosed with
  | true =>
    rw [createColumn_of_closed hclosed]
    exact .nothing
  | false =>
    by_cases hmem : name ∈ e.columns.map (·.name)
    · rw [createColumn_of_mem hclosed hmem]
      exact .nothing
    · rw [createColumn_of_not_mem hclosed hmem]
      exact .addColumn name

/-- Every call changes an engine in one of the listed ways. -/
theorem changes_answer (e : Engine) (c : EngineCall) :
    e.Changes (pinnedBy c (e.answer c).1) (e.answer c).2 := by
  cases c with
  | createColumn name => exact changes_createColumn e name
  | put n key value => exact changes_write e n [.put key value]
  | delete n key => exact changes_write e n [.delete key]
  | write n batch => exact changes_write e n batch
  | scan n view range => exact changes_scan e n view range
  | snapshot => exact changes_snapshot e
  | compact n => exact changes_compact e n
  -- The calls that only read answer without a change.
  | get n view key => exact .nothing
  | mayContain n key => exact .nothing
  | next cursor => exact .nothing
  | estimate n => exact .nothing
  | flush => exact .nothing

/-- A call adds the pins that its answer tells of, and removes none. -/
theorem Changes.pins_eq {e' : Engine} {pinned : List Nat} (h : e.Changes pinned e') :
    e'.pins = pinned ++ e.pins := by
  cases h <;> rfl

/-- No call closes an engine. -/
theorem Changes.isClosed_eq {e' : Engine} {pinned : List Nat} (h : e.Changes pinned e') :
    e'.isClosed = e.isClosed := by
  cases h <;> rfl

/-- No call changes the options. -/
theorem Changes.options_eq {e' : Engine} {pinned : List Nat} (h : e.Changes pinned e') :
    e'.options = e.options := by
  cases h <;> rfl

/-! ## What every write keeps -/

section Columns

variable {P : Column → Prop} {options : Options}

/-- What single writes under its sequence keep, an operation keeps. -/
theorem applyOp_induction {scheme : Filter.Scheme} {threshold sequence : Nat}
    (hpush : ∀ c key value, P c → P (c.push scheme threshold key ⟨sequence, value⟩)) (h : P c)
    (op : WriteOp) : P (applyOp scheme threshold sequence c op) := by
  have hkeys : ∀ (keys : List Bytes) (c : Column), P c →
      P (keys.foldl (fun c key => c.push scheme threshold key ⟨sequence, none⟩) c) := by
    intro keys
    induction keys with
    | nil => exact fun c h => h
    | cons key keys ih => exact fun c h => ih _ (hpush c key _ h)
  cases op with
  | put key value => exact hpush c key (some value) h
  | delete key => exact hpush c key none h
  | deleteRange range => exact hkeys _ c h

/-- What single writes under its sequence and new filters keep, a batch keeps. -/
theorem applyBatch_induction {threshold sequence : Nat}
    (hpush : ∀ c key value, P c → P (c.push options.scheme threshold key ⟨sequence, value⟩))
    (hrebuild : ∀ c, P c → P (c.rebuildFilter options.scheme options.filterCapacity)) (h : P c)
    (batch : WriteBatch) : P (applyBatch options threshold sequence c batch) := by
  have hops : P (batch.foldl (applyOp options.scheme threshold sequence) c) := by
    induction batch generalizing c with
    | nil => exact h
    | cons op batch ih => exact ih (applyOp_induction hpush h op)
  unfold applyBatch
  simp only
  split
  · exact hrebuild _ hops
  · exact hops

/-- What a new column has, and what single writes, new filters and compaction keep, all columns keep
having. -/
theorem Changes.forall_columns {e' : Engine} {pinned : List Nat} (hchange : e.Changes pinned e')
    (hempty : ∀ name, P (.empty e.options.scheme name e.options.filterCapacity))
    (hpush : ∀ c threshold key version, P c → P (c.push e.options.scheme threshold key version))
    (hrebuild : ∀ c, P c → P (c.rebuildFilter e.options.scheme e.options.filterCapacity))
    (hcompact : ∀ c threshold, P c →
      P (c.compact e.options.scheme threshold e.options.filterCapacity))
    (h : ∀ c ∈ e.columns, P c) : ∀ c ∈ e'.columns, P c := by
  -- At most one column is new or another one than before, so the others have the property from the
  -- hypothesis.
  cases hchange with
  | nothing => exact h
  | pin s => exact h
  | addColumn name =>
    intro c hc
    rcases List.mem_append.mp hc with hc | hc
    · exact h c hc
    · rw [List.mem_singleton.mp hc]
      exact hempty name
  | write hcol batch =>
    intro c hc
    rcases List.mem_or_eq_of_mem_set hc with hc | rfl
    · exact h c hc
    · exact applyBatch_induction (fun c key _ => hpush c _ key _) hrebuild
        (h _ (List.mem_of_getElem? hcol)) batch
  | compact hcol =>
    intro c hc
    rcases List.mem_or_eq_of_mem_set hc with hc | rfl
    · exact h c hc
    · exact hcompact _ _ (h _ (List.mem_of_getElem? hcol))

end Columns

end SnapshotStore.Engine
