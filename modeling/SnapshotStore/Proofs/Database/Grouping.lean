import SnapshotStore.Proofs.Database.Recovery
import SnapshotStore.Proofs.Dictionary.Grouping

/-!
# Grouping is a lossless partition by stem

The entries of a range are streamed in groups of neighbours whose keys share a stem, the keys of the
range in the same groups, and the stems of the groups without anything else.  Three walks compare an
entry with the one before it and hand over what they have collected when the stem changes or the
range ends.  Their streams fit together (`Database.grouping_partitions`): the groups joined are the
entries, and the stems are those of the groups, each once and in ascending order.
-/

namespace SnapshotStore

/-- What a range of a dictionary, now or at a snapshot, streams of its entries and of their groups
by stems of one length. -/
structure Store.StreamsGroups (s : Store) (name : String) (token : Option Token) (range : KeyRange)
    (stemLen : Nat) (groups : List (List Entry)) (stems : List Bytes) : Prop where
  /-- The entries are streamed one by one. -/
  getEntries : ∀ limit, ((Act.on name (.getEntries token range limit)).run s).1
    = .cut .entries limit (groups.flatten.map .ok)
  /-- Their keys are streamed one by one. -/
  getKeys : ∀ limit, ((Act.on name (.getKeys token range limit)).run s).1
    = .cut .keys limit (groups.flatten.map fun e => .ok e.1)
  /-- The groups are streamed. -/
  getGroups : ∀ limit, ((Act.on name (.getGroups stemLen token range limit)).run s).1
    = .cut .groups limit (groups.map .ok)
  /-- The groups are streamed without values. -/
  getKeyGroups : ∀ limit, ((Act.on name (.getKeyGroups stemLen token range limit)).run s).1
    = .cut .keyGroups limit (groups.map fun group => .ok (group.map Prod.fst))
  /-- The stems are streamed. -/
  getStems : ∀ limit, ((Act.on name (.getStems stemLen token range limit)).run s).1
    = .cut .keys limit (stems.map .ok)

namespace PlainMap

variable (m : PlainMap) (range : KeyRange) (stemLen : Nat)

theorem sorted_within : KeyMap.Sorted (m.within range) := m.sorted.filter _

@[simp] theorem flatten_groupsWithin : (m.groupsWithin range stemLen).flatten = m.within range :=
  List.flatten_splitBy _ _

/-- The groups of a range and its stems belong together one by one. -/
theorem forall₂_groupsWithin_stemsWithin :
    List.Forall₂ (fun group stem => group ≠ [] ∧ ∀ e ∈ group, e.1.stem stemLen = stem)
      (m.groupsWithin range stemLen) (m.stemsWithin range stemLen) :=
  Dictionary.forall₂_splitBy_stemsOf (m.sorted_within range) stemLen

/-- A stem is one of a range if some key of the range has it. -/
theorem mem_stemsWithin {m : PlainMap} {range : KeyRange} {stemLen : Nat} {stem : Bytes} :
    stem ∈ m.stemsWithin range stemLen ↔ ∃ e ∈ m.within range, e.1.stem stemLen = stem :=
  Dictionary.mem_stemsOf (m.sorted_within range)

/-- The stems of a range ascend. -/
theorem stemsWithin_ascend : (m.stemsWithin range stemLen).Pairwise (· < ·) :=
  Dictionary.stemsOf_ascend (m.sorted_within range) stemLen

end PlainMap

/-- A store that matches plain maps streams their groups. -/
theorem Store.Matches.streamsGroups {s : Store} {p : PlainStore} (h : s.Matches p) {name : String}
    {d : Dictionary} (hd : s.database.find? name = some d) {token : Option Token}
    {maps : String → PlainMap} (hshown : p.shown token = .ok maps) (range : KeyRange)
    (stemLen : Nat) :
    s.StreamsGroups name token range stemLen ((maps name).groupsWithin range stemLen)
      ((maps name).stemsWithin range stemLen) := by
  obtain ⟨mode, hmode⟩ := h.exists_mode (Option.isSome_of_eq_some hd)
  have hreply : ∀ op, ((Act.on name op).run s).1 = (op.plain name mode p).1 := by
    intro op
    rw [(h.step _).1]
    simp only [Act.plain, hmode]
  constructor <;> intro limit <;>
    simp only [hreply, DictionaryOp.plain, PlainStore.stream, hshown, PlainMap.keysWithin,
      PlainMap.flatten_groupsWithin, List.map_map] <;> rfl

/-- **Grouping is a lossless partition by stem.**  Whatever was done before and whatever failed
then, as soon as the engine works every range of a dictionary, at the newest state or at a snapshot,
is streamed in groups for stems of any length.  The groups joined are what is stored there for the
keys of the range, in ascending order, as the range streams it one by one.  No group is empty, all
keys of a group have one stem, and the streamed stems are those of the groups, in strictly ascending
order. -/
theorem Database.grouping_partitions {db : Database} (hnew : db.IsNew) (options : Engine.Options)
    (before : List Fault) {script : List Request} (hscript : .close ∉ script)
    {dictionary : String} {d : Dictionary}
    (hopen : (Store.after ⟨⟨.new options, before⟩, db⟩ script).database.find? dictionary = some d)
    {token : Option Token} {view : ReadView}
    (hview : (Store.after ⟨⟨.new options, before⟩, db⟩ script).database.snapshots.resolve token
      = .ok view) (range : KeyRange) (stemLen : Nat) :
    let s := (Store.after ⟨⟨.new options, before⟩, db⟩ script).mend
    ∃ (c : Contents) (groups : List (List Entry)) (stems : List Bytes),
      (∀ key, s.stored d view key = .ok (c key)) ∧ c.Lists range groups.flatten ∧
      s.StreamsGroups dictionary token range stemLen groups stems ∧
      List.Forall₂ (fun group stem => group ≠ [] ∧ ∀ e ∈ group, e.1.stem stemLen = stem)
        groups stems ∧
      stems.Pairwise (· < ·) := by
  intro s
  obtain ⟨p, hmatches⟩ : ∃ p, s.Matches p := hnew.exists_matches options before hscript
  obtain ⟨maps, hshown, hstored⟩ := hmatches.shown_of_resolve hopen hview
  refine ⟨(maps dictionary).get, _, _, hstored, ?_,
    hmatches.streamsGroups hopen hshown range stemLen,
    (maps dictionary).forall₂_groupsWithin_stemsWithin range stemLen,
    (maps dictionary).stemsWithin_ascend range stemLen⟩
  rw [PlainMap.flatten_groupsWithin]
  exact (maps dictionary).lists_within range

/-- A database with the choices for tests. -/
def Database.bare : Database :=
  { name := "db"
    engineName := "memory"
    config := Config.testing
    pool := .new "db-storage" Config.testing.maxConcurrentOps Config.testing.maxConcurrentScans
    ownsPool := true
    snapshots := .empty
    dictionaries := []
    isClosed := false }

/-- Keys of three widths are put in descending order, a snapshot is taken, and everything is
removed. -/
def Database.descendingScript : List Request :=
  [.act (.opening "a" .allow), .act (.on "a" (.put [7, 1, 5] [4] .void)),
    .act (.on "a" (.put [7, 1] [3] .void)), .act (.on "a" (.put [7] [2] .void)),
    .act .takeSnapshot, .act (.on "a" .clear)]

/-- A key that is shorter than the stem is a group of its own, before the longer keys that start
with it. -/
theorem Database.grouping_partitions_of_short :
    let s := (Store.after ⟨⟨.new (engineOptions bare.config), []⟩, bare⟩
      descendingScript).mend
    s.StreamsGroups "a" (some 1) .all 2
      [[([7], [2])], [([7, 1], [3]), ([7, 1, 5], [4])]] [[7], [7, 1]] := by
  intro s
  have hnew : bare.IsNew := ⟨rfl, rfl, rfl, Pool.isReady_new _ _ _⟩
  obtain ⟨d, hopen⟩ : ∃ d, (Store.after ⟨⟨.new (engineOptions bare.config), []⟩, bare⟩
      descendingScript).database.find? "a" = some d :=
    Option.isSome_iff_exists.mp (by decide +kernel)
  have hsequence : (Store.after ⟨⟨.new (engineOptions bare.config), []⟩, bare⟩
      descendingScript).database.snapshots.sequence? 1 = some 3 := by decide +kernel
  obtain ⟨c, groups, stems, -, -, hstreams, -, -⟩ : ∃ (c : Contents) (groups : List (List Entry))
      (stems : List Bytes), _ ∧ _ ∧ s.StreamsGroups "a" (some 1) .all 2 groups stems ∧ _ ∧ _ :=
    grouping_partitions hnew (engineOptions bare.config) [] (by simp [descendingScript]) hopen
      (show Snapshots.resolve _ (some 1) = .ok (.at 3) by simp [Snapshots.resolve, hsequence])
      .all 2
  -- What the streams are is computed on plain maps.
  have hcreate : create "db" "memory" bare.config none = .ok bare := rfl
  obtain ⟨p, hmatches, hplain⟩ : ∃ p, s.Matches p ∧
      ((Act.on "a" (.getGroups 2 (some 1) .all 9)).plain p).1
        = .groups [.ok [([7], [2])], .ok [([7, 1], [3]), ([7, 1, 5], [4])]] true ∧
      ((Act.on "a" (.getStems 2 (some 1) .all 9)).plain p).1
        = .keys [.ok [7], .ok [7, 1]] true :=
    ⟨_, ((((((matches_create hcreate (by simp) (engineOptions bare.config)).step
      (.opening "a" .allow)).2.step (.on "a" (.put [7, 1, 5] [4] .void))).2.step
      (.on "a" (.put [7, 1] [3] .void))).2.step (.on "a" (.put [7] [2] .void))).2.step
      .takeSnapshot).2.step (.on "a" .clear) |>.2.mend, by rfl, by rfl⟩
  clear_value s
  have hgroups := Reply.eq_of_cut_eq Reply.groups.inj
    ((hstreams.getGroups 9).symm.trans ((hmatches.step _).1.trans hplain.1))
  have hstems := Reply.eq_of_cut_eq Reply.keys.inj
    ((hstreams.getStems 9).symm.trans ((hmatches.step _).1.trans hplain.2))
  obtain rfl : groups = [[([7], [2])], [([7, 1], [3]), ([7, 1, 5], [4])]] :=
    List.map_injective_iff.mpr (fun _ _ => Except.ok.inj) hgroups
  obtain rfl : stems = [[7], [7, 1]] :=
    List.map_injective_iff.mpr (fun _ _ => Except.ok.inj) hstems
  exact hstreams

end SnapshotStore
