import SnapshotStore.Proofs.Database.Recovery

/-!
# Many keys at once are one key after the other

Operations on many keys cut their input into windows, read a window under all its stripes and write
it in batches; what a key held before an entry is looked up among the entries of the window or in
the engine.  None of that is seen.  Many keys that are read at once show what each of them shows
alone.  Many entries that are put at once answer and leave what they answer and leave when they are
put one after the other (`Database.manyKeys_agree`); a consumer that goes away early leaves the rest
of them behind unwritten.
-/

namespace SnapshotStore

/-- Entries are put one after the other. -/
def Act.puts (name : String) (result : ResultType) (entries : List Entry) : List Act :=
  entries.map fun e => .on name (.put e.1 e.2 result)

namespace Contents

/-- What the key of an entry holds just before it is written is what the entries before it made of
the contents. -/
theorem getElem?_previous (c : Contents) (entries : List Entry) (i : Nat) :
    (c.previous entries)[i]?
      = entries[i]?.map fun e => c.applyAll (puts (entries.take i)) e.1 := by
  induction entries generalizing c i with
  | nil => rfl
  | cons e rest ih =>
    cases i with
    | zero => rfl
    | succ i => exact ih (c.apply (.put e.1 e.2)) i

end Contents

namespace PlainStore

variable (p : PlainStore) {name : String} {mode : UpdateMode}

/-- Entries that are put one after the other answer what their keys held, and are all put. -/
theorem replies_puts (hmode : p.mode? name = some mode) (result : ResultType)
    (entries : List Entry) :
    replies Act.plain (Act.puts name result entries) p
      = (((p.now name).get.previous entries).map fun v => .value (result.project v),
        p.set name ((p.now name).puts entries)) := by
  induction entries generalizing p with
  | nil => exact congrArg (Prod.mk []) (p.set_now name).symm
  | cons e rest ih =>
    have hput : (Act.on name (.put e.1 e.2 result)).plain p
        = (.value (result.project ((p.now name).get e.1)),
          p.set name ((p.now name).apply (.put e.1 e.2))) := by
      simp only [Act.plain, hmode, DictionaryOp.plain]
    have hset : (p.set name ((p.now name).apply (.put e.1 e.2))).set name
        (((p.now name).apply (.put e.1 e.2)).puts rest) = p.set name ((p.now name).puts (e :: rest)) :=
      congrArg (fun now => { p with now }) (Function.update_idem ..)
    rw [Act.puts, List.map_cons, replies, hput]
    simp only
    rw [← Act.puts, ih (p.set name _) hmode, now_set_self, hset, PlainMap.get_apply]
    rfl

/-- What many entries leave that are put at once is what the first of them leave. -/
theorem exists_puts_take (entries : List Entry) (limit : Nat) :
    ∃ k, min limit entries.length ≤ k ∧ k ≤ entries.length ∧
      (demanded limit (p.entryWindows entries)).flatten = entries.take k := by
  have hflatten : (p.entryWindows entries).flatten = entries := flatten_windows _ _
  have hlength := le_length_flatten_demanded limit (p.entryWindows entries)
  obtain ⟨rest, hrest⟩ := demanded_isPrefix limit (p.entryWindows entries)
  have hprefix : (demanded limit (p.entryWindows entries)).flatten <+: entries :=
    ⟨rest.flatten, by rw [← List.flatten_append, hrest, hflatten]⟩
  rw [hflatten] at hlength
  exact ⟨_, hlength, hprefix.length_le, List.prefix_iff_eq_take.mp hprefix⟩

end PlainStore

/-- To put entries at once answers and leaves what it answers and leaves to put them one after the
other, and their keys held given values just before. -/
structure Store.PutsAtOnce (s : Store) (name : String) (entries : List Entry)
    (held : List (Option Bytes)) : Prop where
  /-- Every entry has a value. -/
  length_eq : held.length = entries.length
  /-- It is what its key holds when the entries before it are put. -/
  held_eq : ∀ (i : Nat) (key value : Bytes), entries[i]? = some (key, value) →
    ∃ v, held[i]? = some v ∧ ∀ sure, ((Act.on name (.get none key sure)).run
      (replies Act.run (Act.puts name .void (entries.take i)) s).2).1 = .value v
  /-- Entries that are put one after the other answer the values. -/
  replies_eq : (replies Act.run (Act.puts name .previousValue entries) s).1 = held.map .value
  /-- Entries that are put at once hand them out. -/
  previous_eq : ∀ limit, ((Act.on name (.putMany entries true limit)).run s).1
    = .cut .previous limit (held.map .ok)
  /-- They hand out as many times nothing if the values are not wanted. -/
  void_eq : ∀ limit, ((Act.on name (.putMany entries false limit)).run s).1
    = .cut .previous limit (entries.map fun _ => .ok none)
  /-- They leave what is left when they are put one after the other, at least as many of them as the
  consumer asks for. -/
  leaves : ∀ wantsPrevious limit, ∃ k, min limit entries.length ≤ k ∧ k ≤ entries.length ∧
    ∀ later, (replies Act.run later
        ((Act.on name (.putMany entries wantsPrevious limit)).run s).2).1
      = (replies Act.run later
        (replies Act.run (Act.puts name .void (entries.take k)) s).2).1

/-- A store that matches plain maps puts entries at once. -/
theorem Store.Matches.putsAtOnce {s : Store} {p : PlainStore} (h : s.Matches p) {name : String}
    {mode : UpdateMode} (hmode : p.mode? name = some mode) (entries : List Entry) :
    s.PutsAtOnce name entries ((p.now name).get.previous entries) := by
  have hputs : ∀ (result : ResultType) (entries : List Entry),
      (replies Act.run (Act.puts name result entries) s).1
          = ((p.now name).get.previous entries).map (fun v => .value (result.project v)) ∧
        (replies Act.run (Act.puts name result entries) s).2.Matches
          (p.set name ((p.now name).puts entries)) := by
    intro result entries
    obtain ⟨hreplies, hmatches⟩ := h.run (Act.puts name result entries)
    rw [p.replies_puts hmode] at hreplies hmatches
    exact ⟨hreplies, hmatches⟩
  have hplain : ∀ wantsPrevious limit, (Act.on name (.putMany entries wantsPrevious limit)).plain p
      = (.cut .previous limit (((p.now name).get.answers wantsPrevious entries).map .ok),
        p.set name ((p.now name).puts (demanded limit (p.entryWindows entries)).flatten)) := by
    intro wantsPrevious limit
    simp only [Act.plain, hmode, DictionaryOp.plain]
  refine ⟨Contents.length_previous _ entries, fun i key value hi => ?_, ?_, fun limit => ?_,
    fun limit => ?_, fun wantsPrevious limit => ?_⟩
  · have hget := ((hputs .void (entries.take i)).2.holds hmode (PlainStore.shownAt_set_self ..)).get
    rw [PlainMap.get_puts] at hget
    refine ⟨_, ?_, hget key⟩
    rw [Contents.getElem?_previous, hi]
    rfl
  · exact (hputs .previousValue entries).1
  · rw [(h.step _).1, hplain]
    rfl
  · rw [(h.step _).1, hplain]
    simp only [Contents.answers, Bool.false_eq_true, if_false, List.map_map]
    rfl
  · -- Who takes few answers has let as many windows run, and these are the puts of a prefix.
    obtain ⟨k, hle, hk, htake⟩ := p.exists_puts_take entries limit
    have hmany := (h.step (.on name (.putMany entries wantsPrevious limit))).2
    rw [hplain, htake] at hmany
    refine ⟨k, hle, hk, fun later => ?_⟩
    rw [(hmany.run later).1, ((hputs .void (entries.take k)).2.run later).1]

/-- **To work on many keys at once is to work on one after the other**, wherever the input is cut
into windows and the writes are cut into batches.  Whatever was done before and whatever failed
then, as soon as the engine works many keys are read, at the newest state or at a snapshot, with the
values that are stored there, in the order in which they are asked for and as often; and many
entries are put as if each was put alone. -/
theorem Database.manyKeys_agree {db : Database} (hnew : db.IsNew) (options : Engine.Options)
    (before : List Fault) {script : List Request} (hscript : .close ∉ script)
    {dictionary : String} {d : Dictionary}
    (hopen : (Store.after ⟨⟨.new options, before⟩, db⟩ script).database.find? dictionary = some d) :
    let s := (Store.after ⟨⟨.new options, before⟩, db⟩ script).mend
    (∀ token view, s.database.snapshots.resolve token = .ok view →
      ∃ c : Contents, (∀ key, s.stored d view key = .ok (c key)) ∧ s.Holds dictionary token c) ∧
    ∀ entries, ∃ held, s.PutsAtOnce dictionary entries held := by
  intro s
  obtain ⟨p, hmatches⟩ : ∃ p, s.Matches p := hnew.exists_matches options before hscript
  obtain ⟨mode, hmode⟩ := hmatches.exists_mode (Option.isSome_of_eq_some hopen)
  refine ⟨fun token view hview => ?_, fun entries => ⟨_, hmatches.putsAtOnce hmode entries⟩⟩
  obtain ⟨maps, hshown, hstored⟩ := hmatches.shown_of_resolve hopen hview
  refine ⟨(maps dictionary).get, hstored, hmatches.holds hmode ?_⟩
  rw [PlainStore.shownAt, hshown]
  rfl

/-- A database with windows of two keys that writes every operation for itself. -/
def Database.narrow : Database :=
  { name := "db"
    engineName := "memory"
    config := { Config.testing with multiGetWindow := 2, writeBatchCap := 1 }
    pool := .new "db-storage" Config.testing.maxConcurrentOps Config.testing.maxConcurrentScans
    ownsPool := true
    snapshots := .empty
    dictionaries := []
    isClosed := false }

/-- A key that is put twice in one window and again in the next one. -/
theorem Database.manyKeys_agree_of_repeated :
    let s := (Store.after ⟨⟨.new (engineOptions narrow.config), []⟩, narrow⟩
      [.act (.opening "a" .allow)]).mend
    ((Act.on "a" (.putMany [([1], [10]), ([1], [11]), ([2], [20]), ([1], [12])] true 9)).run s).1
      = .previous [.ok none, .ok (some [10]), .ok none, .ok (some [11])] true := by
  intro s
  have hnew : narrow.IsNew := ⟨rfl, rfl, rfl, Pool.isReady_new _ _ _⟩
  have hopen : (Store.after ⟨⟨.new (engineOptions narrow.config), []⟩, narrow⟩
      [.act (.opening "a" .allow)]).database.find? "a" = some _ :=
    (Option.some_get (by decide +kernel)).symm
  obtain ⟨held, hheld⟩ := (manyKeys_agree hnew _ [] (by simp) hopen).2
    [([1], [10]), ([1], [11]), ([2], [20]), ([1], [12])]
  have hcreate : create "db" "memory" narrow.config none = .ok narrow := rfl
  have hmatches := ((matches_create hcreate (by simp) (engineOptions narrow.config)).step
    (.opening "a" .allow)).2.mend
  -- One after the other, the entries answer what the last ones of their keys left.
  have halone : held.map Reply.value = [none, some [10], none, some [11]].map Reply.value :=
    hheld.replies_eq.symm.trans ((hmatches.run _).1.trans (by rfl))
  obtain rfl : held = [none, some [10], none, some [11]] :=
    List.map_injective_iff.mpr (fun _ _ => Reply.value.inj) halone
  exact hheld.previous_eq 9

end SnapshotStore
