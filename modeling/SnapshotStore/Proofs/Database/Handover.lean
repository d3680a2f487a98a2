import SnapshotStore.Proofs.Database.Replacement

/-!
# Handing out what is replaced

The entries of a range can also be replaced by way of a stream that hands out the old ones.  They
are removed while the consumer asks for them, a batch at a time, and the new ones are put when it
has got the last of them.  A consumer that goes on to the end of the stream finds the dictionary as
the replacement at one go leaves it, and the refusal of that, if there is one, is the last item.
-/

namespace SnapshotStore

namespace PlainMap

/-- Filling a range succeeds, or refuses an argument. -/
theorem fill_cases (m : PlainMap) (range : KeyRange) (windows : List (List Entry)) :
    (∃ m', m.fill range windows = (.ok (), m')) ∨
      ∃ message m', m.fill range windows = (.error (.invalidArgument message), m') := by
  cases hfind : windows.flatten.find? fun e => !range.contains e.1 with
  | none =>
    refine .inl ⟨_, m.fill_of_fits fun e he => ?_⟩
    simpa using List.find?_eq_none.mp hfind e he
  | some e => exact .inr ⟨_, _, m.fill_of_outside hfind⟩

end PlainMap

namespace PlainStore

variable (p : PlainStore) (name : String) (mode : UpdateMode) (range : KeyRange)
  (entries : List Entry)

/-- The map of a name after the replacement of a range, and whether it was refused. -/
def refilled : Except StoreError Unit × PlainMap :=
  ((p.now name).apply (.deleteRange range)).fill range (p.entryWindows entries)

theorem plain_setRange :
    (DictionaryOp.setRange range entries).plain name mode p
      = (.of (fun _ => .done) (p.refilled name range entries).1,
        p.set name (p.refilled name range entries).2) := rfl

/-- The old entries are handed out and then the refusal, as far as the consumer asks for them. -/
theorem plain_replaceRange_fst (limit : Nat) :
    ((DictionaryOp.replaceRange range entries limit).plain name mode p).1
      = .cut .entries limit (((p.now name).within range).map .ok
        ++ Stream.failureItem (p.refilled name range entries).1) := by
  simp only [DictionaryOp.plain]
  split
  · rfl
  · -- The consumer does not ask for what comes after the old entries.
    rename_i hlimit
    rw [← List.length_map (f := (Except.ok : Entry → Except StoreError Entry))] at hlimit
    rw [← Reply.cut_take .entries (Nat.le_of_not_lt hlimit) (_ ++ _), List.take_left]

/-- The new entries are put for a consumer that asks for more than the old ones. -/
theorem plain_replaceRange_snd {limit : Nat} (h : ((p.now name).within range).length < limit) :
    ((DictionaryOp.replaceRange range entries limit).plain name mode p).2
      = p.set name (p.refilled name range entries).2 := by
  simp only [DictionaryOp.plain, if_pos h]
  rfl

end PlainStore

/-- **Replacing a range and handing out what was there is replacing the range.**  The items are the
old entries of the range in ascending order, and after them the refusal of the replacement at one go
if that is refused, and nothing else; the end is seen by a consumer that asks for more.  Whoever
asks for more than the old entries finds the contents that the replacement at one go leaves. -/
theorem Database.replaceRange_agrees {name engineName : String} {config : Config}
    {pool : Option Pool} {db : Database} (hcreate : create name engineName config pool = .ok db)
    (hpool : ∀ p ∈ pool, p.IsReady) (options : Engine.Options) (script : List Act)
    {dictionary : String}
    (hopen : ((replies Act.run script ⟨.reliable (.new options), db⟩).2.database.find?
      dictionary).isSome) (range : KeyRange) (entries : List Entry) :
    let s := (replies Act.run script ⟨.reliable (.new options), db⟩).2
    let set := (Act.on dictionary (.setRange range entries)).run s
    ∃ (c c' : Contents) (previous : List Entry) (refusal : List (Except StoreError Entry)),
      s.Holds dictionary none c ∧ c.Lists range previous ∧ set.2.Holds dictionary none c' ∧
      (set.1 = .done ∧ refusal = [] ∨
        ∃ message, set.1 = .refused (.invalidArgument message) ∧
          refusal = [.error (.invalidArgument message)]) ∧
      ∀ limit, let replace := (Act.on dictionary (.replaceRange range entries limit)).run s
        replace.1 = .cut .entries limit (previous.map .ok ++ refusal) ∧
          (previous.length < limit → replace.2.Holds dictionary none c') := by
  intro s set
  obtain ⟨p, hmatches⟩ : ∃ p, s.Matches p :=
    ⟨_, ((matches_create hcreate hpool options).run script).2⟩
  obtain ⟨mode, hmode⟩ := hmatches.exists_mode hopen
  have hplain (op : DictionaryOp) :
      (Act.on dictionary op).plain p = op.plain dictionary mode p := by
    simp only [Act.plain, hmode]
  have hholds {s' : Store}
      (hs' : s'.Matches (p.set dictionary (p.refilled dictionary range entries).2)) :
      s'.Holds dictionary none (p.refilled dictionary range entries).2.get :=
    hs'.holds hmode (PlainStore.shownAt_set_self ..)
  obtain ⟨hset, hnext⟩ := hmatches.step (.on dictionary (.setRange range entries))
  rw [hplain, PlainStore.plain_setRange] at hset hnext
  refine ⟨(p.now dictionary).get, _, (p.now dictionary).within range,
    Stream.failureItem (p.refilled dictionary range entries).1, hmatches.holds hmode rfl,
    PlainMap.lists_within _ range, hholds hnext, ?_, fun limit => ?_⟩
  · -- The range is filled, or a key outside of it stops the writes.
    rcases PlainMap.fill_cases ((p.now dictionary).apply (.deleteRange range)) range
      (p.entryWindows entries) with ⟨m, hm⟩ | ⟨message, m, hm⟩
    · have hdone : (p.refilled dictionary range entries).1 = .ok () := congrArg Prod.fst hm
      exact .inl ⟨by rw [hset, hdone]; rfl, by rw [hdone]; rfl⟩
    · have hrefused : (p.refilled dictionary range entries).1 = .error (.invalidArgument message) :=
        congrArg Prod.fst hm
      exact .inr ⟨message, by rw [hset, hrefused]; rfl, by rw [hrefused]; rfl⟩
  · obtain ⟨hreply, hafter⟩ := hmatches.step (.on dictionary (.replaceRange range entries limit))
    rw [hplain] at hreply hafter
    refine ⟨hreply.trans (PlainStore.plain_replaceRange_fst ..), fun hlimit => ?_⟩
    rw [PlainStore.plain_replaceRange_snd p dictionary mode range entries hlimit] at hafter
    exact hholds hafter

/-- A database that writes every operation for itself and is one item ahead of its consumers. -/
def Database.eager : Database :=
  { name := "db"
    engineName := "memory"
    config := { Config.testing with writeBatchCap := 1, streamBuffer := 1 }
    pool := .new "db-storage" Config.testing.maxConcurrentOps Config.testing.maxConcurrentScans
    ownsPool := true
    snapshots := .empty
    dictionaries := []
    isClosed := false }

/-- Two entries are replaced by one that lies in the range and one that does not. -/
theorem Database.replaceRange_agrees_of_outside :
    let s := (replies Act.run
      [.opening "a" .allow, .on "a" (.put [2] [20] .previousValue),
        .on "a" (.put [1] [10] .previousValue)]
      ⟨.reliable (.new (engineOptions eager.config)), eager⟩).2
    let set := (Act.on "a" (.setRange (.below [5]) [([1], [11]), ([7], [70])])).run s
    let replace := (Act.on "a" (.replaceRange (.below [5]) [([1], [11]), ([7], [70])] 9)).run s
    replace.1 = .entries [.ok ([1], [10]), .ok ([2], [20]), .error (.invalidArgument
        s!"key {Bytes.label [7]} is outside range {(KeyRange.below [5]).display}")] true ∧
      ∃ c, set.2.Holds "a" none c ∧ replace.2.Holds "a" none c := by
  intro s set replace
  have hcreate : create "db" "memory" eager.config none = .ok eager := rfl
  obtain ⟨c, c', previous, refusal, -, -, hset, -, hreplace⟩ :=
    @replaceRange_agrees _ _ _ _ _ hcreate (by simp) (engineOptions eager.config)
      [.opening "a" .allow, .on "a" (.put [2] [20] .previousValue),
        .on "a" (.put [1] [10] .previousValue)]
      "a" (by decide +kernel) (.below [5]) [([1], [11]), ([7], [70])]
  have hreply : replace.1 = .entries [.ok ([1], [10]), .ok ([2], [20]), .error (.invalidArgument
      s!"key {Bytes.label [7]} is outside range {(KeyRange.below [5]).display}")] true :=
    (((matches_create hcreate (by simp) _).run _).2.step _).1.trans (by rfl)
  obtain ⟨hitems, hholds⟩ := hreplace 9
  obtain ⟨-, hend⟩ := Reply.entries.inj (hitems.symm.trans hreply)
  refine ⟨hreply, c', hset, hholds ?_⟩
  rw [decide_eq_true_iff, List.length_append, List.length_map] at hend
  omega

end SnapshotStore
