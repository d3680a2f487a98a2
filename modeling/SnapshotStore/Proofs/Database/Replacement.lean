import SnapshotStore.Proofs.Database.Reading

/-!
# Replacing the entries of a range

To replace the entries of a range is to remove them and to put the new ones, in order.  The new ones
are put window by window, and the first window with a key outside the range ends the operation: what
was put before stays, and nothing of that window and the later ones is put (`PlainMap.fill`).  How
the range is removed, and how the windows are cut into batches, makes no difference.
-/

namespace SnapshotStore

namespace Contents

/-- The contents after the entries of a range were replaced; of entries with the same key the last
one counts. -/
def replaced (c : Contents) (range : KeyRange) (entries : List Entry) : Contents := fun key =>
  (entries.reverse.lookup key).or (if range.contains key then none else c key)

/-- Of entries that are put one after the other, the last one with a key counts. -/
theorem applyAll_puts (c : Contents) (entries : List Entry) (key : Bytes) :
    c.applyAll (puts entries) key = (entries.reverse.lookup key).or (c key) := by
  induction entries generalizing c with
  | nil => rfl
  | cons e rest ih =>
    obtain ⟨k, v⟩ := e
    refine (ih (c.apply (.put k v))).trans ?_
    rw [List.reverse_cons, List.lookup_append, Option.or_assoc]
    congr 1
    by_cases hkey : key = k
    · simp [apply, hkey]
    · have hne : (key == k) = false := by simpa using hkey
      simp [apply, List.lookup_cons, hkey, hne]

end Contents

namespace PlainMap

variable {range : KeyRange} {e : Entry}

/-- The entries of a range are removed, and others put. -/
theorem get_replaced (m : PlainMap) (range : KeyRange) (entries : List Entry) :
    ((m.apply (.deleteRange range)).puts entries).get = m.get.replaced range entries := by
  funext key
  rw [get_puts, Contents.applyAll_puts, get_apply]
  rfl

theorem puts_append (m : PlainMap) (entries entries' : List Entry) :
    m.puts (entries ++ entries') = (m.puts entries).puts entries' := List.foldl_append

/-- Whether a range contains the keys of all entries of a window. -/
def fits (range : KeyRange) (window : List Entry) : Bool := window.all fun e => range.contains e.1

/-- A window fits if no entry of it lies outside the range. -/
theorem fits_eq_isNone (range : KeyRange) (window : List Entry) :
    fits range window = (window.find? fun e => !range.contains e.1).isNone := by
  rw [fits, List.all_eq_not_any_not, ← List.isSome_find?, Option.not_isSome]

/-- Windows that all fit are all put. -/
theorem fill_of_fits (m : PlainMap) {windows : List (List Entry)}
    (h : ∀ e ∈ windows.flatten, range.contains e.1 = true) :
    m.fill range windows = (.ok (), m.puts windows.flatten) := by
  induction windows generalizing m with
  | nil => rfl
  | cons window rest ih =>
    rw [List.flatten_cons] at h
    have hfind : window.find? (fun e => !range.contains e.1) = none :=
      List.find?_eq_none.mpr fun e he => by simp [h e (List.mem_append_left _ he)]
    rw [fill, hfind, List.flatten_cons, puts_append]
    exact ih _ fun e he => h e (List.mem_append_right _ he)

/-- The first entry outside the range is named, and the windows before its own are put. -/
theorem fill_of_outside (m : PlainMap) {windows : List (List Entry)}
    (h : windows.flatten.find? (fun e => !range.contains e.1) = some e) :
    m.fill range windows
      = (.error (.invalidArgument s!"key {e.1.label} is outside range {range.display}"),
        m.puts (windows.takeWhile (fits range)).flatten) := by
  induction windows generalizing m with
  | nil => cases h
  | cons window rest ih =>
    rw [List.flatten_cons, List.find?_append] at h
    unfold fill
    -- The first key outside is in this window, or this window is put and the key is in a later one.
    cases hfind : window.find? fun e => !range.contains e.1 with
    | some e' =>
      rw [hfind, Option.some_or, Option.some_inj] at h
      have hfits : fits range window = false := by rw [fits_eq_isNone, hfind]; rfl
      rw [List.takeWhile_cons_of_neg (by simp [hfits]), ← h]
      rfl
    | none =>
      rw [hfind, Option.none_or] at h
      have hfits : fits range window = true := by rw [fits_eq_isNone, hfind]; rfl
      rw [List.takeWhile_cons_of_pos hfits, List.flatten_cons, puts_append]
      exact ih _ h

end PlainMap

namespace PlainStore

variable (p : PlainStore) (name : String) (mode : UpdateMode) {range : KeyRange}
  {entries : List Entry}

/-- New entries that lie in the range replace the old ones. -/
theorem plain_setRange_of_fits (h : ∀ e ∈ entries, range.contains e.1 = true) :
    (DictionaryOp.setRange range entries).plain name mode p
      = (.done, p.set name (((p.now name).apply (.deleteRange range)).puts entries)) := by
  have hflatten : (p.entryWindows entries).flatten = entries := flatten_windows _ _
  simp only [DictionaryOp.plain]
  rw [PlainMap.fill_of_fits _ (by rwa [hflatten]), hflatten]
  rfl

/-- Of new entries that do not all lie in the range, the windows before the first that does not are
put. -/
theorem plain_setRange_of_outside {e : Entry}
    (h : entries.find? (fun e => !range.contains e.1) = some e) :
    (DictionaryOp.setRange range entries).plain name mode p
      = (.refused (.invalidArgument s!"key {e.1.label} is outside range {range.display}"),
        p.set name (((p.now name).apply (.deleteRange range)).puts
          ((p.entryWindows entries).takeWhile (PlainMap.fits range)).flatten)) := by
  have hflatten : (p.entryWindows entries).flatten = entries := flatten_windows _ _
  simp only [DictionaryOp.plain]
  rw [PlainMap.fill_of_outside _ (by rwa [hflatten])]
  rfl

end PlainStore

/-- **Replacing the entries of a range replaces exactly the range.**  If all keys lie in the range,
the contents are those before without the range and with the new entries, of which the last one with
a key counts.  If some key does not, the operation names the first one and fails, and only the
windows before the one that has it were put.  No read at a snapshot, and none of another dictionary,
answers otherwise than before. -/
theorem Database.setRange_replaces {name engineName : String} {config : Config}
    {pool : Option Pool} {db : Database} (hcreate : create name engineName config pool = .ok db)
    (hpool : ∀ p ∈ pool, p.IsReady) (options : Engine.Options) (script : List Act)
    {dictionary : String} {d : Dictionary}
    (hopen : (replies Act.run script ⟨.reliable (.new options), db⟩).2.database.find? dictionary
      = some d) (range : KeyRange) (entries : List Entry) :
    let s := (replies Act.run script ⟨.reliable (.new options), db⟩).2
    let after := (Act.on dictionary (.setRange range entries)).run s
    ∃ c : Contents, s.Holds dictionary none c ∧
      ((∀ e ∈ entries, range.contains e.1 = true) →
        after.1 = .done ∧ after.2.Holds dictionary none (c.replaced range entries)) ∧
      (∀ e, entries.find? (fun e => !range.contains e.1) = some e →
        after.1 = .refused
            (.invalidArgument s!"key {e.1.label} is outside range {range.display}") ∧
          after.2.Holds dictionary none
            (c.replaced range ((d.entryWindows entries).takeWhile (PlainMap.fits range)).flatten)) ∧
      ∀ (op : DictionaryOp) (token : Option Token) (other : String), op.readsAt? = some token →
        other ≠ dictionary ∨ token ≠ none →
          ((Act.on other op).run after.2).1 = ((Act.on other op).run s).1 := by
  intro s after
  obtain ⟨p, hmatches⟩ : ∃ p, s.Matches p :=
    ⟨_, ((matches_create hcreate hpool options).run script).2⟩
  obtain ⟨mode, hmode⟩ := hmatches.exists_mode (Option.isSome_of_eq_some hopen)
  have hwindows : d.entryWindows entries = p.entryWindows entries := by
    obtain ⟨-, w, hrefines⟩ := hmatches
    exact hrefines.entryWindows_eq hopen entries
  have hplain : (Act.on dictionary (.setRange range entries)).plain p
      = (DictionaryOp.setRange range entries).plain dictionary mode p := by
    simp only [Act.plain, hmode]
  obtain ⟨hreply, hnext⟩ := hmatches.step (.on dictionary (.setRange range entries))
  rw [hplain] at hreply hnext
  refine ⟨(p.now dictionary).get, hmatches.holds hmode rfl, fun hfits => ?_, fun e he => ?_, ?_⟩
  · rw [PlainStore.plain_setRange_of_fits p dictionary mode hfits] at hreply hnext
    refine ⟨hreply, ?_⟩
    rw [← PlainMap.get_replaced]
    exact hnext.holds hmode (PlainStore.shownAt_set_self ..)
  · rw [PlainStore.plain_setRange_of_outside p dictionary mode he] at hreply hnext
    refine ⟨hreply, ?_⟩
    rw [hwindows, ← PlainMap.get_replaced]
    exact hnext.holds hmode (PlainStore.shownAt_set_self ..)
  · intro op token other hop hother
    obtain ⟨m, hm⟩ : ∃ m, ((DictionaryOp.setRange range entries).plain dictionary mode p).2
        = p.set dictionary m := DictionaryOp.exists_plain_eq_set _
    rw [hm] at hnext
    rw [(hnext.step _).1, (hmatches.step _).1]
    exact Act.plain_eq_of_shownAt hop rfl rfl (PlainStore.shownAt_set p m hother)

/-- A second entry that lies outside the range. -/
theorem Database.setRange_replaces_of_outside :
    ((Act.on "a" (.setRange (.below [5]) [([1], [11]), ([7], [70])])).run
      (replies Act.run [.opening "a" .allow, .on "a" (.put [1] [10] .previousValue)]
        ⟨.reliable (.new (engineOptions .testing)), {
          name := "db"
          engineName := "memory"
          config := .testing
          pool := .new "db-storage" Config.testing.maxConcurrentOps
            Config.testing.maxConcurrentScans
          ownsPool := true
          snapshots := .empty
          dictionaries := []
          isClosed := false }⟩).2).1
      = .refused (.invalidArgument
          s!"key {Bytes.label [7]} is outside range {(KeyRange.below [5]).display}") :=
  ((@setRange_replaces "db" "memory" .testing none _ rfl (by simp) (engineOptions .testing)
    [.opening "a" .allow, .on "a" (.put [1] [10] .previousValue)] "a" _
    (Option.some_get (by decide +kernel)).symm (.below [5])
    [([1], [11]), ([7], [70])]).choose_spec.2.2.1 ([7], [70]) (by decide)).1

end SnapshotStore
