import SnapshotStore.Proofs.Database.Replacement
import SnapshotStore.Proofs.Database.Request
import SnapshotStore.Proofs.SubMap.Keys

/-!
# Nested maps on plain maps

Every operation of a nested map has its counterpart on plain maps (`SubMapOp.plain`).  One of a tail
is the operation of the dictionary on the key of that tail, unless the tail is malformed.  To clear
the map is to remove its range, and to replace it is to remove its range and to put the entries
before the first malformed tail.  Its streams hand out what the dictionary has in its range, without
the stem.
-/

namespace SnapshotStore

/-! ## On plain maps -/

namespace SubMap

/-- An operation on the key of a tail, unless the tail is malformed. -/
def onTail (A : SubMap) (p : PlainStore) (tail : Bytes) (refusal : StoreError → Reply)
    (op : Bytes → Reply × PlainStore) : Reply × PlainStore :=
  match A.fullKey tail with
  | .ok key => op key
  | .error e => (refusal e, p)

/-- What a nested map shows of a map: the tails of its range with their values. -/
def part (A : SubMap) (m : PlainMap) : List Entry :=
  (m.within A.range).map fun e => (A.strip e.1, e.2)

end SubMap

/-- The operation on plain maps. -/
def SubMapOp.plain (A : SubMap) (name : String) (mode : UpdateMode) (p : PlainStore) :
    SubMapOp → Reply × PlainStore
  | get token tail =>
    A.onTail p tail .refused fun key => (DictionaryOp.get token key false).plain name mode p
  | put tail value result =>
    A.onTail p tail .refused fun key => (DictionaryOp.put key value result).plain name mode p
  | remove tail result =>
    A.onTail p tail .refused fun key => (DictionaryOp.remove key result).plain name mode p
  | update tail f =>
    A.onTail p tail (fun e => .updated (.error e) 0) fun key =>
      (DictionaryOp.update key f false).plain name mode p
  | size token fast => (DictionaryOp.size token A.range fast).plain name mode p
  | isEmpty token => (DictionaryOp.isEmpty token A.range).plain name mode p
  | clear => (.done, p.set name ((p.now name).apply (.deleteRange A.range)))
  | setAll entries =>
    ((A.fullEntries entries).2.elim .done .refused,
      p.set name (((p.now name).apply (.deleteRange A.range)).puts (A.fullEntries entries).1))
  | getEntries token limit => (p.stream .entries limit token name A.part, p)
  | getKeys token limit =>
    (p.stream .keys limit token name fun m => (A.part m).map Prod.fst, p)
  | getChildKeys token limit =>
    (p.stream .keys limit token name fun m =>
      (m.stemsWithin A.range (A.layout.stemLen + A.layout.suffixLen)).map A.strip, p)

/-- On plain maps it makes no difference in which handle the nested map has its dictionary. -/
theorem SubMapOp.plain_with_dictionary (A : SubMap) (d : Dictionary) (name : String)
    (mode : UpdateMode) (p : PlainStore) (op : SubMapOp) :
    op.plain { A with dictionary := d } name mode p = op.plain A name mode p := by
  have hfull : ∀ entries : List Entry,
      SubMap.fullEntries { A with dictionary := d } entries = A.fullEntries entries := by
    intro entries
    induction entries with
    | nil => rfl
    | cons e rest ih =>
      simp only [SubMap.fullEntries, ih]
      rfl
  cases op with
  | setAll entries => simp only [SubMapOp.plain, hfull]
  | _ => rfl

/-- A handle of a dictionary of plain maps, which have neither columns nor locks. -/
def PlainStore.handle (p : PlainStore) (name : String) (mode : UpdateMode) : Dictionary where
  name := name
  databaseName := ""
  engineName := ""
  column := 0
  mode := mode
  striping := none
  deletesRanges := true
  config := p.config

/-- The request on plain maps, which cannot be closed. -/
def Request.plain (p : PlainStore) : Request → Reply × PlainStore
  | act a => a.plain p
  | nested name stem layout op =>
    match p.mode? name with
    | some mode =>
      match SubMap.new (p.handle name mode) stem layout with
      | .ok A => op.plain A name mode p
      | .error e => (.refused e, p)
    | none => (.notOpen, p)
  | close => (.done, p)

/-- To remove every key leaves no key. -/
theorem PlainMap.apply_deleteRange_of_isAll (m : PlainMap) {range : KeyRange}
    (h : range.isAll = true) : m.apply (.deleteRange range) = .empty := by
  obtain rfl := KeyRange.eq_all_of_isAll h
  have hnone : m.entries.filter (fun e => !KeyRange.all.contains e.1) = [] :=
    List.filter_eq_nil_iff.mpr fun e _ => by simp [KeyRange.contains, KeyRange.singleKey?,
      KeyRange.all]
  simp only [apply, empty, hnone]

/-! ## On a store -/

namespace Store.Refines

variable {s : Store} {p : PlainStore} {w : World} {A : SubMap} {name : String}

/-- An operation on the key of a tail answers as on plain maps. -/
theorem alike_onKey (h : s.Refines p w) {α : Type} (f : α → Reply) (x : Bytes → Work Empty α)
    (tail : Bytes) {op : Bytes → Reply × PlainStore}
    (hop : ∀ key, Alike (Store.answer f (Store.submit A.dictionary (x key)) s) (op key)) :
    Alike (Store.answer f (A.onKey tail x) s) (A.onTail p tail .refused op) := by
  unfold SubMap.onTail SubMap.onKey
  cases A.fullKey tail with
  | ok key => exact hop key
  | error e => exact ⟨rfl, w, h⟩

section

variable (h : s.Refines p w) (hd : s.database.find? name = some A.dictionary)

include h hd

/-- Whether a nested map has a key is whether the key has a value. -/
theorem alike_contains (token : Option Token) (tail : Bytes) :
    Alike (Store.answer .truth (A.contains token tail) s)
      (A.onTail p tail .refused fun key =>
        (.of (fun maps => .truth ((maps name).get key).isSome) (p.shown token), p)) := by
  refine h.alike_onKey .truth _ tail fun key => ?_
  exact h.alike_shown hd .truth (fun m => .truth (m.get key).isSome)
    (fun _ _ htoken hview hget =>
      ⟨_, Dictionary.takes_containsKey (h.atRest hd) htoken hview key, by rw [hget]⟩)
    fun _ htoken => Dictionary.takes_containsKey_failed htoken key

/-- An update of a nested map updates the full key. -/
theorem alike_nestedUpdate (tail : Bytes) (f : Updater) :
    Alike ((SubMapOp.update tail f).run A s)
      ((SubMapOp.update tail f).plain A name A.dictionary.mode p) := by
  simp only [SubMapOp.run, SubMapOp.plain, SubMap.onTail, SubMap.update]
  cases A.fullKey tail with
  | ok key => exact h.alike_update hd key f false
  | error e => exact ⟨congrArg (Reply.updated _) (Nat.sub_self _), w, h⟩

/-- To clear a nested map is to remove its range. -/
theorem alike_nestedClear : Alike (SubMapOp.clear.run A s)
    (SubMapOp.clear.plain A name A.dictionary.mode p) := by
  simp only [SubMapOp.run, SubMapOp.plain, SubMap.clear]
  split
  · rename_i hall
    rw [PlainMap.apply_deleteRange_of_isAll _ hall]
    exact h.alike_clear hd
  · have hset := h.alike_setRange hd A.range []
    rw [PlainStore.plain_setRange_of_fits p name A.dictionary.mode (by simp)] at hset
    exact hset

/-- To replace a nested map is to remove its range and to put entries that lie in it. -/
theorem alike_setAll (hA : A.Selects) (entries : List Entry) :
    Alike ((SubMapOp.setAll entries).run A s)
      ((SubMapOp.setAll entries).plain A name A.dictionary.mode p) := by
  have hset : Alike (Store.answer (fun _ => .done)
      (Store.setRange A.dictionary A.range (A.fullEntries entries).1) s)
      ((DictionaryOp.setRange A.range (A.fullEntries entries).1).plain name A.dictionary.mode p) :=
    h.alike_setRange hd A.range (A.fullEntries entries).1
  rw [PlainStore.plain_setRange_of_fits p name A.dictionary.mode fun e he =>
    hA.contains (hA.owns_of_mem_fullEntries entries e he)] at hset
  -- All keys lie in the range, so the replacement itself succeeds.
  obtain ⟨s', hrun, w', hrefines⟩ : ∃ s', (Store.setRange A.dictionary A.range
      (A.fullEntries entries).1).run s = (.ok (), s') ∧ ∃ w', s'.Refines (p.set name
        (((p.now name).apply (.deleteRange A.range)).puts (A.fullEntries entries).1)) w' := by
    unfold Alike Store.answer at hset
    cases hrun : (Store.setRange A.dictionary A.range (A.fullEntries entries).1).run s with
    | mk r s' =>
      rw [hrun] at hset
      cases r with
      | ok u => exact ⟨s', rfl, hset.2⟩
      | error e => cases hset.1
  unfold SubMapOp.run SubMapOp.plain Store.answer SubMap.setAll
  simp only [Store.run_bind_of_ok hrun]
  cases (A.fullEntries entries).2 with
  | some e => exact ⟨rfl, w', hrefines⟩
  | none => exact ⟨rfl, w', hrefines⟩

/-! ## Streams -/

/-- A stream whose items are changed on their way hands out the items of the maps, changed. -/
theorem alike_stream_map {ε ζ : Type} {x : Work ε Unit} {token : Option Token}
    {items : PlainMap → List ε} (g : ε → ζ) (f : List (Except StoreError ζ) → Bool → Reply)
    (limit : Nat)
    (hsends : ∀ view (m : PlainMap),
      (w.seenBy A.dictionary).snapshots.resolve token = .ok view →
      (w.seenBy A.dictionary).CanRead view →
      m.get = (w.seenBy A.dictionary).seen A.dictionary.column view →
      x.Sends (w.seenBy A.dictionary) ((items m).map .ok))
    (hfailed : ∀ e, (w.seenBy A.dictionary).snapshots.resolve token = .error e →
      x.Sends (w.seenBy A.dictionary) [.error e]) :
    Alike (Store.collect A.dictionary f limit ((A.dictionary.producing x).map g) s)
      (p.stream f limit token name fun m => (items m).map g, p) := by
  refine h.alike_stream hd f limit (fun view m htoken hview hm => ?_) fun e htoken => ?_
  · have hmapped := (hsends view m htoken hview hm).mapItems g
    rw [List.map_map] at hmapped ⊢
    exact hmapped
  · exact (hfailed e htoken).mapItems g

/-- The entries of a nested map are those of its range, without the stem. -/
theorem alike_nestedEntries (token : Option Token) (limit : Nat) :
    Alike ((SubMapOp.getEntries token limit).run A s)
      ((SubMapOp.getEntries token limit).plain A name A.dictionary.mode p) := by
  refine h.alike_stream_map hd (fun e : Entry => (A.strip e.1, e.2)) .entries limit
    (fun _ m htoken hview hm => ?_) fun _ htoken => Work.sends_view_failed htoken _
  exact Dictionary.sends_streamEntries (h.atRest hd) htoken hview (hm ▸ m.lists_within A.range) id

theorem alike_nestedKeys (token : Option Token) (limit : Nat) :
    Alike ((SubMapOp.getKeys token limit).run A s)
      ((SubMapOp.getKeys token limit).plain A name A.dictionary.mode p) := by
  have hkeys : (fun m => (A.part m).map Prod.fst)
      = fun m => (m.keysWithin A.range).map A.strip := by
    funext m
    rw [SubMap.part, PlainMap.keysWithin, List.map_map, List.map_map]
    rfl
  rw [SubMapOp.plain, hkeys]
  refine h.alike_stream_map hd A.strip .keys limit (fun _ m htoken hview hm => ?_)
    fun _ htoken => Work.sends_view_failed htoken _
  rw [PlainMap.keysWithin, List.map_map]
  exact Dictionary.sends_streamEntries (h.atRest hd) htoken hview (hm ▸ m.lists_within A.range)
    Prod.fst

/-- The keys of its children are the stems in its range, without its own. -/
theorem alike_nestedChildKeys (token : Option Token) (limit : Nat) :
    Alike ((SubMapOp.getChildKeys token limit).run A s)
      ((SubMapOp.getChildKeys token limit).plain A name A.dictionary.mode p) :=
  h.alike_stream_map hd A.strip .keys limit
    (fun _ m htoken hview hm => Dictionary.sends_streamStems (h.atRest hd) htoken hview
      (hm ▸ m.lists_within A.range) _)
    fun _ htoken => Work.sends_view_failed htoken _

/-- **Every operation of a nested map answers as on plain maps**, and the states after it correspond
again. -/
theorem alike_nested (hA : A.Selects) (op : SubMapOp) :
    Alike (op.run A s) (op.plain A name A.dictionary.mode p) := by
  cases op with
  | get token tail => exact h.alike_onKey .value _ tail fun key => h.alike_get hd token key false
  | put tail value result =>
    exact h.alike_onKey .value _ tail fun key => h.alike_put hd key value result
  | remove tail result =>
    exact h.alike_onKey .value _ tail fun key => h.alike_remove hd key result
  | update tail f => exact h.alike_nestedUpdate hd tail f
  | size token fast => exact h.alike_size hd token A.range fast
  | isEmpty token => exact h.alike_isEmpty hd token A.range
  | clear => exact h.alike_nestedClear hd
  | setAll entries => exact h.alike_setAll hd hA entries
  | getEntries token limit => exact h.alike_nestedEntries hd token limit
  | getKeys token limit => exact h.alike_nestedKeys hd token limit
  | getChildKeys token limit => exact h.alike_nestedChildKeys hd token limit

end

end Store.Refines

end SnapshotStore
