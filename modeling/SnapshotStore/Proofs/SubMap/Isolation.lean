import SnapshotStore.Proofs.SubMap.Stored

/-!
# Nested maps are isolated

Several nested maps share one dictionary, each behind its own stem.  If all of them have keys of one
width, then each has exactly the keys that start with its stem, and nothing that is done through one
of them shows in another, unless the stem of one starts with the stem of the other.

The half about writing is `Store.IsPartitioned.nested`: it holds whatever the engine does.  The half
about reading goes over plain maps, which mirror the store as soon as its engine works, and on which
the answers of a nested map are those of its part (`SubMap.Shows`).
-/

namespace SnapshotStore

/-! ## Requests -/

/-- The plain maps after requests, one after the other. -/
def PlainStore.after (p : PlainStore) (script : List Request) : PlainStore :=
  script.foldl (fun p r => (r.plain p).2) p

/-! ## Stores -/

namespace Store

variable {s s' : Store} {p p' : PlainStore} {w w' : World} {may : Permit} {name : String}
  {width : Nat} {A B : SubMap} {token : Option Token} {view : ReadView}

/-- An operation of a nested map is answered alike, and leaves store and maps alike. -/
theorem Matches.nested (h : s.Matches p) (hd : s.database.find? name = some A.dictionary)
    (hA : A.Selects) (op : SubMapOp) :
    (op.run A s).1 = (op.plain A name A.dictionary.mode p).1 ∧
      (op.run A s).2.Matches (op.plain A name A.dictionary.mode p).2 := by
  obtain ⟨hnumbered, w, hrefines⟩ := h
  obtain ⟨hreply, hnext⟩ := hrefines.alike_nested hd hA op
  obtain ⟨m, hm⟩ : ∃ m, (op.plain A name A.dictionary.mode p).2 = p.set name m :=
    op.exists_plain_eq_set
  exact ⟨hreply, hm ▸ hnumbered, hnext⟩

/-- **Every request but closing answers as on plain maps.** -/
theorem Matches.request (h : s.Matches p) {r : Request} (hr : r ≠ .close) :
    (r.run s).1 = (r.plain p).1 ∧ (r.run s).2.Matches (r.plain p).2 := by
  cases r with
  | act a => exact h.step a
  | close => exact absurd rfl hr
  | nested name stem layout op =>
    have hmode : p.mode? name = (s.database.find? name).map (·.mode) := by
      obtain ⟨-, w, hrefines⟩ := h
      exact hrefines.mode?_eq name
    simp only [Request.run, Database.nested?, Request.plain, hmode]
    cases hd : s.database.find? name with
    | none => exact ⟨rfl, h⟩
    | some d =>
      simp only [Option.map_some, SubMap.new_eq_map (p.handle name d.mode) d stem layout]
      cases hnew : SubMap.new d stem layout with
      | error e => exact ⟨rfl, h⟩
      | ok A =>
        obtain ⟨rfl, -, -, hA⟩ := SubMap.new_eq_ok hnew
        simp only [Except.map, SubMapOp.plain_with_dictionary]
        exact h.nested hd hA op

/-- After a script without a close, plain maps still match the store. -/
theorem Matches.after (h : s.Matches p) {script : List Request}
    (hscript : ∀ r ∈ script, r ≠ .close) : (s.after script).Matches (p.after script) := by
  induction script generalizing s p with
  | nil => exact h
  | cons r rest ih =>
    exact ih (h.request (hscript r List.mem_cons_self)).2 fun r hr =>
      hscript r (List.mem_cons_of_mem _ hr)

/-- While a ledger goes on, a key that keeps its value keeps it in all views. -/
theorem IsIn.seen_eq (h : s.IsIn w) (hgoes : w.ledger.GoesOn may w'.ledger) {column : Nat}
    {key : Bytes} (hnow : w'.now column key = w.now column key) (hread : w.CanRead view) :
    w'.seen column view key = w.seen column view key := by
  cases view with
  | latest => exact hnow
  | «at» q =>
    obtain ⟨more, hmore, -⟩ := hgoes.history
    have hpinned : q ∈ s.engine.engine.pins := h.backend.pins_eq ▸ hread
    have hpast : q ≤ w.ledger.history.length :=
      h.sequence_eq ▸ h.backend.agrees.represents.pins_le q hpinned
    rw [World.seen, World.seen, hmore, History.contents_append hpast]

/-- While nothing changes in a range of a dictionary, plain maps show the same there. -/
theorem Refines.shown_within_eq (h : s.Refines p w) (h' : s'.Refines p' w')
    (hgoes : w.ledger.GoesOn may w'.ledger) (hsnapshots : w'.snapshots = w.snapshots)
    {d : Dictionary} (hd : s.database.find? name = some d)
    (hd' : s'.database.find? name = some d) {range : KeyRange}
    (hnow : ∀ key, range.contains key = true → w'.now d.column key = w.now d.column key)
    (token : Option Token) :
    (∃ maps maps', p.shown token = .ok maps ∧ p'.shown token = .ok maps' ∧
        (maps name).within range = (maps' name).within range) ∨
      ∃ e, p.shown token = .error e ∧ p'.shown token = .error e := by
  have hcolumn : w.columnOf name = d.column := (h.column_eq hd).symm
  have hcolumn' : w'.columnOf name = d.column := (h'.column_eq hd').symm
  rcases h.mirrors.shown_cases token with
    ⟨maps, view, hmaps, hresolve, hread, hget⟩ | ⟨e, herror, hresolve⟩ <;>
  rcases h'.mirrors.shown_cases token with
    ⟨maps', view', hmaps', hresolve', -, hget'⟩ | ⟨e', herror', hresolve'⟩ <;>
  rw [hsnapshots, hresolve] at hresolve' <;> cases hresolve'
  · refine .inl ⟨maps, maps', hmaps, hmaps', PlainMap.within_eq fun key hkey => ?_⟩
    rw [hget, hget', hcolumn, hcolumn', h.isIn.seen_eq hgoes (hnow key hkey) hread]
  · exact .inr ⟨e, herror, herror'⟩

/-- **Nested maps neither of whose stems is a prefix of the other do not see each other**, whatever
becomes of the operation of the one. -/
theorem IsPartitioned.isolated (h : s.IsPartitioned name width w)
    (hA : s.database.nested? name A.stem A.layout = some (.ok A))
    (hB : s.database.nested? name B.stem B.layout = some (.ok B))
    (hwidth : A.layout.keyLen = width) (hwidth' : B.layout.keyLen = width)
    (hAB : ¬ A.stem <+: B.stem) (hBA : ¬ B.stem <+: A.stem) (op op' : SubMapOp) :
    (op'.run A (op.run B s).2.mend).1 = (op'.run A s.mend).1 := by
  obtain ⟨hd, -, -, hselA⟩ := nested?_eq_some hA
  obtain ⟨hdB, -⟩ := nested?_eq_some hB
  obtain ⟨hkeeps, w', hgoes, h', hedits⟩ := h.nested hB hwidth' op
  rw [show B.dictionary = A.dictionary from Option.some.inj (hdB.symm.trans hd)] at hedits
  have hd' : (op.run B s).2.database.find? name = some A.dictionary :=
    (hkeeps.find?_eq name).trans hd
  have hsnapshots : w'.snapshots = w.snapshots :=
    h'.recovers.isIn.backend.snapshots_eq.symm.trans
      ((op.answers (fun _ hbad => hbad.elim) h.recovers.accounts B).1.snapshots_eq.trans
        h.recovers.isIn.backend.snapshots_eq)
  -- No key of the range of `A` is one that `B` edits.
  have hnow : ∀ key, A.range.contains key = true →
      w'.now A.dictionary.column key = w.now A.dictionary.column key := by
    intro key hkey
    by_cases hlength : key.length = width
    · have hstem : A.stem <+: key := (hselA.contains_iff key (hlength.trans hwidth.symm)).mp hkey
      exact hedits.get_eq key (SubMap.not_prefix_other hAB hBA hstem)
    · exact (hedits.width.eq_none (hwidth' ▸ hlength)).trans
        ((h.width _ (h.recovers.getElem?_names hd) _).eq_none hlength).symm
  obtain ⟨p, hnumbered, hp⟩ := h.recovers.exists_refines
  obtain ⟨p', hnumbered', hp'⟩ := h'.recovers.exists_refines
  have hconfig : p.config = p'.config := by
    rw [hp.config_eq, hp'.config_eq]
    exact (congrArg Database.config hkeeps).symm
  calc (op'.run A (op.run B s).2.mend).1
      = (op'.plain A name A.dictionary.mode p').1 :=
        (Matches.nested ⟨hnumbered', w', hp'⟩ hd' hselA op').1
    _ = (op'.plain A name A.dictionary.mode p).1 :=
        (SubMapOp.plain_reply_eq hselA hconfig
          (hp.shown_within_eq hp' hgoes hsnapshots hd hd' hnow) op').symm
    _ = (op'.run A s.mend).1 := (Matches.nested ⟨hnumbered, w, hp⟩ hd hselA op').1.symm

end Store

/-! ## Nested maps -/

/-- All reads of a nested map, now or at a snapshot, answer from one map of tails.  Only the quick
size of a nested map that is the whole dictionary stops at the cap at a snapshot. -/
structure SubMap.Shows (A : SubMap) (s : Store) (token : Option Token) (part : PlainMap) :
    Prop where
  /-- The entries, in ascending order. -/
  getEntries : ∀ limit, ((SubMapOp.getEntries token limit).run A s).1
    = .cut .entries limit (part.entries.map .ok)
  /-- The tails, in ascending order. -/
  getKeys : ∀ limit, ((SubMapOp.getKeys token limit).run A s).1
    = .cut .keys limit (part.entries.map fun e => .ok e.1)
  /-- The value of a tail. -/
  get : ∀ tail : Bytes, tail.length = A.layout.tailLen →
    ((SubMapOp.get token tail).run A s).1 = .value (part.get tail)
  /-- Whether a tail has a value. -/
  contains : ∀ tail : Bytes, tail.length = A.layout.tailLen →
    (Store.answer .truth (A.contains token tail) s).1 = .truth (part.get tail).isSome
  /-- The number of tails. -/
  size : ∀ fast, fast = false ∨ token = none ∨ A.layout.stemLen ≠ 0 →
    ((SubMapOp.size token fast).run A s).1 = .count part.entries.length
  /-- The quick size of the whole dictionary at a snapshot. -/
  fastSize : ∀ t, token = some t → A.layout.stemLen = 0 →
    ((SubMapOp.size token true).run A s).1
      = .count (min part.entries.length (max s.database.config.fastSizeScanCap 1))
  /-- Whether there is no tail. -/
  isEmpty : ((SubMapOp.isEmpty token).run A s).1 = .truth part.entries.isEmpty

namespace Store.Matches

variable {s : Store} {p : PlainStore} {name : String} {A : SubMap} {token : Option Token}
  {m : PlainMap}

/-- A nested map of a dictionary with keys of the width of its layout shows its part. -/
theorem shows_part (h : s.Matches p) (hd : s.database.find? name = some A.dictionary)
    (hA : A.Selects) {maps : String → PlainMap} (hmaps : p.shown token = .ok maps)
    (hm : (maps name).get.HasWidth A.layout.keyLen) :
    A.Shows s token (A.partMap (maps name) hA hm) := by
  have hreply := fun op => (h.nested hd hA op).1
  have hconfig : p.config = s.database.config := by
    obtain ⟨-, w, hrefines⟩ := h
    exact hrefines.config_eq
  have hlength : (A.part (maps name)).length = ((maps name).within A.range).length :=
    List.length_map _
  have hget : ∀ tail : Bytes, tail.length = A.layout.tailLen →
      (DictionaryOp.get token (A.stem ++ tail) false).plain name A.dictionary.mode p
        = (.value ((A.partMap (maps name) hA hm).get tail), p) := fun tail _ => by
    rw [SubMap.get_partMap]
    simp only [DictionaryOp.plain, hmaps, Reply.of]
  exact
    { getEntries := fun limit => (hreply _).trans (by
        simp only [SubMapOp.plain, PlainStore.stream, hmaps]
        rfl)
      getKeys := fun limit => (hreply _).trans (by
        simp only [SubMapOp.plain, PlainStore.stream, hmaps, List.map_map]
        rfl)
      get := fun tail htail => (hreply _).trans (by
        simp only [SubMapOp.plain, SubMap.onTail, SubMap.fullKey_of_length htail, hget tail htail])
      contains := fun tail htail => by
        obtain ⟨-, w, hrefines⟩ := h
        refine (hrefines.alike_contains hd token tail).1.trans ?_
        rw [SubMap.onTail, SubMap.fullKey_of_length htail, SubMap.get_partMap]
        simp only [hmaps, Reply.of]
      size := fun fast hfast => (hreply _).trans (by
        have hexact : (A.range.isAll && fast && token.isSome) = false := by
          rcases hfast with rfl | rfl | hstem
          · simp
          · simp
          · simp [Bool.eq_false_iff.mpr fun hall => hstem (hA.isAll_iff.mp hall)]
        simp only [SubMapOp.plain, DictionaryOp.plain, hmaps, Reply.of, PlainMap.size, hexact]
        exact congrArg Reply.count hlength.symm)
      fastSize := fun t ht hroot => (hreply _).trans (by
        have hcapped : (A.range.isAll && true && token.isSome) = true := by
          simp [hA.isAll_iff.mpr hroot, ht]
        simp only [SubMapOp.plain, DictionaryOp.plain, hmaps, Reply.of, PlainMap.size, hcapped,
          hconfig]
        exact congrArg (fun n => Reply.count (min n _)) hlength.symm)
      isEmpty := (hreply _).trans (by
        simp only [SubMapOp.plain, DictionaryOp.plain, hmaps, Reply.of]
        exact congrArg Reply.truth (List.isEmpty_map ..).symm) }

end Store.Matches

/-- **Nested maps are isolated.**  In a dictionary that is written only through nested maps with
keys of one width, all stored keys have that width, and an operation of a nested map, whatever
becomes of it, keeps the values of all keys that do not start with its stem.  Calls of the engine
may have failed before, and they may fail during the operation.  Once the engine works
(`Store.mend`), a nested map of that width shows, now and at every live snapshot, exactly the tails
behind its stem, in ascending order; and no operation of a nested map neither of whose stems is a
prefix of the other, be it cut short by a failure, changes what an operation of it answers. -/
theorem Database.nested_maps_isolated {name engineName : String} {config : Config}
    {pool : Option Pool} {db : Database} (hcreate : create name engineName config pool = .ok db)
    (hpool : ∀ p ∈ pool, p.IsReady) (options : Engine.Options) (faults : List Fault)
    {script : List Request} {dictionary : String} {width : Nat}
    (hscript : ∀ r ∈ script, r.IsNested dictionary width) {stem : Bytes} {layout : KeyLayout}
    (hlayout : layout.keyLen = width) {A : SubMap}
    (hA : (Store.after ⟨⟨.new options, faults⟩, db⟩ script).database.nested? dictionary stem layout
      = some (.ok A)) :
    let s := Store.after ⟨⟨.new options, faults⟩, db⟩ script
    (∀ view key value, s.stored A.dictionary view key = .ok (some value) → key.length = width) ∧
      (∀ op : SubMapOp,
        (∀ view key value, (op.run A s).2.stored A.dictionary view key = .ok (some value) →
          key.length = width) ∧
        ∀ key, ¬ stem <+: key →
          (op.run A s).2.stored A.dictionary .latest key = s.stored A.dictionary .latest key) ∧
      (faults = [] → s.mend = s) ∧
      (∀ token view, s.database.snapshots.resolve token = .ok view →
        ∃ (c : Contents) (part : PlainMap), (∀ key, s.stored A.dictionary view key = .ok (c key)) ∧
          s.mend.Holds dictionary token c ∧ (∀ tail, part.get tail = c (stem ++ tail)) ∧
          A.Shows s.mend token part) ∧
      ∀ (other : Bytes) (layout' : KeyLayout), layout'.keyLen = width → ¬ stem <+: other →
        ¬ other <+: stem → ∀ op op' : SubMapOp,
          ((Request.nested dictionary stem layout op').run
              ((Request.nested dictionary other layout' op).run s).2.mend).1
            = ((Request.nested dictionary stem layout op').run s.mend).1 := by
  intro s
  obtain ⟨w, hw⟩ : ∃ w, s.IsPartitioned dictionary width w :=
    (isPartitioned_create hcreate hpool options faults dictionary width).after hscript
  obtain ⟨hd, rfl, rfl, hsel⟩ := Store.nested?_eq_some hA
  obtain rfl := hlayout
  refine ⟨fun view key value => hw.length_of_stored hd, fun op => ?_, fun hfaults => ?_,
    fun token view hview => ?_, fun other layout' hlayout' hAB hBA op op' => ?_⟩
  · obtain ⟨hkeeps, w', -, hw', hedits⟩ := hw.nested hA rfl op
    have hd' := (hkeeps.find?_eq dictionary).trans hd
    refine ⟨fun view key value => hw'.length_of_stored hd', fun key hkey => ?_⟩
    rw [hw.stored_latest hd, hw'.stored_latest hd', hedits.get_eq key hkey]
  · subst hfaults
    obtain ⟨-, w, hrefines⟩ := (matches_create hcreate hpool options).after
      fun r hr => (hscript r hr).ne_close
    exact hrefines.isIn.mend_eq
  · obtain ⟨p, hnumbered, hp⟩ := hw.recovers.exists_refines
    have hmatches : s.mend.Matches p := ⟨hnumbered, w, hp⟩
    obtain ⟨mode, hmode⟩ := hmatches.exists_mode (Option.isSome_of_eq_some hd)
    obtain ⟨maps, hmaps, hstored⟩ := hmatches.shown_of_resolve hd hview
    have hm := hw.width_of_shown hp hd hmaps
    have hshown : p.shownAt token dictionary = .ok (maps dictionary) := by
      rw [PlainStore.shownAt, hmaps]
      rfl
    exact ⟨(maps dictionary).get, A.partMap (maps dictionary) hsel hm, hstored,
      hmatches.holds hmode hshown, SubMap.get_partMap hsel hm,
      hmatches.shows_part hd hsel hmaps hm⟩
  · have hreply : ∀ s' : Store, s'.database.nested? dictionary A.stem A.layout = some (.ok A) →
        ((Request.nested dictionary A.stem A.layout op').run s').1 = (op'.run A s').1 :=
      fun s' hs' => by simp only [Request.run, hs']
    cases hother : s.database.nested? dictionary other layout' with
    | none => simp only [Request.run, hother]
    | some made =>
      cases made with
      | error e => simp only [Request.run, hother]
      | ok B =>
        obtain ⟨-, rfl, rfl, -⟩ := Store.nested?_eq_some hother
        obtain ⟨hkeeps, -⟩ := hw.nested hother hlayout' op
        have hrun : (Request.nested dictionary B.stem B.layout op).run s = op.run B s := by
          simp only [Request.run, hother]
        rw [hrun, hreply (op.run B s).2.mend ((hkeeps.nested?_eq _ _ _).trans hA), hreply s.mend hA]
        exact hw.isolated hA hother rfl hlayout' hAB hBA op op'

namespace Database

/-- A database that looks at one key for a quick size at a snapshot. -/
def hasty : Database :=
  { name := "db"
    engineName := "memory"
    config := { Config.testing with fastSizeScanCap := 1 }
    pool := .new "db-storage" Config.testing.maxConcurrentOps Config.testing.maxConcurrentScans
    ownsPool := true
    snapshots := .empty
    dictionaries := []
    isClosed := false }

/-- Two neighbours, of which one is to be replaced by an entry and a malformed tail while the engine
fails. -/
theorem nested_maps_isolated_of_neighbour :
    let script : List Request :=
      [.act (.opening "d" .allow), .nested "d" [1] ⟨1, 1, 0⟩ (.put [5] [50] .previousValue)]
    let s := Store.after
      ⟨⟨.new (engineOptions hasty.config), [⟨.write, 0, .io "no space"⟩]⟩, hasty⟩ script
    ((Request.nested "d" [1] ⟨1, 1, 0⟩ (.getEntries none 3)).run
        ((Request.nested "d" [2] ⟨1, 1, 0⟩ (.setAll [([5], [51]), ([5, 6], [52])])).run s).2.mend).1
      = ((Request.nested "d" [1] ⟨1, 1, 0⟩ (.getEntries none 3)).run s.mend).1 := by
  intro script s
  obtain ⟨d, hd⟩ : ∃ d, s.database.find? "d" = some d :=
    ⟨_, (Option.some_get (by decide +kernel)).symm⟩
  obtain ⟨A, hA⟩ : ∃ A, s.database.nested? "d" [1] ⟨1, 1, 0⟩ = some (.ok A) := by
    rw [nested?, hd]
    exact ⟨_, rfl⟩
  have hscript : ∀ r ∈ script, r.IsNested "d" 2 := by
    simp [script, Request.IsNested, KeyLayout.keyLen]
  have hcreate : create "db" "memory" hasty.config none = .ok hasty := rfl
  have hisolated := nested_maps_isolated hcreate (by simp) _ _ hscript
    (show (⟨1, 1, 0⟩ : KeyLayout).keyLen = 2 from rfl) hA
  exact hisolated.2.2.2.2 [2] ⟨1, 1, 0⟩ rfl (by decide) (by decide) _ _

/-- Two tails are put into the nested map that is a whole dictionary, and a snapshot is taken. -/
def hastyScript : List Request :=
  [.act (.opening "d" .allow), .nested "d" [] ⟨0, 1, 0⟩ (.put [1] [10] .previousValue),
    .nested "d" [] ⟨0, 1, 0⟩ (.put [2] [11] .previousValue), .act .takeSnapshot]

/-- The quick size of a nested map that is the whole dictionary stops at the cap at a snapshot: the
entries of the map are two, and the answer is one. -/
theorem nested_map_fastSize_stops :
    let s := Store.after ⟨.reliable (.new (engineOptions hasty.config)), hasty⟩ hastyScript
    (∀ r ∈ hastyScript, r.IsNested "d" 1) ∧
      ((Request.nested "d" [] ⟨0, 1, 0⟩ (.getEntries (some 1) 3)).run s).1
        = .entries [.ok ([1], [10]), .ok ([2], [11])] true ∧
      ((Request.nested "d" [] ⟨0, 1, 0⟩ (.size (some 1) true)).run s).1 = .count 1 := by
  intro s
  have hscript : ∀ r ∈ hastyScript, r.IsNested "d" 1 := by
    simp [hastyScript, Request.IsNested, KeyLayout.keyLen]
  have hmatches : s.Matches ((PlainStore.empty hasty.config).after hastyScript) :=
    (@matches_create "db" "memory" hasty.config none hasty rfl (by simp) _).after
      fun r hr => (hscript r hr).ne_close
  have hplain : ∀ op, ((Request.nested "d" [] ⟨0, 1, 0⟩ op).run s).1
      = ((Request.nested "d" [] ⟨0, 1, 0⟩ op).plain
          ((PlainStore.empty hasty.config).after hastyScript)).1 :=
    fun op => (hmatches.request (by simp)).1
  exact ⟨hscript, (hplain _).trans (by rfl), (hplain _).trans (by rfl)⟩

end Database

end SnapshotStore
