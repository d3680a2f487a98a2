import SnapshotStore.Proofs.Database.Grouping
import SnapshotStore.Proofs.SubMap.Isolation

/-!
# Children compose their nested map

The child keys of a nested map are found by cutting keys of its own range, and each child has a
range of its own, which is computed from a layout that is cut anew.  On keys of one width both
agree: of the entries in the range of the nested map, a child has those that carry on with its
suffix.  So the entries of the nested map are those of its children, one child after the other, each
tail behind the suffix of its child (`SubMap.IsComposed`).
-/

namespace SnapshotStore

namespace KeyLayout

variable {l : KeyLayout} {j : Nat}

/-- The keys of a child are as wide as those of its parent. -/
theorem keyLen_child (hj : j ≤ l.extLen) :
    (KeyLayout.mk (l.stemLen + l.suffixLen) j (l.extLen - j)).keyLen = l.keyLen := by
  simp only [keyLen]
  omega

end KeyLayout

namespace SubMap

variable {A C : SubMap} {m : PlainMap} {j : Nat} {suffix key stem : Bytes} {e : Entry}

/-! ## Children -/

/-- There is a child below every suffix of the width of the layout, as long as the extension can
give the suffix of the child. -/
theorem Selects.exists_child (hA : A.Selects) (hj : j ≤ A.layout.extLen)
    (hsuffix : suffix.length = A.layout.suffixLen) :
    ∃ C, A.child suffix j = .ok C ∧ new A.dictionary (A.stem ++ suffix)
      ⟨A.layout.stemLen + A.layout.suffixLen, j, A.layout.extLen - j⟩ = .ok C := by
  have hlength : (A.stem ++ suffix).length = A.layout.stemLen + A.layout.suffixLen := by
    rw [List.length_append, hA.length_stem, hsuffix]
  obtain ⟨C, hC⟩ := @exists_new_eq_ok (A.stem ++ suffix)
    ⟨A.layout.stemLen + A.layout.suffixLen, j, A.layout.extLen - j⟩ A.dictionary hlength
  have hlayout : A.layout.child j
      = .ok ⟨A.layout.stemLen + A.layout.suffixLen, j, A.layout.extLen - j⟩ := if_pos hj
  have hfirst : A.layout.firstKeyOfSuffix A.stem suffix
      = .ok (KeyLayout.zeroExtend (A.stem ++ suffix) A.layout.extLen) := by
    simp [KeyLayout.firstKeyOfSuffix, KeyLayout.checkWidth, hA.length_stem, hsuffix, bind,
      Except.bind, pure, Except.pure]
  refine ⟨C, ?_, hC⟩
  rw [child, hlayout, hfirst]
  exact hC

/-- Where a child is: behind the stem of its parent and one suffix, with keys of the same width. -/
structure IsChild (C A : SubMap) (suffix : Bytes) : Prop where
  /-- The child is where its stem says. -/
  selects : C.Selects
  /-- The suffix has the width that the layout of the parent gives it. -/
  length_suffix : suffix.length = A.layout.suffixLen
  /-- The stem of the child. -/
  stem_eq : C.stem = A.stem ++ suffix
  /-- The width of the keys. -/
  keyLen_eq : C.layout.keyLen = A.layout.keyLen

/-- The stem of a key that starts with the stem of a nested map. -/
theorem IsChild.prefix_iff (h : C.IsChild A suffix) (hA : A.Selects) :
    C.stem <+: key ↔
      A.stem <+: key ∧ key.stem (A.layout.stemLen + A.layout.suffixLen) = A.stem ++ suffix := by
  have hlength : (A.stem ++ suffix).length = A.layout.stemLen + A.layout.suffixLen := by
    rw [List.length_append, hA.length_stem, h.length_suffix]
  rw [h.stem_eq, Bytes.stem, ← hlength, eq_comm, ← List.prefix_iff_eq_take]
  exact (and_iff_right_of_imp (List.prefix_append _ _).trans).symm

/-- Of the entries in the range of a nested map, a child has those that carry on with its suffix. -/
theorem IsChild.within_eq (h : C.IsChild A suffix) (hA : A.Selects)
    (hm : m.get.HasWidth A.layout.keyLen) :
    m.within C.range = Dictionary.withStem (A.layout.stemLen + A.layout.suffixLen)
      (m.within A.range) (A.stem ++ suffix) := by
  rw [PlainMap.within, PlainMap.within, Dictionary.withStem, List.filter_filter]
  refine List.filter_congr fun e he => ?_
  have hlength : e.1.length = A.layout.keyLen :=
    hm e.1 e.2 ((KeyMap.get?_eq_some_iff m.sorted).mpr he)
  rw [Bool.eq_iff_iff, h.selects.contains_iff e.1 (hlength.trans h.keyLen_eq.symm),
    h.prefix_iff hA, Bool.and_eq_true, hA.contains_iff e.1 hlength, decide_eq_true_eq, and_comm]

/-- The tail of a key in a nested map is its tail in a child, behind the suffix. -/
theorem IsChild.strip_eq (h : C.IsChild A suffix) (hA : A.Selects) (hkey : C.Owns key) :
    A.strip key = suffix ++ C.strip key := by
  have hkey' := h.selects.append_strip hkey
  rw [h.stem_eq, List.append_assoc] at hkey'
  rw [← hkey', hA.strip_append, hkey']

/-- The part of a child, with the suffix before each tail. -/
theorem IsChild.map_part (h : C.IsChild A suffix) (hA : A.Selects)
    (hm : m.get.HasWidth A.layout.keyLen) :
    (Dictionary.withStem (A.layout.stemLen + A.layout.suffixLen) (m.within A.range)
        (A.stem ++ suffix)).map (fun e => (A.strip e.1, e.2))
      = (C.part m).map fun e => (suffix ++ e.1, e.2) := by
  rw [← h.within_eq hA hm, part, List.map_map]
  refine List.map_congr_left fun e he => ?_
  rw [h.strip_eq hA (h.selects.owns_of_mem (h.keyLen_eq ▸ hm) he)]
  rfl

/-! ## Suffixes -/

/-- The suffixes that some tail starts with. -/
def suffixes (A : SubMap) (m : PlainMap) : List Bytes :=
  (m.stemsWithin A.range (A.layout.stemLen + A.layout.suffixLen)).map A.strip

/-- What the stems of the keys in the range of a nested map are. -/
theorem Selects.stem_of_mem (hA : A.Selects) (hm : m.get.HasWidth A.layout.keyLen)
    (hstem : stem ∈ m.stemsWithin A.range (A.layout.stemLen + A.layout.suffixLen)) :
    A.stem ++ A.strip stem = stem ∧ (A.strip stem).length = A.layout.suffixLen := by
  obtain ⟨e, he, rfl⟩ := PlainMap.mem_stemsWithin.mp hstem
  obtain ⟨hbegins, hlength⟩ := hA.owns_of_mem hm he
  obtain ⟨tail, htail⟩ := hbegins
  rw [KeyLayout.keyLen, ← htail, List.length_append, hA.length_stem] at hlength
  have hcut : e.1.stem (A.layout.stemLen + A.layout.suffixLen)
      = A.stem ++ tail.take A.layout.suffixLen := by
    rw [Bytes.stem, ← htail, ← hA.length_stem, List.take_length_add_append]
  rw [hcut, hA.strip_append, List.length_take]
  exact ⟨rfl, by omega⟩

/-- The suffixes ascend. -/
theorem Selects.suffixes_ascend (hA : A.Selects) (hm : m.get.HasWidth A.layout.keyLen) :
    (A.suffixes m).Pairwise (· < ·) := by
  refine List.pairwise_map.mpr ((m.stemsWithin_ascend A.range _).imp_of_mem fun ht ht' hlt => ?_)
  rw [← (hA.stem_of_mem hm ht).1, ← (hA.stem_of_mem hm ht').1,
    KeyLayout.append_lt_append_iff rfl] at hlt
  exact (hlt.resolve_left (List.lt_irrefl _)).2

/-- A suffix is listed exactly if the child below it has a tail. -/
theorem IsChild.mem_suffixes_iff (h : C.IsChild A suffix) (hA : A.Selects)
    (hm : m.get.HasWidth A.layout.keyLen) : suffix ∈ A.suffixes m ↔ C.part m ≠ [] := by
  have hstems : suffix ∈ A.suffixes m ↔
      A.stem ++ suffix ∈ m.stemsWithin A.range (A.layout.stemLen + A.layout.suffixLen) := by
    rw [suffixes, List.mem_map]
    constructor
    · rintro ⟨stem, hstem, rfl⟩
      rwa [(hA.stem_of_mem hm hstem).1]
    · exact fun hstem => ⟨_, hstem, hA.strip_append suffix⟩
  have hpart : C.part m = [] ↔ m.within C.range = [] := List.map_eq_nil_iff
  rw [hstems, ne_eq, hpart, h.within_eq hA hm, PlainMap.mem_stemsWithin, Dictionary.withStem,
    List.filter_eq_nil_iff]
  simp

/-- The part of a nested map is composed of the parts of its children, in the order of the
suffixes. -/
theorem Selects.part_eq_flatMap (hA : A.Selects) (hm : m.get.HasWidth A.layout.keyLen)
    {child : Bytes → SubMap}
    (hchild : ∀ suffix : Bytes, suffix.length = A.layout.suffixLen →
      (child suffix).IsChild A suffix) :
    A.part m = (A.suffixes m).flatMap fun suffix =>
      ((child suffix).part m).map fun e => (suffix ++ e.1, e.2) := by
  rw [part, ← Dictionary.flatMap_withStem (m.sorted_within A.range)
    (A.layout.stemLen + A.layout.suffixLen), List.map_flatMap, suffixes, List.flatMap_map]
  refine List.flatMap_congr fun stem hstem => ?_
  obtain ⟨hsplit, hlength⟩ := hA.stem_of_mem hm hstem
  rw [← (hchild _ hlength).map_part hA hm, hsplit]

/-! ## What is seen -/

/-- What is seen of a nested map, now or at a snapshot, is composed of what is seen of its children
with suffixes of one width. -/
structure IsComposed (A : SubMap) (s : Store) (token : Option Token) (j : Nat)
    (suffixes : List Bytes) (child : Bytes → SubMap) (whole : PlainMap) (below : Bytes → PlainMap) :
    Prop where
  /-- All reads of the nested map answer from one map. -/
  shows : A.Shows s token whole
  /-- The suffixes are streamed. -/
  getChildKeys : ∀ limit, ((SubMapOp.getChildKeys token limit).run A s).1
    = .cut .keys limit (suffixes.map .ok)
  /-- The suffixes ascend strictly. -/
  ascend : suffixes.Pairwise (· < ·)
  /-- There is a child below every suffix of the right width. -/
  child_eq : ∀ suffix : Bytes, suffix.length = A.layout.suffixLen →
    A.child suffix j = .ok (child suffix)
  /-- All reads of a child answer from one map. -/
  child_shows : ∀ suffix : Bytes, suffix.length = A.layout.suffixLen →
    (child suffix).Shows s token (below suffix)
  /-- The suffixes that are streamed are those whose children are not empty. -/
  mem_iff : ∀ suffix : Bytes, suffix ∈ suffixes ↔
    suffix.length = A.layout.suffixLen ∧ (below suffix).entries ≠ []
  /-- The entries are those of the children, each tail behind the suffix of its child. -/
  entries_eq : whole.entries = suffixes.flatMap fun suffix =>
    (below suffix).entries.map fun e => (suffix ++ e.1, e.2)

end SubMap

/-- A store that matches plain maps shows nested maps composed of their children. -/
theorem Store.Matches.isComposed {s : Store} {p : PlainStore} (h : s.Matches p) {name : String}
    {A : SubMap} (hd : s.database.find? name = some A.dictionary) (hA : A.Selects)
    {token : Option Token} {maps : String → PlainMap} (hmaps : p.shown token = .ok maps)
    (hm : (maps name).get.HasWidth A.layout.keyLen) {j : Nat} {child : Bytes → SubMap}
    (hchild : ∀ suffix : Bytes, suffix.length = A.layout.suffixLen →
      A.child suffix j = .ok (child suffix) ∧ (child suffix).dictionary = A.dictionary ∧
        (child suffix).IsChild A suffix) :
    ∃ suffixes whole below, A.IsComposed s token j suffixes child whole below := by
  have hbelow : ∀ suffix : Bytes, suffix.length = A.layout.suffixLen → ∃ below : PlainMap,
      below.entries = (child suffix).part (maps name) ∧ (child suffix).Shows s token below := by
    intro suffix hsuffix
    obtain ⟨-, hdictionary, hplace⟩ := hchild suffix hsuffix
    exact ⟨_, rfl, h.shows_part (hdictionary ▸ hd) hplace.selects hmaps (hplace.keyLen_eq ▸ hm)⟩
  have : Nonempty PlainMap := ⟨.empty⟩
  choose! below hentries hshows using hbelow
  have hlength : ∀ suffix ∈ A.suffixes (maps name), suffix.length = A.layout.suffixLen := by
    intro suffix hsuffix
    obtain ⟨stem, hstem, rfl⟩ := List.mem_map.mp hsuffix
    exact (hA.stem_of_mem hm hstem).2
  refine ⟨A.suffixes (maps name), A.partMap (maps name) hA hm, below, ?_⟩
  exact
    { shows := h.shows_part hd hA hmaps hm
      getChildKeys := fun limit => by
        rw [(h.nested hd hA (.getChildKeys token limit)).1]
        simp only [SubMapOp.plain, PlainStore.stream, hmaps]
        rfl
      ascend := hA.suffixes_ascend hm
      child_eq := fun suffix hsuffix => (hchild suffix hsuffix).1
      child_shows := hshows
      mem_iff := fun suffix => by
        constructor
        · intro hmem
          have hsuffix := hlength suffix hmem
          rw [hentries suffix hsuffix]
          exact ⟨hsuffix, ((hchild suffix hsuffix).2.2.mem_suffixes_iff hA hm).mp hmem⟩
        · rintro ⟨hsuffix, hsome⟩
          rw [hentries suffix hsuffix] at hsome
          exact ((hchild suffix hsuffix).2.2.mem_suffixes_iff hA hm).mpr hsome
      entries_eq := by
        refine (hA.part_eq_flatMap hm fun suffix hsuffix => (hchild suffix hsuffix).2.2).trans ?_
        exact List.flatMap_congr fun suffix hmem => by rw [hentries suffix (hlength suffix hmem)] }

/-- **Children compose their nested map.**  In a dictionary that is written only through nested maps
with keys of one width, and as soon as the engine works, every nested map of that width falls, now
and at every live snapshot, into its children with suffixes of any width that its extension can
give.  The child keys ascend strictly and are the suffixes of the children that are not empty, and
the entries are those of the children in the order of the child keys, each tail behind the suffix of
its child.  The children are nested maps of the same width, so they fall into children as well. -/
theorem Database.children_compose {name engineName : String} {config : Config}
    {pool : Option Pool} {db : Database} (hcreate : create name engineName config pool = .ok db)
    (hpool : ∀ p ∈ pool, p.IsReady) (options : Engine.Options) (faults : List Fault)
    {script : List Request} {dictionary : String} {width : Nat}
    (hscript : ∀ r ∈ script, r.IsNested dictionary width) {stem : Bytes} {layout : KeyLayout}
    (hlayout : layout.keyLen = width) {A : SubMap}
    (hA : (Store.after ⟨⟨.new options, faults⟩, db⟩ script).database.nested? dictionary stem layout
      = some (.ok A)) {token : Option Token} {view : ReadView}
    (hview : (Store.after ⟨⟨.new options, faults⟩, db⟩ script).database.snapshots.resolve token
      = .ok view) {j : Nat} (hj : j ≤ layout.extLen) :
    let s := (Store.after ⟨⟨.new options, faults⟩, db⟩ script).mend
    ∃ suffixes child whole below,
      A.IsComposed s token j suffixes child whole below ∧
      ∀ suffix : Bytes, suffix.length = layout.suffixLen →
        (child suffix).layout.keyLen = width ∧
          s.database.nested? dictionary (stem ++ suffix) (child suffix).layout
            = some (.ok (child suffix)) := by
  intro s
  obtain ⟨w, hw⟩ : ∃ w, Store.IsPartitioned _ dictionary width w :=
    (isPartitioned_create hcreate hpool options faults dictionary width).after hscript
  obtain ⟨hd, rfl, rfl, hsel⟩ := Store.nested?_eq_some hA
  obtain rfl := hlayout
  obtain ⟨p, hnumbered, hp⟩ := hw.recovers.exists_refines
  have hmatches : s.Matches p := ⟨hnumbered, w, hp⟩
  obtain ⟨maps, hmaps, -⟩ := hmatches.shown_of_resolve hd hview
  have hm := hw.width_of_shown hp hd hmaps
  have : Nonempty SubMap := ⟨A⟩
  choose! child hchild hnew using
    fun (suffix : Bytes) (hsuffix : suffix.length = A.layout.suffixLen) =>
      hsel.exists_child hj hsuffix
  have hplace : ∀ suffix : Bytes, suffix.length = A.layout.suffixLen →
      (child suffix).dictionary = A.dictionary ∧ (child suffix).IsChild A suffix := by
    intro suffix hsuffix
    obtain ⟨hdictionary, hstem, hlayout, hselects⟩ := SubMap.new_eq_ok (hnew suffix hsuffix)
    exact ⟨hdictionary, hselects, hsuffix, hstem, by rw [hlayout, KeyLayout.keyLen_child hj]⟩
  obtain ⟨suffixes, whole, below, hcomposed⟩ := hmatches.isComposed hd hsel hmaps hm
    fun suffix hsuffix => ⟨hchild suffix hsuffix, hplace suffix hsuffix⟩
  refine ⟨suffixes, child, whole, below, hcomposed, fun suffix hsuffix => ?_⟩
  obtain ⟨-, -, hlayout, -⟩ := SubMap.new_eq_ok (hnew suffix hsuffix)
  refine ⟨(hplace suffix hsuffix).2.keyLen_eq, ?_⟩
  rw [nested?, show s.database.find? dictionary = some A.dictionary from hd, Option.map_some,
    hlayout, hnew suffix hsuffix]

/-- Three tails are put into the nested map that is a whole dictionary, a snapshot is taken, and the
nested map is cleared. -/
def Database.familyScript : List Request :=
  [.act (.opening "d" .allow), .nested "d" [] ⟨0, 1, 1⟩ (.put [2, 0] [12] .void),
    .nested "d" [] ⟨0, 1, 1⟩ (.put [1, 1] [11] .void),
    .nested "d" [] ⟨0, 1, 1⟩ (.put [1, 0] [10] .void), .act .takeSnapshot,
    .nested "d" [] ⟨0, 1, 1⟩ .clear]

/-- At the snapshot the whole dictionary falls into two children. -/
theorem Database.children_compose_of_root :
    let s := (Store.after ⟨⟨.new (engineOptions hasty.config), []⟩, hasty⟩ familyScript).mend
    ∃ A child whole below, s.database.nested? "d" [] ⟨0, 1, 1⟩ = some (.ok A) ∧
      A.IsComposed s (some 1) 1 [[1], [2]] child whole below ∧
      whole.entries = [([1, 0], [10]), ([1, 1], [11]), ([2, 0], [12])] := by
  intro s
  obtain ⟨A, hA⟩ : ∃ A, (Store.after ⟨⟨.new (engineOptions hasty.config), []⟩, hasty⟩
      familyScript).database.nested? "d" [] ⟨0, 1, 1⟩ = some (.ok A) := by
    obtain ⟨d, hd⟩ : ∃ d, (Store.after ⟨⟨.new (engineOptions hasty.config), []⟩, hasty⟩
        familyScript).database.find? "d" = some d :=
      Option.isSome_iff_exists.mp (by decide +kernel)
    rw [nested?, hd]
    exact ⟨_, rfl⟩
  have hA' : s.database.nested? "d" [] ⟨0, 1, 1⟩ = some (.ok A) := by
    rwa [Store.database_mend]
  have hsequence : (Store.after ⟨⟨.new (engineOptions hasty.config), []⟩, hasty⟩
      familyScript).database.snapshots.sequence? 1 = some 3 := by decide +kernel
  have hscript : ∀ r ∈ familyScript, r.IsNested "d" 2 := by
    simp [familyScript, Request.IsNested, KeyLayout.keyLen]
  have hcreate : create "db" "memory" hasty.config none = .ok hasty := rfl
  obtain ⟨suffixes, child, whole, below, hcomposed, -⟩ : ∃ suffixes child whole below,
      A.IsComposed s (some 1) 1 suffixes child whole below ∧ _ :=
    children_compose hcreate (by simp) (engineOptions hasty.config) [] hscript
      (show (⟨0, 1, 1⟩ : KeyLayout).keyLen = 2 from rfl) hA
      (show Snapshots.resolve _ (some 1) = .ok (.at 3) by simp [Snapshots.resolve, hsequence])
      (Nat.le_refl 1)
  -- What the streams are is computed on plain maps.
  have hmatches : s.Matches ((PlainStore.empty hasty.config).after familyScript) :=
    ((matches_create hcreate (by simp) (engineOptions hasty.config)).after
      fun r hr => (hscript r hr).ne_close).mend
  have hplain : ∀ op, (op.run A s).1 = ((Request.nested "d" [] ⟨0, 1, 1⟩ op).plain
      ((PlainStore.empty hasty.config).after familyScript)).1 := by
    intro op
    rw [← (hmatches.request (by simp)).1]
    simp only [Request.run, hA']
  have hkeys : ((SubMapOp.getChildKeys (some 1) 9).run A s).1 = .keys [.ok [1], .ok [2]] true :=
    (hplain _).trans (by rfl)
  have hitems : ((SubMapOp.getEntries (some 1) 9).run A s).1 = .entries
      [.ok ([1, 0], [10]), .ok ([1, 1], [11]), .ok ([2, 0], [12])] true :=
    (hplain _).trans (by rfl)
  have hsuffixes := Reply.eq_of_cut_eq Reply.keys.inj ((hcomposed.getChildKeys 9).symm.trans hkeys)
  have hentries := Reply.eq_of_cut_eq Reply.entries.inj
    ((hcomposed.shows.getEntries 9).symm.trans hitems)
  obtain rfl : suffixes = [[1], [2]] :=
    List.map_injective_iff.mpr (fun _ _ => Except.ok.inj) hsuffixes
  exact ⟨A, child, whole, below, hA', hcomposed,
    List.map_injective_iff.mpr (fun _ _ => Except.ok.inj) hentries⟩

end SnapshotStore
