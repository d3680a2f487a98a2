import SnapshotStore.Proofs.SubMap.Refinement

/-!
# A map falls into parts

When all keys of a map have one width, a nested map of that width shows exactly the keys that start
with its stem, as an ordered map of its own (`SubMap.partMap`).  What the nested map writes are keys
of that width under its stem, and all keys with other beginnings stay as they are (`SubMap.Edits`).
On plain maps its answers depend on what its range has, and on nothing else
(`SubMapOp.plain_reply_eq`).
-/

namespace SnapshotStore

/-- All keys with a value have one width. -/
def Contents.HasWidth (c : Contents) (width : Nat) : Prop :=
  ∀ key value, c key = some value → key.length = width

/-- Empty contents have every width. -/
theorem Contents.hasWidth_empty (width : Nat) : Contents.empty.HasWidth width := by
  simp [HasWidth, empty]

/-- Keys of another width have no value. -/
theorem Contents.HasWidth.eq_none {c : Contents} {width : Nat} (h : c.HasWidth width) {key : Bytes}
    (hkey : key.length ≠ width) : c key = none :=
  Option.eq_none_iff_forall_ne_some.mpr fun value hvalue => hkey (h key value hvalue)

/-- Maps with the same values have the same entries in a range. -/
theorem PlainMap.within_eq {m m' : PlainMap} {range : KeyRange}
    (h : ∀ key, range.contains key = true → m.get key = m'.get key) :
    m.within range = m'.within range := by
  refine KeyMap.Sorted.eq_of_mem_iff (m.lists_within range).sorted (m'.lists_within range).sorted
    fun e => ?_
  rw [(m.lists_within range).mem_iff e.1 e.2, (m'.lists_within range).mem_iff e.1 e.2]
  exact and_congr_right fun hcontains => by rw [h e.1 hcontains]

/-- Maps with the same entries in a range have the same values there. -/
theorem PlainMap.get_eq_of_within {m m' : PlainMap} {range : KeyRange} {key : Bytes}
    (h : m.within range = m'.within range) (hkey : range.contains key = true) :
    m.get key = m'.get key := by
  ext value
  have hmem := (m.lists_within range).mem_iff key value
  have hmem' := (m'.lists_within range).mem_iff key value
  rw [h] at hmem
  simpa [hkey] using hmem.symm.trans hmem'

namespace SubMap

variable {A : SubMap} {m : PlainMap} {tail key value : Bytes} {e : Entry}

/-! ## What a nested map shows -/

/-- In a map of the width of its layout, the range of a nested map has the keys of that map. -/
theorem Selects.owns_of_mem (hA : A.Selects) (hm : m.get.HasWidth A.layout.keyLen)
    (he : e ∈ m.within A.range) : A.Owns e.1 := by
  obtain ⟨hcontains, hget⟩ := ((m.lists_within A.range).mem_iff e.1 e.2).mp he
  have hlength := hm e.1 e.2 hget
  exact ⟨(hA.contains_iff e.1 hlength).mp hcontains, hlength⟩

/-- The part of a nested map lists its tails with their values. -/
theorem Selects.mem_part_iff (hA : A.Selects) (hm : m.get.HasWidth A.layout.keyLen) :
    (tail, value) ∈ A.part m ↔ m.get (A.stem ++ tail) = some value := by
  rw [part, List.mem_map]
  constructor
  · rintro ⟨e, he, heq⟩
    obtain ⟨rfl, rfl⟩ := Prod.mk.inj heq
    rw [hA.append_strip (hA.owns_of_mem hm he)]
    exact (((m.lists_within A.range).mem_iff e.1 e.2).mp he).2
  · intro hget
    have howns : A.Owns (A.stem ++ tail) := ⟨List.prefix_append _ _, hm _ _ hget⟩
    refine ⟨(A.stem ++ tail, value), ?_, by rw [hA.strip_append]⟩
    exact ((m.lists_within A.range).mem_iff _ _).mpr ⟨hA.contains howns, hget⟩

/-- Behind one stem, tails come in the order of their keys. -/
theorem Selects.sorted_part (hA : A.Selects) (hm : m.get.HasWidth A.layout.keyLen) :
    KeyMap.Sorted (A.part m) := by
  refine List.pairwise_map.mpr ((m.lists_within A.range).sorted.imp_of_mem fun he he' hlt => ?_)
  rw [← hA.append_strip (hA.owns_of_mem hm he), ← hA.append_strip (hA.owns_of_mem hm he'),
    KeyLayout.append_lt_append_iff rfl] at hlt
  exact (hlt.resolve_left (List.lt_irrefl _)).2

/-- What a nested map shows of a map, as a map. -/
def partMap (A : SubMap) (m : PlainMap) (hA : A.Selects) (hm : m.get.HasWidth A.layout.keyLen) :
    PlainMap := ⟨A.part m, hA.sorted_part hm⟩

/-- As a map, the part shows each tail what its full key shows. -/
theorem get_partMap (hA : A.Selects) (hm : m.get.HasWidth A.layout.keyLen) (tail : Bytes) :
    (A.partMap m hA hm).get tail = m.get (A.stem ++ tail) := by
  ext value
  rw [PlainMap.get, KeyMap.get?_eq_some_iff (A.partMap m hA hm).sorted]
  exact hA.mem_part_iff hm

/-! ## What a nested map writes -/

/-- What a nested map writes gives values to its own keys and deletes keys of its range. -/
theorem Touches.apply_cases {op : WriteOp} (h : A.Touches op) (c : Contents) (key : Bytes) :
    c.apply op key = c key ∨ A.Owns key ∨
      (A.range.contains key = true ∧ c.apply op key = none) := by
  cases h with
  | @put key' value howns =>
    by_cases heq : key = key'
    · exact .inr (.inl (heq ▸ howns))
    · exact .inl (if_neg heq)
  | @delete key' hin =>
    by_cases heq : key = key'
    · exact .inr (.inr ⟨heq ▸ hin, if_pos heq⟩)
    · exact .inl (if_neg heq)
  | deleteRange =>
    by_cases hin : A.range.contains key = true
    · exact .inr (.inr ⟨hin, if_pos hin⟩)
    · exact .inl (if_neg hin)

/-- Contents differ from others only by keys of a nested map. -/
structure Edits (A : SubMap) (c c' : Contents) : Prop where
  /-- Their keys have the width of the layout. -/
  width : c'.HasWidth A.layout.keyLen
  /-- Keys that do not start with the stem are as they were. -/
  get_eq : ∀ key, ¬ A.stem <+: key → c' key = c key

namespace Edits

variable {c c₁ : Contents}

theorem refl (hc : c.HasWidth A.layout.keyLen) : A.Edits c c := ⟨hc, fun _ _ => rfl⟩

/-- What a nested map writes edits its keys alone: a key in its range with another beginning has
another width, so it has no value that could be deleted. -/
theorem apply (h : A.Edits c c₁) (hA : A.Selects) {op : WriteOp} (hop : A.Touches op) :
    A.Edits c (c₁.apply op) := by
  refine ⟨fun key v hkey => ?_, fun key hkey => ?_⟩
  · rcases hop.apply_cases c₁ key with hsame | howns | ⟨-, hnone⟩
    · exact h.width key v (hsame ▸ hkey)
    · exact howns.length_eq
    · rw [hnone] at hkey
      cases hkey
  · rw [← h.get_eq key hkey]
    rcases hop.apply_cases c₁ key with hsame | howns | ⟨hin, hnone⟩
    · exact hsame
    · exact absurd howns.stem_prefix hkey
    · rw [hnone, h.width.eq_none fun hlength => hkey ((hA.contains_iff key hlength).mp hin)]

end Edits

end SubMap

/-! ## Operations -/

section

variable {A : SubMap} {p p' : PlainStore} {name : String} {mode : UpdateMode}

/-- An operation of a nested map changes the map of its dictionary alone. -/
theorem SubMapOp.exists_plain_eq_set (op : SubMapOp) :
    ∃ m, (op.plain A name mode p).2 = p.set name m := by
  have htail : ∀ (tail : Bytes) (refusal : StoreError → Reply) (op : Bytes → DictionaryOp),
      ∃ m, (A.onTail p tail refusal fun key => (op key).plain name mode p).2 = p.set name m := by
    intro tail refusal op
    unfold SubMap.onTail
    split
    · exact DictionaryOp.exists_plain_eq_set _
    · exact ⟨_, (p.set_now name).symm⟩
  cases op with
  | get token tail => exact htail tail _ _
  | put tail value result => exact htail tail _ _
  | remove tail result => exact htail tail _ _
  | update tail f => exact htail tail _ _
  | clear => exact ⟨_, rfl⟩
  | setAll entries => exact ⟨_, rfl⟩
  | _ => exact ⟨_, (p.set_now name).symm⟩

/-- A nested map answers from what its range has, now and at the snapshots. -/
theorem SubMapOp.plain_reply_eq (hA : A.Selects) (hconfig : p.config = p'.config)
    (hshown : ∀ token, (∃ maps maps', p.shown token = .ok maps ∧ p'.shown token = .ok maps' ∧
        (maps name).within A.range = (maps' name).within A.range) ∨
      ∃ e, p.shown token = .error e ∧ p'.shown token = .error e) (op : SubMapOp) :
    (op.plain A name mode p).1 = (op.plain A name mode p').1 := by
  have hnow : (p.now name).within A.range = (p'.now name).within A.range := by
    rcases hshown none with ⟨maps, maps', hp, hp', hwithin⟩ | ⟨e, hp, -⟩
    · obtain rfl := Except.ok.inj hp
      obtain rfl := Except.ok.inj hp'
      exact hwithin
    · cases hp
  have htail : ∀ (tail : Bytes) (refusal : StoreError → Reply) (f f' : Bytes → Reply × PlainStore),
      (∀ key, A.Owns key → (f key).1 = (f' key).1) →
      (A.onTail p tail refusal f).1 = (A.onTail p' tail refusal f').1 := by
    intro tail refusal f f' hf
    unfold SubMap.onTail
    by_cases hlength : tail.length = A.layout.tailLen
    · rw [SubMap.fullKey_of_length hlength]
      exact hf _ (hA.owns_append hlength)
    · rw [SubMap.fullKey_of_length_ne hlength]
  have hget : ∀ key, A.Owns key → (p.now name).get key = (p'.now name).get key :=
    fun key howns => PlainMap.get_eq_of_within hnow (hA.contains howns)
  cases op with
  | get token tail =>
    refine htail tail _ _ _ fun key howns => ?_
    rcases hshown token with ⟨maps, maps', hp, hp', hwithin⟩ | ⟨e, hp, hp'⟩
    · have hkey := PlainMap.get_eq_of_within hwithin (hA.contains howns)
      simp only [DictionaryOp.plain, Reply.of, hp, hp', hkey]
    · simp only [DictionaryOp.plain, Reply.of, hp, hp']
  | put tail value result =>
    exact htail tail _ _ _ fun key howns =>
      congrArg (Reply.value ∘ result.project) (hget key howns)
  | remove tail result =>
    exact htail tail _ _ _ fun key howns =>
      congrArg (Reply.value ∘ result.project) (hget key howns)
  | update tail f =>
    refine htail tail _ _ _ fun key howns => ?_
    cases mode with
    | disallow => rfl
    | allow =>
      simp only [DictionaryOp.plain, PlainStore.update, hget key howns]
      cases f ((p'.now name).get key) <;> rfl
  | size token fast =>
    rcases hshown token with ⟨maps, maps', hp, hp', hwithin⟩ | ⟨e, hp, hp'⟩
    · simp only [SubMapOp.plain, DictionaryOp.plain, PlainMap.size, Reply.of, hp, hp', hwithin,
        hconfig]
    · simp only [SubMapOp.plain, DictionaryOp.plain, Reply.of, hp, hp']
  | isEmpty token =>
    rcases hshown token with ⟨maps, maps', hp, hp', hwithin⟩ | ⟨e, hp, hp'⟩
    · simp only [SubMapOp.plain, DictionaryOp.plain, Reply.of, hp, hp', hwithin]
    · simp only [SubMapOp.plain, DictionaryOp.plain, Reply.of, hp, hp']
  | clear => rfl
  | setAll entries => rfl
  | getEntries token limit =>
    rcases hshown token with ⟨maps, maps', hp, hp', hwithin⟩ | ⟨e, hp, hp'⟩
    · simp only [SubMapOp.plain, PlainStore.stream, SubMap.part, hp, hp', hwithin]
    · simp only [SubMapOp.plain, PlainStore.stream, hp, hp']
  | getKeys token limit =>
    rcases hshown token with ⟨maps, maps', hp, hp', hwithin⟩ | ⟨e, hp, hp'⟩
    · simp only [SubMapOp.plain, PlainStore.stream, SubMap.part, hp, hp', hwithin]
    · simp only [SubMapOp.plain, PlainStore.stream, hp, hp']
  | getChildKeys token limit =>
    rcases hshown token with ⟨maps, maps', hp, hp', hwithin⟩ | ⟨e, hp, hp'⟩
    · simp only [SubMapOp.plain, PlainStore.stream, PlainMap.stemsWithin, hp, hp', hwithin]
    · simp only [SubMapOp.plain, PlainStore.stream, hp, hp']

/-- A key does not start with two stems neither of which is a prefix of the other. -/
theorem SubMap.not_prefix_other {stem other key : Bytes} (h : ¬ stem <+: other)
    (h' : ¬ other <+: stem) (hkey : stem <+: key) : ¬ other <+: key := fun hother => by
  rcases List.prefix_or_prefix_of_prefix hkey hother with hp | hp
  · exact h hp
  · exact h' hp

end

end SnapshotStore
