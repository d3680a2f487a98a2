import SnapshotStore.Proofs.Engine.Evolution

/-!
# Compaction drops all that it may

The versions of a key descend: a batch writes them under a sequence that no version had before, and
what it writes to one key twice has the same sequence (`Column.IsLayered`, kept by every change of
an engine).  So what pruning leaves of a chain is told by the sequences alone: the versions after
the threshold, and the newest one of the others (`Chain.Descends.prune_eq`).

Nothing is left to be dropped after that (`Column.compact_compact`), and when no sequence is pinned
every key that is left has exactly its newest value (`Column.IsLayered.countP_compact`).
-/

namespace SnapshotStore

namespace Chain

variable {chain : Chain} {threshold : Nat}

/-- No version is newer than one before it. -/
def Descends (chain : Chain) : Prop := chain.Pairwise fun v w => w.sequence ≤ v.sequence

/-- A version may go in front of a chain of older ones. -/
theorem Descends.cons (h : chain.Descends) {v : Version}
    (hv : ∀ w ∈ chain, w.sequence ≤ v.sequence) : Descends (v :: chain) :=
  List.pairwise_cons.mpr ⟨hv, h⟩

/-! ## Pruning -/

/-- Pruning leaves versions out and keeps the order of the others. -/
theorem prune_sublist (threshold : Nat) (chain : Chain) :
    (chain.prune threshold).Sublist chain := by
  induction chain with
  | nil => exact .slnil
  | cons v rest ih =>
    unfold prune
    split
    · exact List.singleton_sublist.mpr (by simp)
    · exact ih.cons_cons v

/-- Pruning keeps at least the newest version. -/
theorem prune_ne_nil (h : chain ≠ []) : chain.prune threshold ≠ [] := by
  cases chain with
  | nil => exact absurd rfl h
  | cons v rest =>
    unfold prune
    split <;> simp

/-- What was pruned is not pruned any further at the same threshold. -/
theorem prune_prune (threshold : Nat) (chain : Chain) :
    (chain.prune threshold).prune threshold = chain.prune threshold := by
  induction chain with
  | nil => rfl
  | cons v rest ih =>
    by_cases hv : v.sequence ≤ threshold
    · simp [prune, hv]
    · simp [prune, hv, ih]

/-- **Pruning leaves the versions after the threshold, and the newest one of the others.** -/
theorem Descends.prune_eq (h : chain.Descends) (threshold : Nat) :
    chain.prune threshold = chain.filter (threshold < ·.sequence)
      ++ (chain.find? (·.sequence ≤ threshold)).toList := by
  induction chain with
  | nil => rfl
  | cons v rest ih =>
    obtain ⟨hle, hrest⟩ := List.pairwise_cons.mp h
    by_cases hv : v.sequence ≤ threshold
    · -- Nothing behind the first version is newer than it.
      have hnone : rest.filter (threshold < ·.sequence) = [] := by
        refine List.filter_eq_nil_iff.mpr fun w hw => ?_
        have := hle w hw
        simp only [decide_eq_true_eq]
        omega
      have hlt : ¬ threshold < v.sequence := by omega
      simp [prune, hv, hlt, hnone]
    · have hlt : threshold < v.sequence := by omega
      simp [prune, hv, hlt, ih hrest]

/-! ## Collecting -/

/-- A chain is kept as its pruned versions, unless they are one tombstone that no view needs. -/
theorem collect_eq_some_iff {chain' : Chain} :
    chain.collect threshold = some chain'
      ↔ chain' = chain.prune threshold ∧ chain'.isRemovable threshold = false := by
  unfold collect
  -- Removing the chain is the only other thing that can happen, and it is so for one lone
  -- tombstone.
  by_cases hr : (chain.prune threshold).isRemovable threshold = true
  · rw [if_pos hr]
    constructor
    · intro h
      cases h
    · rintro ⟨rfl, hr'⟩
      exact absurd (hr.symm.trans hr') (by decide)
  · rw [if_neg hr, Option.some.injEq]
    constructor
    · rintro rfl
      exact ⟨rfl, Bool.eq_false_iff.mpr hr⟩
    · rintro ⟨rfl, -⟩
      rfl

/-- What was collected once is as short as it gets. -/
theorem collect_collect {chain' : Chain} (h : chain.collect threshold = some chain') :
    chain'.collect threshold = some chain' := by
  obtain ⟨rfl, hr⟩ := collect_eq_some_iff.mp h
  exact collect_eq_some_iff.mpr ⟨(prune_prune threshold chain).symm, hr⟩

/-- A chain may be removed exactly if it is one tombstone at or before the threshold. -/
theorem isRemovable_iff : chain.isRemovable threshold ↔ ∃ s ≤ threshold, chain = [⟨s, none⟩] := by
  unfold isRemovable
  split
  · rename_i v
    obtain ⟨s, value⟩ := v
    simp only [Bool.and_eq_true, Option.isNone_iff_eq_none, decide_eq_true_eq, List.cons.injEq,
      Version.mk.injEq, and_true]
    constructor
    · rintro ⟨rfl, hs⟩
      exact ⟨s, hs, rfl, rfl⟩
    · rintro ⟨s, hs, rfl, rfl⟩
      exact ⟨rfl, hs⟩
  · rename_i hne
    simp only [Bool.false_eq_true, false_iff]
    rintro ⟨s, -, rfl⟩
    exact hne _ rfl

/-- Of a chain without a version after the threshold one value is left, or nothing. -/
theorem length_and_isLive_of_collect (hne : chain ≠ []) (h : ∀ v ∈ chain, v.sequence ≤ threshold)
    {chain' : Chain} (hcollect : chain.collect threshold = some chain') :
    chain'.length = 1 ∧ chain'.isLive = true := by
  obtain ⟨hprune, hr⟩ := collect_eq_some_iff.mp hcollect
  cases chain with
  | nil => exact absurd rfl hne
  | cons v rest =>
    have hv : v.sequence ≤ threshold := h v (by simp)
    have hsingle : chain' = [v] := by rw [hprune, prune, if_pos hv]
    subst hsingle
    refine ⟨rfl, ?_⟩
    cases hvalue : v.value with
    | none => simp [isRemovable, hv, hvalue] at hr
    | some value => simp [isLive, hvalue]

end Chain

/-! ## Columns -/

namespace Column

variable {c : Column} {scheme : Filter.Scheme} {threshold newest : Nat} {key : Bytes}

/-- A column whose chains have versions, each no newer than the one before it. -/
structure IsLayered (c : Column) (newest : Nat) : Prop extends c.WellFormed newest where
  /-- No key is kept without a version. -/
  nonempty : ∀ e ∈ c.chains, e.2 ≠ []
  /-- The versions of every key descend. -/
  descends : ∀ e ∈ c.chains, e.2.Descends

namespace IsLayered

/-- A new column is layered, since it has no chains. -/
theorem empty (name : String) (capacity newest : Nat) :
    (Column.empty scheme name capacity).IsLayered newest where
  toWellFormed := wellFormed_empty name capacity newest
  nonempty := by simp [Column.empty]
  descends := by simp [Column.empty]

/-- The bound on the sequences of a layered column may grow. -/
theorem mono (h : c.IsLayered newest) {newest' : Nat} (hle : newest ≤ newest') :
    c.IsLayered newest' :=
  { h with toWellFormed := h.toWellFormed.mono hle }

/-- The versions of a key come newest first, also if there are none. -/
theorem chain_descends (h : c.IsLayered newest) (key : Bytes) : (c.chain key).Descends := by
  unfold Column.chain
  cases hget : c.chains.get? key with
  | none => exact List.Pairwise.nil
  | some chain => exact h.descends _ (KeyMap.mem_of_get? hget)

/-- A version of the newest sequence goes in front of all others. -/
theorem push (h : c.IsLayered newest) (scheme : Filter.Scheme) (threshold : Nat) (key : Bytes)
    (value : Option Bytes) : (c.push scheme threshold key ⟨newest, value⟩).IsLayered newest where
  toWellFormed := h.toWellFormed.push (Nat.le_refl _)
  nonempty e he := by
    rcases mem_chains_push h.sorted he with hmem | ⟨-, hcollect⟩
    · exact h.nonempty e hmem
    · rw [(Chain.collect_eq_some_iff.mp hcollect).1]
      exact Chain.prune_ne_nil (by simp)
  descends e he := by
    rcases mem_chains_push h.sorted he with hmem | ⟨-, hcollect⟩
    · exact h.descends e hmem
    · rw [(Chain.collect_eq_some_iff.mp hcollect).1]
      have hcons := (h.chain_descends key).cons (v := ⟨newest, value⟩) (h.chain_bounded key)
      exact hcons.sublist (Chain.prune_sublist _ _)

/-- A new filter leaves the chains as they are. -/
theorem rebuildFilter (h : c.IsLayered newest) (capacity : Nat) :
    (c.rebuildFilter scheme capacity).IsLayered newest where
  toWellFormed := h.toWellFormed.rebuildFilter capacity
  nonempty := h.nonempty
  descends := h.descends

/-- A batch leaves a column layered: its operations do, and a new filter does. -/
theorem applyBatch (h : c.IsLayered newest) (options : Engine.Options) (threshold : Nat)
    (batch : WriteBatch) : (Engine.applyBatch options threshold newest c batch).IsLayered newest :=
  Engine.applyBatch_induction (P := fun c => c.IsLayered newest)
    (fun _ key value hc => hc.push _ _ key value) (fun _ hc => hc.rebuildFilter _) h batch

end IsLayered

/-- The chains after compaction are what is left of the former ones. -/
theorem mem_chains_compact {capacity : Nat} {chain : Chain} :
    (key, chain) ∈ (c.compact scheme threshold capacity).chains
      ↔ ∃ former, (key, former) ∈ c.chains ∧ former.collect threshold = some chain :=
  KeyMap.mem_filterMap

/-- Compaction leaves a column layered: what it keeps of a chain is not empty and in the same
order. -/
theorem IsLayered.compact (h : c.IsLayered newest) (capacity : Nat) :
    (c.compact scheme threshold capacity).IsLayered newest where
  toWellFormed := h.toWellFormed.compact capacity
  nonempty e he := by
    obtain ⟨former, hmem, hcollect⟩ := mem_chains_compact.mp he
    rw [(Chain.collect_eq_some_iff.mp hcollect).1]
    exact Chain.prune_ne_nil (h.nonempty _ hmem)
  descends e he := by
    obtain ⟨former, hmem, hcollect⟩ := mem_chains_compact.mp he
    rw [(Chain.collect_eq_some_iff.mp hcollect).1]
    exact List.Pairwise.sublist (Chain.prune_sublist _ _) (h.descends _ hmem)

/-- **Compaction at the same threshold finds nothing to do a second time.** -/
theorem compact_compact (scheme : Filter.Scheme) (threshold capacity : Nat) (c : Column) :
    (c.compact scheme threshold capacity).compact scheme threshold capacity
      = c.compact scheme threshold capacity := by
  have hchains : (c.compact scheme threshold capacity).chains.filterMap
      (fun e => (e.2.collect threshold).map (e.1, ·))
        = (c.compact scheme threshold capacity).chains := by
    conv_rhs => rw [← List.filterMap_some (l := (c.compact scheme threshold capacity).chains)]
    refine List.filterMap_congr fun e he => ?_
    obtain ⟨former, -, hcollect⟩ := mem_chains_compact.mp he
    rw [Chain.collect_collect hcollect]
    rfl
  rw [compact, hchains]
  rfl

/-- Without a version after the threshold, compaction leaves one version for every live key and no
other chain. -/
theorem IsLayered.versionCount_compact (h : c.IsLayered newest) (hcounts : c.Counts)
    (hnewest : newest ≤ threshold) (capacity : Nat) :
    (c.compact scheme threshold capacity).chains.length = c.liveKeys
      ∧ (c.compact scheme threshold capacity).versionCount = c.liveKeys := by
  -- All versions are at or below the threshold, so of each chain one version is left, and it is no
  -- tombstone.
  have hall : ∀ e ∈ (c.compact scheme threshold capacity).chains,
      e.2.length = 1 ∧ e.2.isLive = true := by
    intro e he
    obtain ⟨former, hmem, hcollect⟩ := mem_chains_compact.mp he
    refine Chain.length_and_isLive_of_collect (h.nonempty _ hmem) (fun v hv => ?_) hcollect
    exact Nat.le_trans (h.bounded _ hmem v hv) hnewest
  have hlength : (c.compact scheme threshold capacity).chains.length = c.liveKeys := by
    rw [← List.countP_eq_length.mpr fun e he => (hall e he).2]
    exact (hcounts.compact capacity).liveKeys_eq.symm
  refine ⟨hlength, ?_⟩
  have hones : (c.compact scheme threshold capacity).chains.map (·.2.length)
      = (c.compact scheme threshold capacity).chains.map fun _ => 1 :=
    List.map_congr_left fun e he => (hall e he).1
  rw [versionCount, List.length_flatMap, hones, List.map_const', List.sum_replicate_nat, hlength,
    Nat.mul_one]

/-- The chains that are left without a version after the threshold are those of the live keys. -/
theorem IsLayered.mem_keys_compact (h : c.IsLayered newest) (hnewest : newest ≤ threshold)
    (capacity : Nat) :
    key ∈ (c.compact scheme threshold capacity).chains.map (·.1)
      ↔ (c.valueAt .latest key).isSome := by
  have hsorted : (c.compact scheme threshold capacity).chains.Sorted :=
    (h.toWellFormed.compact capacity).sorted
  have hvalue : (c.compact scheme threshold capacity).valueAt .latest key = c.valueAt .latest key :=
    valueAt_compact h.sorted capacity (show ReadView.IsSpared threshold .latest from trivial) key
  rw [← hvalue, valueAt, chain]
  constructor
  · -- A chain that is kept has a value, since a lone tombstone would not have been kept.
    intro hkey
    obtain ⟨⟨k, chain⟩, hmem, hk⟩ := List.mem_map.mp hkey
    obtain ⟨former, hformer, hcollect⟩ := mem_chains_compact.mp hmem
    rw [← hk, (KeyMap.get?_eq_some_iff hsorted).mpr hmem]
    refine (Chain.length_and_isLive_of_collect (h.nonempty _ hformer) (fun v hv => ?_) hcollect).2
    exact Nat.le_trans (h.bounded _ hformer v hv) hnewest
  · intro hsome
    cases hget : (c.compact scheme threshold capacity).chains.get? key with
    | none =>
      rw [hget] at hsome
      simp at hsome
    | some chain => exact List.mem_map.mpr ⟨(key, chain), KeyMap.mem_of_get? hget, rfl⟩

end Column

/-! ## Engines -/

namespace Engine

variable {e e' : Engine}

/-- Every chain of an engine descends from its newest sequence at most. -/
def IsLayered (e : Engine) : Prop := ∀ c ∈ e.columns, c.IsLayered e.sequence

/-- A new engine has no columns. -/
theorem isLayered_new (options : Options) : (new options).IsLayered := by simp [IsLayered, new]

/-- A change of an engine keeps its chains in layers; a batch adds the layer of its sequence. -/
theorem Changes.isLayered {pinned : List Nat} (hchange : e.Changes pinned e') (h : e.IsLayered) :
    e'.IsLayered := by
  cases hchange with
  | nothing => exact h
  | pin s => exact h
  | addColumn name =>
    intro c hc
    rcases List.mem_append.mp hc with hc | hc
    · exact h c hc
    · rw [List.mem_singleton.mp hc]
      exact .empty name _ _
  | write hcol batch =>
    intro c hc
    rcases List.mem_or_eq_of_mem_set hc with hc | rfl
    · exact (h c hc).mono (Nat.le_succ _)
    · -- The batch is written at the next sequence, up to which the bound grows first.
      have hbegun := (h _ (List.mem_of_getElem? hcol)).mono (Nat.le_succ e.sequence)
      exact hbegun.applyBatch e.options e.pruneThreshold batch
  | compact hcol =>
    intro c hc
    rcases List.mem_or_eq_of_mem_set hc with hc | rfl
    · exact h c hc
    · exact (h _ (List.mem_of_getElem? hcol)).compact _

/-- Whatever happens to an engine, its columns stay layered. -/
theorem Evolves.isLayered (h : e.Evolves e') (hlayered : e.IsLayered) : e'.IsLayered := by
  induction h with
  | refl => exact hlayered
  | answer _ c ih => exact (changes_answer _ c).isLayered ih
  | unpin _ s ih => exact ih
  | close _ ih => exact ih

/-- The smallest of the pinned sequences and the newest one is what pruning goes by. -/
theorem min?_pins (e : Engine) : (e.sequence :: e.pins).min? = some e.pruneThreshold :=
  List.min?_cons'

/-- What the newest state of an open engine holds at a key is the newest value of its chain. -/
theorem newest_of_open {n : Nat} {c : Column} (hopen : e.isClosed = false)
    (hc : e.columns[n]? = some c) (key : Bytes) : e.newest n key = c.valueAt .latest key := by
  rw [newest, get_latest_of_open hopen hc]
  rfl

/-- A column that compaction would not change leaves the engine as it is. -/
theorem compact_of_compacted {n : Nat} {c : Column} (hopen : e.isClosed = false)
    (hc : e.columns[n]? = some c)
    (hfix : c.compact e.options.scheme e.pruneThreshold e.options.filterCapacity = c) :
    e.compact n = .ok e := by
  obtain ⟨hlt, rfl⟩ := List.getElem?_eq_some_iff.mp hc
  rw [compact_of_open hopen hc, hfix, List.set_getElem_self]

/-- A second compaction answers the engine as the first one left it: the threshold is the same,
since neither the sequence nor the pins changed. -/
theorem compact_compact {n : Nat} {c : Column} (hopen : e.isClosed = false)
    (hc : e.columns[n]? = some c) (h : e.compact n = .ok e') : e'.compact n = .ok e' := by
  rw [compact_of_open hopen hc] at h
  obtain rfl := Except.ok.inj h
  have hlt : n < e.columns.length := (List.getElem?_eq_some_iff.mp hc).1
  exact compact_of_compacted hopen (List.getElem?_set_self hlt) (Column.compact_compact ..)

end Engine

/-! ## Sessions -/

namespace Session

/-- **Compaction collects everything it may.**  After any run, let `t` be the smallest of the pinned
sequences and the newest one.  Compaction of a column leaves of every chain the versions after `t`
and the newest one of the others, and removes the chains of which this is a lone tombstone; nothing
else changes.  Without pins the column then has one version for each live key, and the estimate is
their number.  A second compaction changes nothing at all. -/
theorem compaction_exact (options : Engine.Options) (acts : List Act) {n : Nat} {c : Column}
    (hopen : (run options acts).engine.isClosed = false)
    (hc : (run options acts).engine.columns[n]? = some c) :
    let e := (run options acts).engine
    ∃ (t : Nat) (c' : Column) (e' : Engine), (e.sequence :: e.pins).min? = some t ∧
      e.compact n = .ok e' ∧ e' = { e with columns := e.columns.set n c' } ∧
      (∀ key former, (key, former) ∈ c.chains → former ≠ [] ∧ former.Descends) ∧
      (∀ key chain, (key, chain) ∈ c'.chains ↔ ∃ former, (key, former) ∈ c.chains ∧
        chain = former.filter (t < ·.sequence) ++ (former.find? (·.sequence ≤ t)).toList ∧
        ¬ ∃ s ≤ t, chain = [⟨s, none⟩]) ∧
      (e.pins = [] → ∃ keys : List Bytes, keys.Nodup ∧
        (∀ key, key ∈ keys ↔ (e.newest n key).isSome) ∧
        e'.versionCount n = .ok keys.length ∧ e'.estimate n = .ok keys.length) ∧
      e'.compact n = .ok e' := by
  intro e
  have hevolves : (Engine.new options).Evolves e := evolves_run options acts
  have hlayered : c.IsLayered e.sequence :=
    hevolves.isLayered (Engine.isLayered_new options) c (List.mem_of_getElem? hc)
  have hcounts : c.Counts :=
    hevolves.counts (Engine.counts_new options) c (List.mem_of_getElem? hc)
  have hlt : n < e.columns.length := (List.getElem?_eq_some_iff.mp hc).1
  let c' := c.compact e.options.scheme e.pruneThreshold e.options.filterCapacity
  let e' : Engine := { e with columns := e.columns.set n c' }
  have hopen' : e'.isClosed = false := hopen
  have hc' : e'.columns[n]? = some c' := List.getElem?_set_self hlt
  refine ⟨e.pruneThreshold, c', e', e.min?_pins, Engine.compact_of_open hopen hc, rfl,
    fun key former hmem => ⟨hlayered.nonempty _ hmem, hlayered.descends _ hmem⟩,
    fun key chain => ?chains, fun hpins => ?unpinned,
    Engine.compact_compact hopen hc (Engine.compact_of_open hopen hc)⟩
  case chains =>
    -- A chain is what its collection leaves, in the words of `Descends.prune_eq` and
    -- `isRemovable_iff`.
    rw [Column.mem_chains_compact]
    refine exists_congr fun former => and_congr_right fun hmem => ?_
    rw [Chain.collect_eq_some_iff, (hlayered.descends _ hmem).prune_eq, ← Chain.isRemovable_iff,
      Bool.not_eq_true]
  case unpinned =>
    -- Without pins the threshold is the newest sequence, so nothing is above it.
    have hthreshold : e.sequence ≤ e.pruneThreshold :=
      Engine.le_pruneThreshold (Nat.le_refl _) (by simp [hpins])
    obtain ⟨hlength, hversions⟩ : c'.chains.length = c.liveKeys ∧ c'.versionCount = c.liveKeys :=
      hlayered.versionCount_compact hcounts hthreshold _
    refine ⟨c'.chains.map (·.1), ?_, fun key => ?_, ?_, ?_⟩
    · exact List.Pairwise.map _ (fun x y hlt heq => List.lt_irrefl _ (heq ▸ hlt))
        (hlayered.compact e.options.filterCapacity).sorted
    · rw [Engine.newest_of_open hopen hc]
      exact hlayered.mem_keys_compact hthreshold _
    · rw [Engine.versionCount_of_open hopen' hc', List.length_map, hlength, hversions]
    · rw [Engine.estimate_of_open hopen' hc', List.length_map, hlength]
      rfl

/-- Under a pin of the sequence 3, a key that was deleted before goes altogether, and a key that was
overwritten afterwards keeps both versions. -/
theorem compaction_exact_under_pin :
    let scheme : Filter.Scheme :=
      ⟨fun key => (key.length.toUInt64, 0), fun _ => ⟨64, 1, by decide, by decide⟩⟩
    let acts : List Act := [.call (.createColumn "a"), .call (.put 0 [0] [7]),
      .call (.delete 0 [0]), .call (.put 0 [1] [7]), .call .snapshot, .call (.put 0 [1] [8])]
    let e := (run { scheme } acts).engine
    e.pins = [3] ∧ e.columns.map (·.chains) = [[([0], [⟨2, none⟩, ⟨1, some [7]⟩]),
        ([1], [⟨4, some [8]⟩, ⟨3, some [7]⟩])]] ∧
      ∃ c' e', e.compact 0 = .ok e' ∧ e'.columns = e.columns.set 0 c' ∧
        ([1], [⟨4, some [8]⟩, ⟨3, some [7]⟩]) ∈ c'.chains ∧ (∀ chain, ([0], chain) ∉ c'.chains) ∧
        e'.compact 0 = .ok e' := by
  intro scheme acts e
  obtain ⟨c, hc, hchains⟩ : ∃ c, e.columns[0]? = some c ∧ c.chains
      = [([0], [⟨2, none⟩, ⟨1, some [7]⟩]), ([1], [⟨4, some [8]⟩, ⟨3, some [7]⟩])] :=
    ⟨_, rfl, by decide +kernel⟩
  obtain ⟨t, c', e', ht, hcompact, rfl, -, hmem, -, hagain⟩ :=
    compaction_exact { scheme } acts (by decide +kernel) hc
  obtain rfl : 3 = t := Option.some.inj ((by decide +kernel : some 3 = _).trans ht)
  refine ⟨by decide +kernel, by decide +kernel, c', _, hcompact, rfl, ?_, fun chain hchain => ?_,
    hagain⟩
  · refine (hmem _ _).mpr ⟨[⟨4, some [8]⟩, ⟨3, some [7]⟩], by simp [hchains], by decide, ?_⟩
    rintro ⟨s, -, h⟩
    simp at h
  · obtain ⟨former, hformer, hleft, hlone⟩ := (hmem _ _).mp hchain
    obtain rfl : former = [⟨2, none⟩, ⟨1, some [7]⟩] := by simpa [hchains] using hformer
    exact hlone ⟨2, by decide, hleft⟩

end Session

end SnapshotStore
