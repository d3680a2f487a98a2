import SnapshotStore.Proofs.Database.Open
import SnapshotStore.Proofs.Dictionary.Counting

/-!
# The size of a dictionary

An exact size is counted shard by shard, at a sequence that is pinned for that long.  All shards are
counted in the same state, so their counts sum up to the number of its entries, and the pin is gone
afterwards (`Store.IsIn.size`).
-/

namespace SnapshotStore

/-- There is one range without bounds. -/
theorem KeyRange.eq_all_of_isAll {range : KeyRange} (h : range.isAll = true) : range = .all := by
  obtain ⟨lower, upper, ordered⟩ := range
  obtain ⟨hlower, hupper⟩ : lower = none ∧ upper = none := by simpa [isAll] using h
  subst hlower hupper
  rfl

/-- A token stands for a pinned sequence. -/
theorem Snapshots.exists_at_of_resolve {r : Snapshots} {t : Token} {view : ReadView}
    (h : r.resolve (some t) = .ok view) : ∃ q, view = .at q := by
  cases hseq : r.sequence? t with
  | none => simp [resolve, hseq] at h
  | some q => exact ⟨q, by simpa [resolve, hseq] using h.symm⟩

namespace Store

variable {s s' s'' : Store} {w : World} {d : Dictionary} {name : String} {view : ReadView}
  {entries : List Entry}

/-- What is kept twice is kept. -/
theorem Keeps.trans (h : s.Keeps s') (h' : s'.Keeps s'') : s.Keeps s'' := by
  unfold Keeps at h h' ⊢
  rw [h', h]

/-- A dictionary is found as before. -/
theorem Keeps.find?_eq (h : s.Keeps s') (name : String) :
    s'.database.find? name = s.database.find? name := by
  have hdictionaries : s'.database.dictionaries = s.database.dictionaries := by
    rw [show s'.database = _ from h]
  unfold Database.find?
  rw [hdictionaries]

namespace IsIn

/-- Who holds the stripes of one dictionary makes no difference to the store. -/
theorem seenBy (h : s.IsIn w) (d : Dictionary) : s.IsIn (w.seenBy d) :=
  ⟨h.backend, h.isClosed_eq, h.pool, h.nodup, fun e he => (h.isOpened e he).of_names_eq rfl,
    h.stripes_eq⟩

/-- A sequence is unpinned. -/
theorem unpin (h : s.IsIn w) (q : Nat) :
    Store.IsIn { s with engine := s.engine.modify (·.unpin q) } { w with pins := w.pins.erase q } :=
  ⟨h.backend.unpin q, h.isClosed_eq, h.pool, h.nodup, fun e he => (h.isOpened e he).of_names_eq rfl,
    h.stripes_eq⟩

/-- Pieces of work that read run in the same world one after the other. -/
theorem submitAll {ι α : Type} (h : s.IsIn w) (hd : s.database.find? name = some d) (xs : List ι)
    {f : ι → Work Empty α} {g : ι → α}
    (hf : ∀ x, (f x).Takes (w.seenBy d) (.done (g x)) (w.seenBy d)) :
    ∃ s', (Store.submitAll d (xs.map f)).run s = (.ok (xs.map g), s') ∧ s'.IsIn (w.seenBy d) ∧
      s.Keeps s' := by
  have hrun : ∃ s', ((xs.map f).mapM fun x => (Store.submit d x).run) s
      = ((xs.map g).map Except.ok, s') ∧ s'.IsIn (w.seenBy d) ∧ s.Keeps s' := by
    replace h := h.seenBy d
    induction xs generalizing s with
    | nil => exact ⟨s, rfl, h, rfl⟩
    | cons x rest ih =>
      obtain ⟨s₁, hx, hs₁, hkeeps₁⟩ := h.submit hd (hf x) rfl rfl
      obtain ⟨s', hrest, hs', hkeeps⟩ := ih ((hkeeps₁.find?_eq name).trans hd) hs₁
      refine ⟨s', ?_, hs', hkeeps₁.trans hkeeps⟩
      rw [List.map_cons, List.mapM_cons]
      show (((Store.submit d (f x)).run s).1 ::
          (((rest.map f).mapM fun x => (Store.submit d x).run) ((Store.submit d (f x)).run s).2).1,
        (((rest.map f).mapM fun x => (Store.submit d x).run) ((Store.submit d (f x)).run s).2).2) = _
      simp only [hx, hrest]
      rfl
  obtain ⟨s', hrun, hs', hkeeps⟩ := hrun
  -- All pieces answered, so the first failure is none.
  have hvalues : ((xs.map g).map Except.ok : List (Except StoreError α)).mapM id = .ok (xs.map g) := by
    rw [List.mapM_map]
    exact (List.mapM_pure (f := id)).trans (congrArg Except.ok (List.map_id _))
  refine ⟨s', ?_, hs', hkeeps⟩
  show (let (rs, t) := ((xs.map f).mapM fun x => (Store.submit d x).run) s
    (rs.mapM id, t)) = _
  simp only [hrun, hvalues]

/-- The counts of the shards sum up to the number of all entries. -/
theorem countShards (h : s.IsIn w) (hd : s.database.find? name = some d)
    (hview : w.CanRead view) (hlists : (w.seen d.column view).Lists .all entries) :
    ∃ s', (Store.countShards d view).run s = (.ok entries.length, s') ∧ s'.IsIn (w.seenBy d) ∧
      s.Keeps s' := by
  have hrest : d.AtRest (w.seenBy d) := (h.find?_eq hd).2.1.atRest
  have hcount : ∀ r : KeyRange, (d.count view r none : Work Empty Nat).Takes (w.seenBy d)
      (.done ((entries.map Prod.fst).countP r.contains)) (w.seenBy d) := by
    intro r
    have hcount := Dictionary.takes_count (ε := Empty) hrest hview (hlists.within r) none
    rwa [Dictionary.counted, ← List.countP_eq_length_filter, ← Function.comp_def, ← List.countP_map]
      at hcount
  obtain ⟨s', hrun, hs', hkeeps⟩ :=
    h.submitAll hd (Dictionary.shards d.config.exactSizeShards) hcount
  refine ⟨s', ?_, hs', hkeeps⟩
  have hsum := Dictionary.sum_countP_shards d.config.exactSizeShards (entries.map Prod.fst)
  rw [List.length_map] at hsum
  rw [Store.countShards, run_bind_of_ok hrun, ← hsum]
  rfl

/-- The newest state is pinned while it is counted. -/
theorem exactSize (h : s.IsIn w) (hd : s.database.find? name = some d)
    (hview : w.CanRead view) (hlists : (w.seen d.column view).Lists .all entries) :
    ∃ s', (Store.exactSize d view).run s = (.ok entries.length, s') ∧ s'.IsIn (w.seenBy d) ∧
      s.Keeps s' := by
  cases view with
  | «at» q => exact h.countShards hd hview hlists
  | latest =>
    obtain ⟨s₁, hpin, hs₁, hkeeps₁⟩ := h.submit hd
      (Work.takes_pin (ε := Empty) (w := w.seenBy d) "snapshot" d.engineName) rfl rfl
    have hpinned : World.CanRead
        { w.seenBy d with pins := w.ledger.history.length :: w.pins } (.at w.ledger.history.length) :=
      List.mem_cons_self
    obtain ⟨s₂, hcount, hs₂, hkeeps₂⟩ :=
      hs₁.countShards ((hkeeps₁.find?_eq name).trans hd) hpinned hlists
    -- The pin that was put first is the one that is taken away.
    have hs' := hs₂.unpin w.ledger.history.length
    simp only [World.seenBy, List.erase_cons_head] at hs'
    refine ⟨_, ?_, hs', hkeeps₁.trans hkeeps₂⟩
    rw [Store.exactSize, run_bind_of_ok hpin]
    show (let (r, t) := (Store.countShards d (.at w.ledger.history.length)).run s₁
      (r, { t with engine := t.engine.modify (·.unpin w.ledger.history.length) })) = _
    simp only [hcount]

/-- The view of a size is resolved before anything is counted. -/
private theorem run_resolve (h : s.IsIn w) (token : Option Token) :
    (ExceptT.mk (pure (s.database.snapshots.resolve token)) : Op ReadView).run s
      = (w.snapshots.resolve token, s) := by
  have hsnapshots : s.database.snapshots = w.snapshots := h.backend.snapshots_eq
  rw [hsnapshots]
  rfl

/-- A size answers for the plain map that has the contents of the view. -/
theorem size (h : s.IsIn w) (hd : s.database.find? name = some d) {token : Option Token}
    (htoken : w.snapshots.resolve token = .ok view) (hview : w.CanRead view) {m : PlainMap}
    (hm : m.get = w.seen d.column view) (range : KeyRange) (fast : Bool) :
    ∃ s', (Store.size d token range fast).run s
        = (.ok (m.size s.database.config.fastSizeScanCap token range fast), s') ∧
      s'.IsIn (w.seenBy d) ∧ s.Keeps s' := by
  have hlists := m.lists_within range
  rw [hm] at hlists
  obtain ⟨-, hopened, -⟩ := h.find?_eq hd
  have hrest := hopened.atRest
  have hresolve := h.run_resolve token
  rw [htoken] at hresolve
  rw [Store.size, run_bind_of_ok run_get, run_bind_of_ok hresolve, PlainMap.size]
  cases hall : range.isAll with
  | false => exact h.submit hd (Dictionary.takes_count hrest hview hlists none) rfl rfl
  | true =>
    obtain rfl := KeyRange.eq_all_of_isAll hall
    cases fast with
    | false => exact h.exactSize hd hview hlists
    | true =>
      cases token with
      | none =>
        -- The engine counts its live keys, so the estimate is exact.
        obtain rfl : .latest = view := Except.ok.inj htoken
        exact h.submit hd (Work.takes_estimate hrest.column hlists _ _) rfl rfl
      | some t =>
        obtain ⟨q, rfl⟩ := Snapshots.exists_at_of_resolve htoken
        have hread : (w.seenBy d).CanRead (.at q) := hview
        have hcount := Dictionary.takes_count (ε := Empty) hrest hread hlists
          (some (max d.config.fastSizeScanCap 1))
        rw [Dictionary.counted, Nat.max_assoc, Nat.max_self] at hcount
        rw [← hopened.config_eq]
        exact h.submit hd hcount rfl rfl

/-- A size at a token that stands for nothing is refused. -/
theorem size_failed (h : s.IsIn w) (d : Dictionary) {token : Option Token} {e : StoreError}
    (htoken : w.snapshots.resolve token = .error e) (range : KeyRange) (fast : Bool) :
    (Store.size d token range fast).run s = (.error e, s) := by
  have hresolve := h.run_resolve token
  rw [htoken] at hresolve
  rw [Store.size, run_bind_of_ok run_get, run_bind_of_error hresolve]

end IsIn

end Store

end SnapshotStore
