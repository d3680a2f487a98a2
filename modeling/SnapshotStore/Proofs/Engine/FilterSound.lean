import SnapshotStore.Dictionary.Basic
import SnapshotStore.Proofs.Engine.Refinement
import SnapshotStore.Proofs.Filter
import SnapshotStore.Proofs.Work.Alone

/-!
# Filters never hide stored data

The filter of a column answers for every key that holds a value in some version, not only for the
live keys (`Column.Covers`): a key whose newest version is a tombstone may still be read at a
snapshot.  A tombstone is only written over a live key, which the filter answers for already; a
value is added to the filter when it is written; and a filter that is made anew gets all keys with a
value in some version.

So a filter's no is right for every reader, and a point read gives the same answer whether it asks
the filter first or not.
-/

namespace SnapshotStore

namespace Chain

/-- A chain without values shows none. -/
theorem valueAt_of_not_any {chain : Chain} (h : chain.any (·.value.isSome) = false)
    (view : ReadView) : chain.valueAt view = none := by
  have hvisible : ∀ v, chain.visible view = some v → v ∈ chain := by
    intro v hv
    cases view with
    | latest => exact List.mem_of_head? hv
    | «at» s => exact List.mem_of_find?_eq_some hv
  unfold valueAt
  cases hv : chain.visible view with
  | none => rfl
  | some v => simpa using List.any_eq_false.mp h v (hvisible v hv)

end Chain

namespace Column

variable {c : Column} {scheme : Filter.Scheme} {threshold : Nat} {key : Bytes} {version : Version}

/-- The filter answers for every key that holds a value in some version. -/
def Covers (c : Column) (scheme : Filter.Scheme) : Prop :=
  ∀ e ∈ c.chains, e.2.any (·.value.isSome) = true → c.filter.mayContain scheme e.1 = true

/-- A column without keys needs nothing of its filter. -/
theorem covers_empty (name : String) (capacity : Nat) :
    (empty scheme name capacity).Covers scheme := by
  simp [Covers, empty]

/-- A key that the filter does not answer for holds no value in any view. -/
theorem Covers.valueAt_eq_none (h : c.Covers scheme)
    (hkey : c.filter.mayContain scheme key = false) (view : ReadView) :
    c.valueAt view key = none := by
  unfold valueAt chain
  cases hget : c.chains.get? key with
  | none => exact Chain.valueAt_nil view
  | some chain =>
    refine Chain.valueAt_of_not_any (Bool.eq_false_iff.mpr fun hany => ?_) view
    have hyes := h _ (KeyMap.mem_of_get? hget) hany
    simp [hkey] at hyes

/-- The filter answers for a live key. -/
theorem Covers.of_isLive (h : c.Covers scheme) (hlive : (c.chain key).isLive) :
    c.filter.mayContain scheme key = true := by
  by_contra hno
  have hnone := h.valueAt_eq_none (Bool.eq_false_iff.mpr hno) .latest
  unfold valueAt at hnone
  simp [Chain.isLive, hnone] at hlive

/-- A change of the chain of a key that the filter answers for. -/
private theorem Covers.alter (h : c.Covers scheme) {filter : Filter} {liveKeys : Nat}
    {f : Option Chain → Option Chain} (hkey : filter.mayContain scheme key = true)
    (hothers : ∀ k, c.filter.mayContain scheme k = true → filter.mayContain scheme k = true) :
    Covers { c with chains := c.chains.alter key f, filter, liveKeys } scheme := by
  intro e he hany
  rcases KeyMap.mem_alter he with heq | he
  · exact heq ▸ hkey
  · exact hothers e.1 (h e he hany)

/-- A value is entered in the filter as it is written, and a tombstone adds no value. -/
theorem Covers.push (h : c.Covers scheme) :
    (c.push scheme threshold key version).Covers scheme := by
  unfold Column.push
  by_cases hvalue : version.value.isSome
  · simp only [hvalue, if_true]
    exact h.alter (Filter.mayContain_insert _ _ (.inl rfl))
      fun k hk => Filter.mayContain_insert _ _ (.inr hk)
  · by_cases hlive : (c.chain key).isLive
    · simp only [hvalue, hlive, if_true, Bool.false_eq_true, if_false]
      exact h.alter (h.of_isLive hlive) fun k hk => hk
    · simpa only [hvalue, hlive, Bool.false_eq_true, if_false] using h

/-- A filter that is made anew answers for every key with a value in some version. -/
theorem covers_rebuildFilter (scheme : Filter.Scheme) (capacity : Nat) (c : Column) :
    (c.rebuildFilter scheme capacity).Covers scheme := by
  intro e he hany
  refine Filter.mayContain_insertAll _ _ (.inl ?_)
  exact List.mem_map.mpr ⟨e, List.mem_filter.mpr ⟨he, hany⟩, rfl⟩

end Column

namespace Engine

variable {e e' : Engine}

/-- The filters of all columns answer for every key with a value in some version. -/
def Covers (e : Engine) : Prop := ∀ c ∈ e.columns, c.Covers e.options.scheme

/-- A view can be read: it is the newest state, or its sequence is pinned. -/
def CanRead (e : Engine) : ReadView → Prop
  | .latest => True
  | .at s => s ∈ e.pins

/-- A new engine has no columns. -/
theorem covers_new (options : Options) : (new options).Covers := by simp [Covers, new]

/-- A change of an engine keeps its filters complete. -/
theorem Changes.covers {pinned : List Nat} (hchange : e.Changes pinned e') (h : e.Covers) :
    e'.Covers := by
  unfold Covers
  rw [hchange.options_eq]
  exact hchange.forall_columns (fun _ => Column.covers_empty _ _) (fun _ _ _ _ hc => hc.push)
    (fun _ _ => Column.covers_rebuildFilter _ _ _)
    (fun _ _ _ => Column.covers_rebuildFilter _ _ _) h

/-- A filter's no means that there is no value in any view that can be read. -/
theorem Covers.get_eq_none (h : e.Covers) {n : Nat} {key : Bytes}
    (hno : e.mayContain n key = .ok false) {view : ReadView} (hview : e.CanRead view) :
    e.get n view key = .ok none := by
  cases hclosed : e.isClosed with
  | true => simp [mayContain, column_of_closed hclosed, bind, Except.bind] at hno
  | false =>
    cases hc : e.columns[n]? with
    | none => simp [mayContain, column_of_unknown hclosed hc, bind, Except.bind] at hno
    | some c =>
      -- The filter of the column is what was asked, so no version of the key has a value.
      have hkey : c.filter.mayContain e.options.scheme key = false := by
        simpa [mayContain, column_of_open hclosed hc, bind, Except.bind, pure, Except.pure]
          using hno
      have hnone := (h c (List.mem_of_getElem? hc)).valueAt_eq_none hkey
      cases view with
      | latest => rw [get_latest_of_open hclosed hc, hnone]
      | «at» s => rw [get_at_of_open hclosed hc, if_pos (show s ∈ e.pins from hview), hnone]

/-- A refusal to ask the filter is a refusal to read. -/
theorem get_of_mayContain_failed {n : Nat} {key : Bytes} {failure : EngineError}
    (hfailed : e.mayContain n key = .error failure) (view : ReadView) :
    e.get n view key = .error failure := by
  unfold mayContain at hfailed
  unfold get
  cases hcol : e.column n with
  | error failure' => simpa [hcol, bind, Except.bind] using hfailed
  | ok c => simp [hcol, bind, Except.bind, pure, Except.pure] at hfailed

end Engine

namespace Session

/-- In every state the filters cover the keys that any view may still find. -/
theorem covers_run (options : Engine.Options) (acts : List Act) :
    (run options acts).engine.Covers := by
  refine run_induction (P := fun s => s.engine.Covers) (Engine.covers_new options)
    (fun s a h => ?_) acts
  have hreader : ∀ i f, (∀ r, s.readers[i]? = some r → r.isOpen = true →
      (f r).engine.Covers) → (s.onReader i f).engine.Covers :=
    fun i f => onReader_induction (P := fun t => t.engine.Covers) h
  cases a with
  | call c => exact (s.engine.changes_answer c).covers h
  | release q => exact h
  | advance i => exact hreader i _ fun _ _ _ => h
  | turn i => exact hreader i _ fun _ _ _ => h
  | drop i => exact hreader i _ fun _ _ _ => h
  | close => exact h

end Session

/-! ## Point reads -/

namespace Dictionary

variable {ε : Type} {b : Backend} {e : Engine} {view : ReadView}

/-- A point read ends with what the engine answers, whether it asks the filter first or not. -/
theorem endsIn_read (d : Dictionary) (hb : b.engine = .reliable e) (h : e.Covers)
    (hview : e.CanRead view) (key : Bytes) (sure : Bool) :
    (d.read view key sure : Work ε (Option Bytes)).EndsIn b
      (.ofCall "read" key.label (e.get d.column view key)) b := by
  have hget : (Work.call "read" key.label (.get d.column view key) : Work ε (Option Bytes)).EndsIn b
      (.ofCall "read" key.label (e.get d.column view key)) b :=
    Work.endsIn_call_reading hb (c := .get d.column view key) rfl _ _
  have hask : (Work.call "read" key.label (.mayContain d.column key) : Work ε Bool).EndsIn b
      (.ofCall "read" key.label (e.mayContain d.column key)) b :=
    Work.endsIn_call_reading hb (c := .mayContain d.column key) rfl _ _
  cases sure with
  | true => exact (Work.endsIn_pure true b).bind hget
  | false =>
    cases hmay : e.mayContain d.column key with
    | error failure =>
      rw [Engine.get_of_mayContain_failed hmay view]
      rw [hmay] at hask
      exact hask.bind_failed
    | ok possible =>
      rw [hmay] at hask
      refine hask.bind ?_
      cases possible with
      | true => exact hget
      | false =>
        -- Nothing is asked, and what would be answered is nothing.
        rw [h.get_eq_none hmay hview]
        exact Work.endsIn_pure none b

end Dictionary

/-- **The filter never hides stored data.**  In every state that an engine can reach, a key that the
filter does not answer for has no value in the newest state and none at a pinned sequence; and a
point read of such a view does the same whether the filter is asked first or the key is taken to be
there. -/
theorem Session.filter_never_hides (ε : Type) (options : Engine.Options)
    (acts : List Session.Act) :
    let e := (Session.run options acts).engine
    (∀ n key, e.mayContain n key = .ok false →
      e.get n .latest key = .ok none ∧ ∀ s, 0 < e.pinCount s → e.get n (.at s) key = .ok none) ∧
    ∀ (d : Dictionary) (view : ReadView) (key : Bytes) (b : Backend), b.engine = .reliable e →
      (∀ s, view = .at s → 0 < e.pinCount s) →
      (d.read view key true : Work ε (Option Bytes)).run b
        = (d.read view key false : Work ε (Option Bytes)).run b := by
  intro e
  have h : e.Covers := covers_run options acts
  have hpinned : ∀ {s : Nat}, 0 < e.pinCount s → e.CanRead (.at s) :=
    fun hs => List.count_pos_iff.mp hs
  refine ⟨fun n key hno => ⟨h.get_eq_none hno (show e.CanRead .latest from trivial),
    fun s hs => h.get_eq_none hno (hpinned hs)⟩, fun d view key b hb hview => ?_⟩
  -- What is pinned can be read, and so can the newest state.
  have hread : e.CanRead view := by
    cases view with
    | latest => trivial
    | «at» s => exact hpinned (hview s rfl)
  rw [(d.endsIn_read hb h hread key true).run_eq, (d.endsIn_read hb h hread key false).run_eq]

/-- A filter of 64 bits does say no: after the key 1 was written and deleted under a snapshot, it
still answers for that key, and the empty key has no value in any view. -/
theorem Session.filter_says_no :
    let scheme : Filter.Scheme :=
      ⟨fun key => (key.length.toUInt64, 0), fun _ => ⟨64, 1, by decide, by decide⟩⟩
    let e := (Session.run { scheme } [.call (.createColumn "a"), .call (.put 0 [1] [2]),
      .call .snapshot, .call (.delete 0 [1]), .call (.compact 0)]).engine
    e.mayContain 0 [1] = .ok true ∧ e.mayContain 0 [] = .ok false ∧ e.get 0 .latest [] = .ok none ∧
      e.get 0 (.at 1) [] = .ok none := by
  intro scheme e
  have hno : e.mayContain 0 [] = .ok false := by decide +kernel
  have hnone := (filter_never_hides Empty _ _).1 0 [] hno
  exact ⟨by decide +kernel, hno, hnone.1, hnone.2 1 (by decide +kernel)⟩

end SnapshotStore
