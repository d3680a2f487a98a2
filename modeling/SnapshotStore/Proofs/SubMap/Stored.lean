import SnapshotStore.Proofs.Database.Recovery
import SnapshotStore.Proofs.SubMap.Parts

/-!
# What is stored under nested maps

The engine of a database may fail at any call, and an operation may then stop half done.  Even so, a
dictionary that is written through nested maps with keys of one width has keys of that width only,
and an operation of a nested map keeps all keys that do not start with its stem: what was written up
to the failure are permitted operations, and permitted operations keep both.
-/

namespace SnapshotStore

/-- A request that writes to a dictionary through nested maps with keys of one width, if at all. -/
def Request.IsNested (dictionary : String) (width : Nat) : Request → Prop
  | act (.on name op) => name = dictionary → op.readsAt?.isSome
  | act _ => True
  | nested name _ layout _ => name = dictionary → layout.keyLen = width
  | close => False

theorem Request.IsNested.ne_close {dictionary : String} {width : Nat} {r : Request}
    (h : r.IsNested dictionary width) : r ≠ .close := by
  rintro rfl
  exact h

namespace Store

/-- The store recovers from failures, and the keys of one name had one width in every state so
far. -/
structure IsPartitioned (s : Store) (name : String) (width : Nat) (w : World) : Prop where
  /-- The store recovers. -/
  recovers : s.Recovers w
  /-- The keys of the name. -/
  width : ∀ n, w.ledger.names[n]? = some name → ∀ k, (w.ledger.history.contents k n).HasWidth width

variable {s : Store} {w w' : World} {name other : String} {width : Nat} {may : Permit}
  {d : Dictionary} {A : SubMap} {stem : Bytes} {layout : KeyLayout} {p : PlainStore}

/-- An open dictionary has the column of its name. -/
theorem Recovers.getElem?_names (h : s.Recovers w) (hd : s.database.find? name = some d) :
    w.ledger.names[d.column]? = some name := by
  obtain ⟨hname, hopened, -⟩ := h.isIn.find?_eq hd
  rw [hopened.column_eq, World.columnOf, List.getElem?_idxOf hopened.mem, hname]

namespace IsPartitioned

/-- A ledger goes on with operations that keep the width of a name wherever they may be written to
its column; a column that is new has no keys. -/
theorem width_goesOn (h : s.IsPartitioned name width w) (hgoes : w.ledger.GoesOn may w'.ledger)
    (hmay : ∀ n op, may n op → ∃ other, w.ledger.names[n]? = some other ∧
      (other = name → ∀ c : Contents, c.HasWidth width → (c.apply op).HasWidth width)) :
    ∀ n, w'.ledger.names[n]? = some name →
      ∀ k, (w'.ledger.history.contents k n).HasWidth width := by
  intro n hn k
  have hagrees : s.engine.engine.Agrees w.ledger := h.recovers.isIn.backend.agrees
  obtain ⟨more, hmore, hpermitted⟩ := hgoes.history
  have hold : ∀ k, (w.ledger.history.contents k n).HasWidth width := by
    intro k
    by_cases hlt : n < w.ledger.names.length
    · exact h.width n (hgoes.names_getElem? hlt ▸ hn) k
    · rw [History.contents_eq_empty fun b hb heq => ?_]
      · exact Contents.hasWidth_empty width
      · have hcolumn := hagrees.represents.column_lt b hb
        rw [← hagrees.length_names] at hcolumn
        omega
  have hadded : ∀ b ∈ more, b.1 = n → ∀ op ∈ b.2, ∀ c : Contents, c.HasWidth width →
      (c.apply op).HasWidth width := by
    rintro b hb rfl op hop c hc
    obtain ⟨other, hother, hkeeps⟩ := hmay b.1 op (hpermitted b hb op hop)
    have hlt : b.1 < w.ledger.names.length := (List.getElem?_eq_some_iff.mp hother).1
    rw [hgoes.names_getElem? hlt, hother] at hn
    exact hkeeps (Option.some.inj hn) c hc
  rw [hmore]
  exact History.contents_induction hold hadded k

/-- What a request to nested maps writes has the width. -/
theorem request (h : s.IsPartitioned name width w) {r : Request} (hr : r.IsNested name width) :
    ∃ w', w.ledger.GoesOn (r.footprint s.database) w'.ledger ∧
      (r.run s).2.IsPartitioned name width w' := by
  obtain ⟨w', hgoes, h'⟩ := h.recovers.request hr.ne_close
  refine ⟨w', hgoes, h', h.width_goesOn hgoes fun n op hmay => ?_⟩
  cases r with
  | close => exact hr.elim
  | nested other stem layout _ =>
    obtain ⟨A, hA, rfl, htouches⟩ := hmay
    obtain ⟨hd, -, rfl, hsel⟩ := nested?_eq_some hA
    refine ⟨other, h.recovers.getElem?_names hd, fun heq c hc => ?_⟩
    obtain rfl := hr heq
    exact ((SubMap.Edits.refl hc).apply hsel htouches).width
  | act a =>
    cases a with
    | on other op =>
      obtain ⟨hwrites, d, hd, rfl⟩ := hmay
      refine ⟨other, h.recovers.getElem?_names hd, fun heq => ?_⟩
      have hreads := hr heq
      rw [hwrites] at hreads
      cases hreads
    | opening _ _ => exact hmay.elim
    | takeSnapshot => exact hmay.elim
    | releaseSnapshot _ => exact hmay.elim
    | flush => exact hmay.elim

theorem after (h : s.IsPartitioned name width w) {script : List Request}
    (hscript : ∀ r ∈ script, r.IsNested name width) :
    ∃ w', (s.after script).IsPartitioned name width w' := by
  induction script generalizing s w with
  | nil => exact ⟨w, h⟩
  | cons r rest ih =>
    obtain ⟨w', -, h'⟩ := h.request (hscript r List.mem_cons_self)
    exact ih h' fun r hr => hscript r (List.mem_cons_of_mem _ hr)

/-- **Whatever fails, an operation of a nested map edits its own keys**, and leaves the database as
it was. -/
theorem nested (h : s.IsPartitioned name width w)
    (hA : s.database.nested? name stem layout = some (.ok A)) (hlayout : layout.keyLen = width)
    (op : SubMapOp) :
    s.Keeps (op.run A s).2 ∧ ∃ w', w.ledger.GoesOn A.footprint w'.ledger ∧
      (op.run A s).2.IsPartitioned name width w' ∧
      A.Edits (w.now A.dictionary.column) (w'.now A.dictionary.column) := by
  obtain ⟨w', hgoes, h'⟩ := h.request (r := .nested name stem layout op) fun _ => hlayout
  have hrun : (Request.nested name stem layout op).run s = op.run A s := by
    simp only [Request.run, hA]
  have hfootprint : w.ledger.GoesOn A.footprint w'.ledger := hgoes.mono fun n o ho => by
    obtain ⟨A', hA', ho⟩ := ho
    rw [hA] at hA'
    exact Except.ok.inj (Option.some.inj hA') ▸ ho
  obtain ⟨hd, rfl, rfl, hsel⟩ := nested?_eq_some hA
  refine ⟨(h.recovers.confined (op.confines hsel List.mem_cons_self) (find?_name hd)).keeps, w',
    hfootprint, hrun ▸ h', ?_⟩
  obtain ⟨more, hmore, hpermitted⟩ := hfootprint.history
  unfold World.now
  rw [hmore]
  refine History.latest_induction (SubMap.Edits.refl ?_) fun b hb _ o ho c hc =>
    hc.apply hsel (hpermitted b hb o ho).2
  exact hlayout ▸ h.width _ (h.recovers.getElem?_names hd) _

/-- The newest value of a key is that of the newest state. -/
theorem stored_latest (h : s.IsPartitioned name width w) (hd : s.database.find? name = some d)
    (key : Bytes) : s.stored d .latest key = .ok (w.now d.column key) := by
  have hlt := (List.getElem?_eq_some_iff.mp (h.recovers.getElem?_names hd)).1
  have hlatest : { w with stripes := [] }.CanRead .latest := trivial
  exact h.recovers.isIn.backend.get_eq hlt hlatest key

/-- A value that is read from the engine is the value of a state. -/
theorem length_of_stored (h : s.IsPartitioned name width w) (hd : s.database.find? name = some d)
    {view : ReadView} {key value : Bytes} (hstored : s.stored d view key = .ok (some value)) :
    key.length = width := by
  have hwidth := h.width d.column (h.recovers.getElem?_names hd)
  have hagrees : s.engine.engine.Agrees w.ledger := h.recovers.isIn.backend.agrees
  rw [stored, hagrees.get_eq] at hstored
  split at hstored
  · cases hstored
  · split at hstored
    · cases hstored
    · cases view with
      | latest => exact hwidth _ key value (Except.ok.inj hstored)
      | «at» q =>
        dsimp only at hstored
        split at hstored
        · exact hwidth q key value (Except.ok.inj hstored)
        · cases hstored

/-- All keys that plain maps show of the name have the width. -/
theorem width_of_shown (h : s.IsPartitioned name width w) (hp : s.mend.Refines p w)
    (hd : s.database.find? name = some d) {token : Option Token} {maps : String → PlainMap}
    (hmaps : p.shown token = .ok maps) : (maps name).get.HasWidth width := by
  have hcolumn : (w.seenBy d).columnOf name = d.column := (hp.column_eq hd).symm
  have hwidth := h.width d.column (h.recovers.getElem?_names hd)
  rcases (hp.mirrors_seenBy d).shown_cases token with
    ⟨maps', view, hshown, -, -, hget⟩ | ⟨e, hshown, -⟩
  · obtain rfl := Except.ok.inj (hmaps.symm.trans hshown)
    rw [hget name, hcolumn]
    cases view with
    | latest => exact hwidth _
    | «at» q => exact hwidth q
  · rw [hmaps] at hshown
    cases hshown

end IsPartitioned

end Store

/-- The store of a new database has no keys. -/
theorem Database.isPartitioned_create {name engineName : String} {config : Config}
    {pool : Option Pool} {db : Database} (hcreate : create name engineName config pool = .ok db)
    (hpool : ∀ p ∈ pool, p.IsReady) (options : Engine.Options) (faults : List Fault)
    (dictionary : String) (width : Nat) :
    Store.IsPartitioned ⟨⟨.new options, faults⟩, db⟩ dictionary width ⟨.empty, [], .empty, []⟩ :=
  ⟨recovers_create hcreate hpool options faults, fun n hn => by simp [Ledger.empty] at hn⟩

end SnapshotStore
