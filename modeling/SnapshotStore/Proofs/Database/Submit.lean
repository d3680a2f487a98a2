import Mathlib.Data.List.Nodup
import SnapshotStore.Proofs.Database.Mirror

/-!
# Running the work of a dictionary

A store is in a world if its engine and its snapshots are, the database and its pool are open, and
nobody holds a stripe of one of its dictionaries.  Work of a dictionary takes such a store to the
world where it takes that dictionary at rest, and gives back its stripes as they were, so nothing of
the database changes apart from its snapshots (`Store.IsIn.onBackend`).
-/

namespace SnapshotStore

namespace World

/-- The world as work of a dictionary sees it, with the stripes of that dictionary idle. -/
def seenBy (w : World) (d : Dictionary) : World :=
  { w with stripes := (d.striping.map Stripes.idle).getD [] }

end World

/-- A dictionary that a database opened. -/
structure Dictionary.IsOpened (d : Dictionary) (config : Config) (w : World) : Prop where
  /-- Its name has a column. -/
  mem : d.name ∈ w.ledger.names
  /-- It uses that column. -/
  column_eq : d.column = w.columnOf d.name
  /-- It makes the choices of the database. -/
  config_eq : d.config = config
  /-- It has locks if it admits updates. -/
  striping : d.mode = .allow → d.striping.isSome

/-- A dictionary that was opened is at rest. -/
theorem Dictionary.IsOpened.atRest {d : Dictionary} {config : Config} {w : World}
    (h : d.IsOpened config w) : d.AtRest (w.seenBy d) where
  column := by
    rw [h.column_eq]
    exact World.hasColumn_columnOf h.mem
  stripes_eq := rfl

/-- New columns make no difference to an open dictionary. -/
theorem Dictionary.IsOpened.mono {d : Dictionary} {config : Config} {w w' : World}
    (h : d.IsOpened config w) (hnames : w.ledger.names <+: w'.ledger.names) :
    d.IsOpened config w' where
  mem := hnames.subset h.mem
  column_eq := by
    obtain ⟨rest, hrest⟩ := hnames
    rw [h.column_eq, World.columnOf, World.columnOf, ← hrest, List.idxOf_append_of_mem h.mem]
  config_eq := h.config_eq
  striping := h.striping

/-- What else changes in the world makes none, either. -/
theorem Dictionary.IsOpened.of_names_eq {d : Dictionary} {config : Config} {w w' : World}
    (h : d.IsOpened config w) (hnames : w'.ledger.names = w.ledger.names) :
    d.IsOpened config w' := h.mono (hnames ▸ List.prefix_rfl)

/-- A pool that starts work and has a permit for a producer. -/
structure Pool.IsReady (p : Pool) : Prop where
  /-- It is open. -/
  isClosed_eq : p.isClosed = false
  /-- A permit is left. -/
  scans : 0 < p.scans.available

/-- A new pool serves. -/
theorem Pool.isReady_new (name : String) (ops scans : Nat) : (Pool.new name ops scans).IsReady :=
  ⟨rfl, Nat.lt_of_lt_of_le Nat.one_pos (Nat.le_max_right scans 1)⟩

/-- The dictionaries of a store have different names, and nobody holds a stripe. -/
structure Store.IsIdle (s : Store) : Prop where
  /-- The names. -/
  nodup : (s.database.dictionaries.map (·.1.name)).Nodup
  /-- The stripes. -/
  stripes_eq : ∀ e ∈ s.database.dictionaries, e.2 = (e.1.striping.map Stripes.idle).getD []

/-- A store that works and that nobody works on, in a world. -/
structure Store.IsIn (s : Store) (w : World) : Prop where
  /-- The engine and the snapshots are those of the world. -/
  backend : Backend.IsIn ⟨s.engine, s.database.snapshots, []⟩ { w with stripes := [] }
  /-- The database is open. -/
  isClosed_eq : s.database.isClosed = false
  /-- Its pool starts work. -/
  pool : s.database.pool.IsReady
  /-- The dictionaries have different names. -/
  nodup : (s.database.dictionaries.map (·.1.name)).Nodup
  /-- The dictionaries are open. -/
  isOpened : ∀ e ∈ s.database.dictionaries, e.1.IsOpened s.database.config w
  /-- Their stripes are idle. -/
  stripes_eq : ∀ e ∈ s.database.dictionaries, e.2 = (e.1.striping.map Stripes.idle).getD []

namespace Store

variable {s s' : Store} {w w' : World} {d : Dictionary} {name : String}

/-- Nothing of the database changed apart from its snapshots. -/
def Keeps (s s' : Store) : Prop :=
  s'.database = { s.database with snapshots := s'.database.snapshots }

/-- Work of a dictionary finds what its last work left behind. -/
theorem backend_absorb (hd : s.database.find? name = some d) (p : Pool) (b : Backend) :
    (s.absorb d p b).backend d = b := by
  obtain ⟨e, he, rfl⟩ := Option.map_eq_some_iff.mp hd
  have hname : e.1.name = name := by simpa using List.find?_some he
  have hsame : ((fun x : Dictionary × Stripes => x.1.name == name) ∘
      fun x => if x.1.name == name then (x.1, b.stripes) else x) = fun x => x.1.name == name := by
    funext x
    rw [Function.comp_apply]
    split <;> rfl
  have hstripes : (s.absorb e.1 p b).database.stripes e.1 = b.stripes := by
    simp only [Database.stripes, absorb, Database.setStripes, hname, List.find?_map, hsame, he,
      Option.map_some, BEq.rfl, if_true, Option.getD_some]
  unfold backend
  rw [hstripes]
  rfl

/-- Only the last work of a dictionary is seen in the store. -/
theorem absorb_absorb (s : Store) (d : Dictionary) (p₁ : Pool) (b₁ : Backend) (p : Pool)
    (b : Backend) : (s.absorb d p₁ b₁).absorb d p b = s.absorb d p b := by
  have hsame : ((fun x : Dictionary × Stripes => if x.1.name == d.name then (x.1, b.stripes) else x) ∘
      fun x => if x.1.name == d.name then (x.1, b₁.stripes) else x)
      = fun x => if x.1.name == d.name then (x.1, b.stripes) else x := by
    funext x
    by_cases hname : x.1.name = d.name <;> simp [hname]
  simp only [absorb, Database.setStripes, List.map_map, hsame]

namespace IsIdle

/-- The stripes of a dictionary that is found are idle. -/
theorem stripes_find? (h : s.IsIdle) (hd : s.database.find? name = some d) :
    s.database.stripes d = (d.striping.map Stripes.idle).getD [] := by
  obtain ⟨e, he, rfl⟩ := Option.map_eq_some_iff.mp hd
  have hname : e.1.name = name := by simpa using List.find?_some he
  unfold Database.stripes
  rw [hname, he]
  exact h.stripes_eq e (List.mem_of_find?_eq_some he)

/-- Replacing idle stripes by idle stripes changes nothing. -/
theorem setStripes_eq (h : s.IsIdle) (hd : s.database.find? name = some d) (pool : Pool)
    (snapshots : Snapshots) :
    { s.database with pool, snapshots }.setStripes d ((d.striping.map Stripes.idle).getD [])
      = { s.database with pool, snapshots } := by
  obtain ⟨e, he, rfl⟩ := Option.map_eq_some_iff.mp hd
  have hmem := List.mem_of_find?_eq_some he
  have hsame : s.database.dictionaries.map (fun x =>
      if x.1.name == e.1.name then (x.1, (e.1.striping.map Stripes.idle).getD []) else x)
      = s.database.dictionaries := by
    refine (List.map_congr_left fun x hx => ?_).trans (List.map_id _)
    by_cases hname : x.1.name = e.1.name
    · obtain rfl : x = e := List.inj_on_of_nodup_map h.nodup hx hmem hname
      simp [← h.stripes_eq x hx]
    · simp [hname]
  unfold Database.setStripes
  rw [hsame]

/-- The store after work of a dictionary that gave its stripes back. -/
theorem absorb_eq (h : s.IsIdle) (hd : s.database.find? name = some d) {b : Backend}
    (hstripes : b.stripes = (d.striping.map Stripes.idle).getD []) :
    s.absorb d s.database.pool b
      = ⟨b.engine, { s.database with snapshots := b.snapshots }⟩ := by
  unfold absorb
  rw [hstripes, h.setStripes_eq hd]

/-- What runs on the backend of a dictionary and gives its stripes back leaves the rest alone. -/
theorem onBackend {α : Type} (h : s.IsIdle) (hd : s.database.find? name = some d)
    {f : Pool → Backend → α × Pool × Backend} {a : α} {b : Backend}
    (hf : f s.database.pool (s.backend d) = (a, s.database.pool, b))
    (hstripes : b.stripes = (d.striping.map Stripes.idle).getD []) :
    Store.onBackend d f s = (a, ⟨b.engine, { s.database with snapshots := b.snapshots }⟩) := by
  rw [← h.absorb_eq hd hstripes]
  simp only [Store.onBackend, hf]

/-- What runs in two parts may leave anything behind in between. -/
theorem onBackend_twice {α β : Type} (h : s.IsIdle) (hd : s.database.find? name = some d)
    {f : Pool → Backend → α × Pool × Backend} {g : Pool → Backend → β × Pool × Backend} {a : α}
    {c : β} {p : Pool} {b₁ b : Backend} (hf : f s.database.pool (s.backend d) = (a, p, b₁))
    (hg : g p b₁ = (c, s.database.pool, b))
    (hstripes : b.stripes = (d.striping.map Stripes.idle).getD []) :
    ∃ s₁, Store.onBackend d f s = (a, s₁) ∧
      Store.onBackend d g s₁ = (c, ⟨b.engine, { s.database with snapshots := b.snapshots }⟩) := by
  refine ⟨s.absorb d p b₁, by simp only [Store.onBackend, hf], ?_⟩
  have hpool : (s.absorb d p b₁).database.pool = p := rfl
  rw [← h.absorb_eq hd hstripes, ← absorb_absorb s d p b₁ s.database.pool b]
  simp only [Store.onBackend, hpool, backend_absorb hd, hg]

end IsIdle

namespace IsIn

/-- The engine counts the batches of the world. -/
theorem sequence_eq (h : s.IsIn w) : s.engine.engine.sequence = w.ledger.history.length :=
  h.backend.agrees.represents.sequence_eq

theorem isIdle (h : s.IsIn w) : s.IsIdle := ⟨h.nodup, h.stripes_eq⟩

/-- A dictionary that is found is open, and its stripes are idle. -/
theorem find?_eq (h : s.IsIn w) (hd : s.database.find? name = some d) :
    d.name = name ∧ d.IsOpened s.database.config w ∧
      s.database.stripes d = (d.striping.map Stripes.idle).getD [] := by
  refine ⟨?_, ?_, h.isIdle.stripes_find? hd⟩
  · obtain ⟨e, he, rfl⟩ := Option.map_eq_some_iff.mp hd
    simpa using List.find?_some he
  · obtain ⟨e, he, rfl⟩ := Option.map_eq_some_iff.mp hd
    exact h.isOpened e (List.mem_of_find?_eq_some he)

/-- The store after its engine and its snapshots went to another world. -/
theorem moved (h : s.IsIn w) {b : Backend} (hb : b.IsIn w')
    (hnames : w'.ledger.names = w.ledger.names) :
    Store.IsIn ⟨b.engine, { s.database with snapshots := b.snapshots }⟩ w' := by
  exact ⟨⟨hb.reliable, hb.agrees, hb.covers, hb.counts, hb.isOpen, hb.pins_eq, hb.snapshots_eq, rfl⟩,
    h.isClosed_eq, h.pool, h.nodup, fun e he => (h.isOpened e he).of_names_eq hnames, h.stripes_eq⟩

/-- What runs on the backend of a dictionary takes the store along. -/
theorem onBackend {α : Type} (h : s.IsIn w) (hd : s.database.find? name = some d)
    {f : Pool → Backend → α × Pool × Backend} {a : α} {b : Backend}
    (hf : f s.database.pool (s.backend d) = (a, s.database.pool, b)) (hb : b.IsIn w')
    (hstripes : w'.stripes = (d.striping.map Stripes.idle).getD [])
    (hnames : w'.ledger.names = w.ledger.names) :
    ∃ s', Store.onBackend d f s = (a, s') ∧ s'.IsIn w' ∧ s.Keeps s' := by
  exact ⟨_, h.isIdle.onBackend hd hf (hb.stripes_eq.trans hstripes), h.moved hb hnames, rfl⟩

/-- The backend of a dictionary is in the world as its work sees it. -/
theorem backend_isIn (h : s.IsIn w) (hd : s.database.find? name = some d) :
    (s.backend d).IsIn (w.seenBy d) := by
  obtain ⟨-, -, hstripes⟩ := h.find?_eq hd
  have hb := h.backend
  exact ⟨hb.reliable, hb.agrees, hb.covers, hb.counts, hb.isOpen, hb.pins_eq, hb.snapshots_eq, hstripes⟩

/-- Work of a dictionary is run as it takes the dictionary at rest. -/
theorem submit {α : Type} (h : s.IsIn w) (hd : s.database.find? name = some d)
    {x : Work Empty α} {r : Outcome α} (hx : x.Takes (w.seenBy d) r w')
    (hstripes : w'.stripes = (w.seenBy d).stripes) (hnames : w'.ledger.names = w.ledger.names) :
    ∃ s', (Store.submit d x).run s = (r.toExcept, s') ∧ s'.IsIn w' ∧ s.Keeps s' := by
  obtain ⟨b, hends, hb⟩ := hx _ (h.backend_isIn hd)
  have hrun : s.database.pool.run x (s.backend d) = (r.toExcept, b) := by
    rw [Pool.run, h.pool.isClosed_eq]
    exact hends.run_eq
  refine h.onBackend (f := fun p b => ((p.run x b).1, p, (p.run x b).2)) hd ?_ hb hstripes hnames
  rw [hrun]

/-- Work that belongs to no dictionary finds no stripes. -/
theorem submitPlain {α : Type} (h : s.IsIn w) {x : Work Empty α} {r : Outcome α}
    (hx : x.Takes { w with stripes := [] } r w') (hnames : w'.ledger.names = w.ledger.names) :
    ∃ s', (Store.submitPlain x).run s = (r.toExcept, s') ∧ s'.IsIn w' ∧ s.Keeps s' := by
  obtain ⟨b, hends, hb⟩ := hx _ h.backend
  have hrun : s.database.pool.run x ⟨s.engine, s.database.snapshots, []⟩ = (r.toExcept, b) := by
    rw [Pool.run, h.pool.isClosed_eq]
    exact hends.run_eq
  refine ⟨⟨b.engine, { s.database with snapshots := b.snapshots }⟩, ?_, h.moved hb hnames, rfl⟩
  unfold Store.submitPlain
  simp only [ExceptT.run_mk, hrun]

end IsIn

end Store

end SnapshotStore
