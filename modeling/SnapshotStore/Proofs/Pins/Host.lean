import Mathlib.Algebra.BigOperators.Group.List.Basic
import SnapshotStore.Proofs.Database.Traffic
import SnapshotStore.Proofs.Pins.Request

/-!
# Hosts account for their pins

The pins of an engine belong to the live snapshots of the databases on it, or are held abroad, by
streams and counts (`Host.Accounts`).  An operation on one database that keeps the accounts of its
store keeps those of the host.  The register of a database gives out numbers in order and takes each
one back at most once (`Snapshots.Numbers`).
-/

universe u

namespace SnapshotStore

/-! ## Pins -/

variable {bad : EngineError → Prop} {α : Type}

/-- Replacing an element changes a sum by the difference of its parts. -/
theorem List.sum_map_set {β : Type u} {f : β → Nat} {l : List β} {k : Nat} {a : β}
    (h : l[k]? = some a) (b : β) : ((l.set k b).map f).sum + f a = (l.map f).sum + f b := by
  induction l generalizing k with
  | nil => simp at h
  | cons x rest ih =>
    cases k with
    | zero =>
      obtain rfl : x = a := by simpa using h
      simp
      omega
    | succ k =>
      have hrest := ih (by simpa using h)
      simp only [List.set_cons_succ, List.map_cons, List.sum_cons]
      omega

/-- Removing an element takes its part out of a sum. -/
theorem List.sum_map_eraseIdx {β : Type u} {f : β → Nat} {l : List β} {k : Nat} {a : β}
    (h : l[k]? = some a) : ((l.eraseIdx k).map f).sum + f a = (l.map f).sum := by
  induction l generalizing k with
  | nil => simp at h
  | cons x rest ih =>
    cases k with
    | zero =>
      obtain rfl : x = a := by simpa using h
      simp
      omega
    | succ k =>
      have hrest := ih (by simpa using h)
      simp only [List.eraseIdx_cons_succ, List.map_cons, List.sum_cons]
      omega

namespace Host

variable {h h' : Host} {i n : Nat} {db : Database} {e : FaultyEngine} {abroad abroad' : Nat → Nat → Nat}

/-- An operation on a database changes that database and its engine. -/
theorem on_eq_some {op : StateM Store α} {a : α} (heq : Host.on i op h = (some a, h')) :
    ∃ n db e, h.databases[i]? = some (n, db) ∧ h.engines[n]? = some e ∧ a = (op ⟨e, db⟩).1 ∧
      h' = ⟨h.engines.set n (op ⟨e, db⟩).2.engine,
        h.databases.set i (n, (op ⟨e, db⟩).2.database)⟩ := by
  unfold Host.on at heq
  split at heq
  · cases heq
  · rename_i n db hdb
    split at heq
    · cases heq
    · rename_i e he
      obtain ⟨ha, hh⟩ := Prod.mk.inj heq
      exact ⟨n, db, e, hdb, he, (Option.some.inj ha).symm, hh.symm⟩

/-- The same, if the engine of the database is known. -/
theorem on_eq_some_of {op : StateM Store α} {a : α} (hdb : ∃ db, h.databases[i]? = some (n, db))
    (heq : Host.on i op h = (some a, h')) :
    ∃ db e, h.databases[i]? = some (n, db) ∧ h.engines[n]? = some e ∧ a = (op ⟨e, db⟩).1 ∧
      h' = ⟨h.engines.set n (op ⟨e, db⟩).2.engine,
        h.databases.set i (n, (op ⟨e, db⟩).2.database)⟩ := by
  obtain ⟨_, db, e, hdb', he, ha, hhost⟩ := Host.on_eq_some heq
  obtain ⟨_, hdb⟩ := hdb
  obtain ⟨rfl, -⟩ := Prod.mk.inj (Option.some.inj (hdb.symm.trans hdb'))
  exact ⟨db, e, hdb', he, ha, hhost⟩

/-- The pins of a sequence that live snapshots of the databases on an engine have. -/
def pinned (h : Host) (n s : Nat) : Nat :=
  (h.databases.map fun x => if x.1 = n then x.2.snapshots.pinned.count s else 0).sum

/-- Every pin belongs to a live snapshot or is held abroad, by a stream or a count. -/
structure Accounts (bad : EngineError → Prop) (abroad : Nat → Nat → Nat) (h : Host) : Prop where
  /-- The pins of each sequence on each engine. -/
  pins : ∀ (n : Nat) (e : FaultyEngine), h.engines[n]? = some e →
    ∀ s, e.engine.pinCount s = h.pinned n s + abroad n s
  /-- No bad failure is scheduled. -/
  spares : ∀ (n : Nat) (e : FaultyEngine), h.engines[n]? = some e → e.Spares bad

/-- The pins of the other databases. -/
theorem pinned_set (hdb : h.databases[i]? = some (n, db)) (engines : List FaultyEngine)
    (db' : Database) (m s : Nat) :
    pinned ⟨engines, h.databases.set i (n, db')⟩ m s + (if n = m then db.snapshots.pinned.count s else 0)
      = h.pinned m s + if n = m then db'.snapshots.pinned.count s else 0 :=
  List.sum_map_set (f := fun x : Nat × Database => if x.1 = m then x.2.snapshots.pinned.count s else 0) hdb
    (n, db')

/-- The pins of a sequence that live snapshots of the other databases have. -/
def elsewhere (h : Host) (n : Nat) (db : Database) (s : Nat) : Nat :=
  h.pinned n s - db.snapshots.pinned.count s

/-- A database has no more pins than all together. -/
theorem count_le_pinned (hdb : h.databases[i]? = some (n, db)) (s : Nat) :
    db.snapshots.pinned.count s ≤ h.pinned n s := by
  have hempty := pinned_set hdb h.engines { db with snapshots := .empty } n s
  simp only [if_true, Snapshots.pinned, Snapshots.empty, List.map_nil, List.count_nil] at hempty ⊢
  omega

/-- To a database, the pins of other databases and those abroad are those of others. -/
theorem Accounts.store (hh : h.Accounts bad abroad) (hdb : h.databases[i]? = some (n, db))
    (he : h.engines[n]? = some e) :
    Store.Accounts bad (fun s => h.elsewhere n db s + abroad n s) ⟨e, db⟩ := by
  refine ⟨fun s => ?_, hh.spares n e he⟩
  have hpins := hh.pins n e he s
  have hle := count_le_pinned hdb s
  simp only [elsewhere]
  omega

/-- To a database, pins that are held abroad can be those of work of its own. -/
theorem Accounts.store_lent (hh : h.Accounts bad abroad) (hdb : h.databases[i]? = some (n, db))
    (he : h.engines[n]? = some e) (rest : Nat → Nat) {held : List Nat}
    (hrest : ∀ s, abroad n s = rest s + held.count s) :
    Store.Accounts bad (Backend.lent (fun s => h.elsewhere n db s + rest s) held) ⟨e, db⟩ :=
  (hh.store hdb he).congr fun s => by rw [hrest, ← Nat.add_assoc]; rfl

/-- What an operation keeps on its store, it keeps on the host. -/
theorem Accounts.absorb (hh : h.Accounts bad abroad) (hdb : h.databases[i]? = some (n, db))
    (he : h.engines[n]? = some e) {s' : Store}
    (hs' : s'.Accounts bad fun s => h.elsewhere n db s + abroad' n s)
    (hothers : ∀ m, m ≠ n → ∀ s, abroad' m s = abroad m s) :
    Accounts bad abroad' ⟨h.engines.set n s'.engine, h.databases.set i (n, s'.database)⟩ := by
  have hn := (List.getElem?_eq_some_iff.mp he).1
  refine ⟨fun m e' he' s => ?_, fun m e' he' => ?_⟩
  · have hset := pinned_set hdb (h.engines.set n s'.engine) s'.database m s
    -- One engine and one database have changed; the pins of all others are as they were.
    by_cases hm : m = n
    · subst hm
      have hpins' := hs'.pins s
      have hle := count_le_pinned hdb s
      obtain rfl : s'.engine = e' := Option.some.inj ((List.getElem?_set_self hn).symm.trans he')
      simp only [if_true, elsewhere] at hset hpins'
      omega
    · have hpins := hh.pins m e' ((List.getElem?_set_ne (Ne.symm hm)).symm.trans he') s
      rw [if_neg (Ne.symm hm), if_neg (Ne.symm hm)] at hset
      rw [hothers m hm]
      omega
  · by_cases hm : m = n
    · subst hm
      obtain rfl : s'.engine = e' := Option.some.inj ((List.getElem?_set_self hn).symm.trans he')
      exact hs'.spares
    · exact hh.spares m e' ((List.getElem?_set_ne (Ne.symm hm)).symm.trans he')

/-- A database without snapshots pins nothing. -/
theorem Accounts.create (hh : h.Accounts bad abroad) (hdb : db.snapshots = .empty) :
    Accounts bad abroad { h with databases := h.databases ++ [(n, db)] } := by
  refine ⟨fun m e he s => ?_, hh.spares⟩
  rw [hh.pins m e he s]
  simp [pinned, Snapshots.pinned, hdb, Snapshots.empty]

/-- Something is done to an engine that leaves its pins. -/
theorem Accounts.modify (hh : h.Accounts bad abroad) {f : FaultyEngine → FaultyEngine}
    (hpins : ∀ e : FaultyEngine, (f e).engine.pins = e.engine.pins)
    (hspares : ∀ e : FaultyEngine, e.Spares bad → (f e).Spares bad) :
    Accounts bad abroad { h with engines := h.engines.modify n f } := by
  have hengine : ∀ {m : Nat} {e : FaultyEngine}, (h.engines.modify n f)[m]? = some e →
      ∃ e₀ : FaultyEngine, h.engines[m]? = some e₀ ∧ (e = e₀ ∨ e = f e₀) := by
    intro m e he
    rw [List.getElem?_modify] at he
    obtain ⟨e₀, he₀, rfl⟩ := Option.map_eq_some_iff.mp he
    refine ⟨e₀, he₀, ?_⟩
    split
    · exact .inr rfl
    · exact .inl rfl
  refine ⟨fun m e he s => ?_, fun m e he => ?_⟩
  · obtain ⟨e₀, he₀, rfl | rfl⟩ := hengine he
    · exact hh.pins m e he₀ s
    · rw [Engine.pinCount, hpins]
      exact hh.pins m e₀ he₀ s
  · obtain ⟨e₀, he₀, rfl | rfl⟩ := hengine he
    · exact hh.spares m e he₀
    · exact hspares e₀ (hh.spares m e₀ he₀)

end Host

/-! ## Numbers of snapshots -/

namespace Snapshots

variable {r r' r'' : Snapshots} {issued released : List Token} {taken given : Option Token}

/-- A later register: snapshots that were taken show what they showed, or are gone. -/
structure Leads (r r' : Snapshots) : Prop where
  /-- Numbers are given out in order. -/
  nextId_le : r.nextId ≤ r'.nextId
  /-- What was taken is still there, or was released. -/
  sequence? : ∀ t < r.nextId, r'.sequence? t = r.sequence? t ∨ r'.sequence? t = none

/-- A register leads to itself. -/
theorem leads_refl (r : Snapshots) : r.Leads r := ⟨Nat.le_refl _, fun _ _ => .inl rfl⟩

/-- A register leads to all later ones. -/
theorem Leads.trans (h : r.Leads r') (h' : r'.Leads r'') : r.Leads r'' := by
  refine ⟨h.nextId_le.trans h'.nextId_le, fun t ht => ?_⟩
  rcases h'.sequence? t (Nat.lt_of_lt_of_le ht h.nextId_le) with heq | hgone
  · rw [heq]
    exact h.sequence? t ht
  · exact .inr hgone

/-- Every move of a register leads on: no token comes back. -/
theorem Moves.leads (h : r.Moves taken given r') : r.Leads r' := by
  cases h with
  | kept => exact r.leads_refl
  | closed => exact ⟨Nat.le_refl _, fun _ _ => .inr rfl⟩
  | taken q =>
    refine ⟨Nat.le_succ _, fun t ht => .inl ?_⟩
    have hne : (t == r.nextId) = false := by simpa using Nat.ne_of_lt ht
    simp [register, Snapshots.sequence?, List.lookup_append, List.lookup_cons, hne]
  | @released u q hu =>
    refine ⟨Nat.le_refl _, fun t ht => ?_⟩
    by_cases htu : t = u
    · refine .inr (List.lookup_eq_none_iff.mpr fun x hx => ?_)
      have hne : x.1 ≠ u := by simpa using (List.mem_filter.mp hx).2
      simpa [htu] using Ne.symm hne
    · exact .inl (List.lookup_filter_ne htu)

/-- The register gave out the numbers `issued`, and took back the numbers `released`. -/
structure Numbers (r : Snapshots) (issued released : List Token) : Prop where
  /-- The next number follows those that were given out. -/
  nextId_eq : r.nextId = issued.length + 1
  /-- Numbers are given out in order, from 1 on. -/
  issued_eq : issued = List.range' 1 issued.length
  /-- Live snapshots have different numbers. -/
  nodup : (r.live.map (·.1)).Nodup
  /-- A live snapshot was taken and not released. -/
  live : ∀ t ∈ r.live.map (·.1), t ∈ issued ∧ t ∉ released
  /-- No number is taken back twice. -/
  released_nodup : released.Nodup
  /-- Only numbers that were given out are taken back. -/
  released_sub : ∀ t ∈ released, t ∈ issued

/-- Nothing was issued by a new register. -/
theorem numbers_empty : empty.Numbers [] [] :=
  ⟨rfl, rfl, List.nodup_nil, nofun, List.nodup_nil, nofun⟩

/-- The next number was not given out before. -/
theorem Numbers.nextId_not_mem (h : r.Numbers issued released) : r.nextId ∉ issued := by
  rw [h.issued_eq, List.mem_range'_1, h.nextId_eq]
  omega

/-- The next number will show what is registered under it. -/
theorem Numbers.sequence?_register (h : r.Numbers issued released) (q : Nat) :
    (r.register q).2.sequence? r.nextId = some q := by
  have hnone : r.live.lookup r.nextId = none := List.lookup_eq_none_iff.mpr fun x hx => by
    have hmem : x.1 ∈ r.live.map (·.1) := List.mem_map_of_mem hx
    have hne : r.nextId ≠ x.1 := fun heq => h.nextId_not_mem (heq ▸ (h.live _ hmem).1)
    simpa using hne
  simp [register, Snapshots.sequence?, List.lookup_append, hnone]

/-- A move issues at most the next number and releases at most a live one. -/
theorem Numbers.moves (h : r.Numbers issued released) (hmoves : r.Moves taken given r') :
    r'.Numbers (issued ++ taken.toList) (released ++ given.toList) := by
  have hnext := h.nextId_not_mem
  cases hmoves with
  | kept => simpa using h
  | closed =>
    simp only [Option.toList_none, List.append_nil]
    exact ⟨h.nextId_eq, h.issued_eq, List.nodup_nil, nofun, h.released_nodup, h.released_sub⟩
  | taken q =>
    -- The new number is next in line, so it was not issued, and not released.
    simp only [Option.toList_none, Option.toList_some, List.append_nil]
    refine ⟨?_, ?_, ?_, fun t ht => ?_, h.released_nodup, fun t ht =>
      List.mem_append_left _ (h.released_sub t ht)⟩
    · simp [register, h.nextId_eq]
    · rw [List.length_append, List.length_singleton, List.range'_concat, ← h.issued_eq, h.nextId_eq]
      simp [Nat.add_comm]
    · simp only [register, List.map_append, List.map_cons, List.map_nil]
      refine List.nodup_append.mpr ⟨h.nodup, List.nodup_singleton _, fun t ht u hu heq => ?_⟩
      rw [List.mem_singleton.mp hu] at heq
      exact hnext (heq ▸ (h.live t ht).1)
    · simp only [register, List.map_append, List.map_cons, List.map_nil, List.mem_append,
        List.mem_singleton] at ht
      rcases ht with ht | rfl
      · exact ⟨List.mem_append_left _ (h.live t ht).1, (h.live t ht).2⟩
      · exact ⟨List.mem_append_right _ (List.mem_singleton_self _), fun hreleased =>
          hnext (h.released_sub _ hreleased)⟩
  | @released t q ht =>
    -- A live number was issued and not released before, so it is released for the first time.
    simp only [Option.toList_none, Option.toList_some, List.append_nil]
    have hlive : t ∈ r.live.map (·.1) := List.mem_map.mpr ⟨_, mem_live_of_sequence? ht, rfl⟩
    obtain ⟨hissued, hreleased⟩ := h.live t hlive
    have hsub : ((r.forget t).live.map (·.1)).Sublist (r.live.map (·.1)) :=
      (List.filter_sublist).map _
    refine ⟨h.nextId_eq, h.issued_eq, h.nodup.sublist hsub, fun u hu => ?_, ?_, fun u hu => ?_⟩
    · refine ⟨(h.live u (hsub.subset hu)).1, fun hmem => ?_⟩
      rcases List.mem_append.mp hmem with hmem | hmem
      · exact (h.live u (hsub.subset hu)).2 hmem
      · obtain rfl := List.mem_singleton.mp hmem
        obtain ⟨x, hx, hxu⟩ := List.mem_map.mp hu
        simpa [hxu] using (List.mem_filter.mp hx).2
    · refine List.nodup_append.mpr ⟨h.released_nodup, List.nodup_singleton t, fun u hu v hv heq => ?_⟩
      rw [List.mem_singleton.mp hv] at heq
      exact hreleased (heq ▸ hu)
    · rcases List.mem_append.mp hu with hu | hu
      · exact h.released_sub u hu
      · rw [List.mem_singleton.mp hu]
        exact hissued

/-- A token shows a sequence if it is live with it. -/
theorem resolve_eq_at_iff {t : Token} {s : Nat} (hnodup : (r.live.map (·.1)).Nodup) :
    r.resolve (some t) = .ok (.at s) ↔ (t, s) ∈ r.live := by
  constructor
  · intro h
    obtain ⟨_, heq, ht⟩ := resolve_eq_at h
    obtain rfl := Option.some.inj heq
    exact mem_live_of_sequence? ht
  · intro h
    have hlookup : r.sequence? t = some s := by
      -- The lookup finds the first entry of the token, and there is only one.
      obtain ⟨before, after, hlive⟩ := List.append_of_mem h
      refine List.lookup_eq_some_iff.mpr ⟨before, after, hlive, fun x hx => ?_⟩
      rw [hlive, List.map_append, List.map_cons] at hnodup
      have hne := (List.nodup_append.mp hnodup).2.2 x.1 (List.mem_map_of_mem hx) t List.mem_cons_self
      simpa using Ne.symm hne
    simp [resolve, hlookup]

/-- A snapshot that is not live shows nothing. -/
theorem resolve_eq_error {t : Token} (h : t ∉ r.live.map (·.1)) :
    r.resolve (some t) = .error (.snapshotNotFound t) := by
  have hnone : r.sequence? t = none :=
    List.lookup_eq_none_iff.mpr fun x hx => by
      simpa using fun heq : t = x.1 => h (heq ▸ List.mem_map_of_mem hx)
  simp [resolve, hnone]

/-- The live snapshots that show a sequence. -/
def showing (r : Snapshots) (s : Nat) : List Token := (r.live.filter fun x => x.2 = s).map (·.1)

/-- As many tokens show a sequence as pins of it belong to the register. -/
theorem length_showing (r : Snapshots) (s : Nat) : (r.showing s).length = r.pinned.count s := by
  rw [showing, List.length_map, ← List.countP_eq_length_filter, pinned, List.count, List.countP_map]
  exact List.countP_congr fun x _ => by simp

/-- These are the tokens that resolve to it. -/
theorem mem_showing {t : Token} {s : Nat} (hnodup : (r.live.map (·.1)).Nodup) :
    t ∈ r.showing s ↔ r.resolve (some t) = .ok (.at s) := by
  rw [resolve_eq_at_iff hnodup, showing, List.mem_map]
  constructor
  · rintro ⟨x, hx, rfl⟩
    obtain ⟨hlive, hs⟩ := List.mem_filter.mp hx
    rwa [← of_decide_eq_true hs]
  · exact fun hlive => ⟨(t, s), List.mem_filter.mpr ⟨hlive, decide_eq_true rfl⟩, rfl⟩

end Snapshots

namespace Host

/-- A later host: its engines have evolved, and its databases are still there. -/
structure Leads (h h' : Host) : Prop where
  /-- No engine is added. -/
  length_eq : h'.engines.length = h.engines.length
  /-- Every engine has evolved. -/
  engines : ∀ (n : Nat) (e : FaultyEngine), h.engines[n]? = some e →
    ∃ e' : FaultyEngine, h'.engines[n]? = some e' ∧ e.engine.Evolves e'.engine
  /-- Every database is on its engine. -/
  databases : ∀ (i n : Nat) (db : Database), h.databases[i]? = some (n, db) →
    ∃ db' : Database, h'.databases[i]? = some (n, db') ∧ db.snapshots.Leads db'.snapshots

section Leads

variable {h h' h'' : Host} {i n : Nat} {db : Database} {e : FaultyEngine}

/-- A host leads to itself. -/
theorem leads_refl (h : Host) : h.Leads h :=
  ⟨rfl, fun _ e he => ⟨e, he, .refl⟩, fun _ _ db hdb => ⟨db, hdb, db.snapshots.leads_refl⟩⟩

/-- A host leads to all later ones. -/
theorem Leads.trans (h₁ : h.Leads h') (h₂ : h'.Leads h'') : h.Leads h'' := by
  refine ⟨h₂.length_eq.trans h₁.length_eq, fun n e he => ?_, fun i n db hdb => ?_⟩
  · obtain ⟨e', he', hevolves⟩ := h₁.engines n e he
    obtain ⟨e'', he'', hevolves'⟩ := h₂.engines n e' he'
    exact ⟨e'', he'', hevolves.trans hevolves'⟩
  · obtain ⟨db', hdb', hleads⟩ := h₁.databases i n db hdb
    obtain ⟨db'', hdb'', hleads'⟩ := h₂.databases i n db' hdb'
    exact ⟨db'', hdb'', hleads.trans hleads'⟩

/-- An operation on a database leads to a later host. -/
theorem leads_set (hdb : h.databases[i]? = some (n, db)) (he : h.engines[n]? = some e) {s' : Store}
    (hevolves : e.engine.Evolves s'.engine.engine) (hlive : db.snapshots.Leads s'.database.snapshots) :
    h.Leads ⟨h.engines.set n s'.engine, h.databases.set i (n, s'.database)⟩ := by
  refine ⟨List.length_set, fun m e₁ he₁ => ?_, fun j m db₁ hdb₁ => ?_⟩
  · by_cases hm : n = m
    · subst hm
      obtain rfl := Option.some.inj (he.symm.trans he₁)
      exact ⟨s'.engine, List.getElem?_set_self (List.getElem?_eq_some_iff.mp he).1, hevolves⟩
    · exact ⟨e₁, (List.getElem?_set_ne hm).trans he₁, .refl⟩
  · by_cases hij : i = j
    · subst hij
      obtain ⟨rfl, rfl⟩ := Prod.mk.inj (Option.some.inj (hdb.symm.trans hdb₁))
      exact ⟨s'.database, List.getElem?_set_self (List.getElem?_eq_some_iff.mp hdb).1, hlive⟩
    · exact ⟨db₁, (List.getElem?_set_ne hij).trans hdb₁, db₁.snapshots.leads_refl⟩

/-- An operation on an engine leads to a later host. -/
theorem leads_modify {f : FaultyEngine → FaultyEngine}
    (hf : ∀ e : FaultyEngine, e.engine.Evolves (f e).engine) :
    h.Leads { h with engines := h.engines.modify n f } := by
  refine ⟨List.length_modify .., fun m e he => ?_, fun _ _ db hdb =>
    ⟨db, hdb, db.snapshots.leads_refl⟩⟩
  rw [List.getElem?_modify, he]
  by_cases hm : n = m
  · exact ⟨f e, by simp [hm], hf e⟩
  · exact ⟨e, by simp [hm], .refl⟩

end Leads

end Host

/-- What leaves the snapshots of a database leads to a later host. -/
theorem Store.After.leads {bad : EngineError → Prop} {others : Nat → Nat} {h : Host} {i n : Nat}
    {db : Database} {e : FaultyEngine} {s' : Store} (hafter : Store.After bad others ⟨e, db⟩ s')
    (hdb : h.databases[i]? = some (n, db)) (he : h.engines[n]? = some e) :
    h.Leads ⟨h.engines.set n s'.engine, h.databases.set i (n, s'.database)⟩ :=
  Host.leads_set hdb he hafter.evolves (hafter.snapshots_eq ▸ db.snapshots.leads_refl)

namespace Host

/-! ## Snapshots that show a sequence -/

/-- The snapshots of databases on an engine that show a sequence. -/
def showing (h : Host) (n s : Nat) : List (Nat × Token) :=
  h.databases.zipIdx.flatMap fun x =>
    if x.1.1 = n then (x.1.2.snapshots.showing s).map (x.2, ·) else []

variable {h : Host} {n s : Nat}

/-- As many snapshots of a host show a sequence of an engine as pins belong to its databases. -/
theorem length_showing : (h.showing n s).length = h.pinned n s := by
  have hlength : ∀ (databases : List (Nat × Database)) (start : Nat),
      ((databases.zipIdx start).flatMap fun x =>
        if x.1.1 = n then (x.1.2.snapshots.showing s).map (x.2, ·) else []).length
        = (databases.map fun x => if x.1 = n then x.2.snapshots.pinned.count s else 0).sum := by
    -- The numbers that the databases get when they are listed do not matter for the count.
    intro databases
    induction databases with
    | nil => exact fun _ => rfl
    | cons x rest ih =>
      intro start
      rw [List.zipIdx_cons, List.flatMap_cons, List.length_append, ih, List.map_cons, List.sum_cons]
      congr 1
      split
      · rw [List.length_map, Snapshots.length_showing]
      · rfl
  exact hlength _ _

/-- They are named by their database and their token. -/
theorem mem_showing {x : Nat × Token}
    (hnodup : ∀ (i n : Nat) (db : Database), h.databases[i]? = some (n, db) →
      (db.snapshots.live.map (·.1)).Nodup) :
    x ∈ h.showing n s ↔
      ∃ db, h.databases[x.1]? = some (n, db) ∧ db.snapshots.resolve (some x.2) = .ok (.at s) := by
  unfold showing
  rw [List.mem_flatMap]
  constructor
  · rintro ⟨⟨⟨m, db⟩, i⟩, hdb, hx⟩
    have hdb := List.mem_zipIdx_iff_getElem?.mp hdb
    split at hx
    · next hm =>
      dsimp only at hm hdb
      subst hm
      obtain ⟨t, ht, rfl⟩ := List.mem_map.mp hx
      exact ⟨db, hdb, (Snapshots.mem_showing (hnodup _ _ _ hdb)).mp ht⟩
    · cases hx
  · rintro ⟨db, hdb, hresolve⟩
    refine ⟨((n, db), x.1), List.mem_zipIdx_iff_getElem?.mpr hdb, ?_⟩
    rw [if_pos rfl]
    exact List.mem_map.mpr ⟨x.2, (Snapshots.mem_showing (hnodup _ _ _ hdb)).mpr hresolve, rfl⟩

/-- No snapshot is named twice. -/
theorem nodup_showing
    (hnodup : ∀ (i n : Nat) (db : Database), h.databases[i]? = some (n, db) →
      (db.snapshots.live.map (·.1)).Nodup) : (h.showing n s).Nodup := by
  refine List.nodup_flatMap.mpr ⟨fun x hx => ?_, ?_⟩
  · split
    · have hlive := hnodup _ _ _ (List.mem_zipIdx_iff_getElem?.mp hx)
      exact (hlive.sublist (List.filter_sublist.map _)).map fun _ _ heq => (Prod.mk.inj heq).2
    · exact List.nodup_nil
  -- Snapshots of different databases are different.
  · have hindices : (h.databases.zipIdx.map Prod.snd).Nodup := by
      rw [List.zipIdx_map_snd]
      exact List.nodup_range'
    have hindex : ∀ {x : (Nat × Database) × Nat} {z : Nat × Token},
        z ∈ (if x.1.1 = n then (x.1.2.snapshots.showing s).map (x.2, ·) else []) → z.1 = x.2 := by
      intro x z hz
      split at hz
      · obtain ⟨t, -, rfl⟩ := List.mem_map.mp hz
        rfl
      · cases hz
    refine (List.pairwise_map.mp hindices).imp fun {x y} hne z hx hy => ?_
    exact hne ((hindex hx).symm.trans (hindex hy))

end Host

end SnapshotStore
