import Mathlib.Data.List.Forall2
import Mathlib.Data.List.Perm.Subperm
import SnapshotStore.Proofs.Database.Plain

/-!
# Worlds that plain maps mirror

Plain maps mirror a world if every name has the contents of its column, and if every live snapshot
has the contents that its sequence refers to.  What keeps the copies right is that their sequences
are pinned: there is one pin for every live snapshot, so the release of one snapshot leaves the pins
of the others.

A name without a column counts as the column with the next number, which is empty in every state, so
that a snapshot also shows dictionaries which are opened later.
-/

namespace SnapshotStore

namespace World

/-- The column of a name. -/
def columnOf (w : World) (name : String) : Nat := w.ledger.names.idxOf name

/-- A name that is known has a column. -/
theorem hasColumn_columnOf {w : World} {name : String} (h : name ∈ w.ledger.names) :
    w.HasColumn (w.columnOf name) := List.idxOf_lt_length_of_mem h

/-- Different names have different columns. -/
theorem columnOf_ne {w : World} {name other : String} (h : name ∈ w.ledger.names)
    (hne : other ≠ name) : w.columnOf other ≠ w.columnOf name := fun heq =>
  hne ((List.idxOf_inj h).mp heq.symm).symm

end World

/-- Forgetting one snapshot does not touch the others. -/
theorem List.lookup_filter_ne {β : Type*} {live : List (Token × β)} {t t' : Token} (hne : t ≠ t') :
    (live.filter (·.1 ≠ t')).lookup t = live.lookup t := by
  induction live with
  | nil => rfl
  | cons x rest ih =>
    by_cases hx : x.1 = t'
    · have hother : (t == x.1) = false := by simpa [hx] using hne
      rw [List.filter_cons_of_neg (by simpa using hx), ih, List.lookup_cons, hother]
    · rw [List.filter_cons_of_pos (by simpa using hx), List.lookup_cons, List.lookup_cons, ih]

/-- Nothing is forgotten of a snapshot that is not there. -/
theorem Snapshots.forget_of_not_live {r : Snapshots} {t : Token} (h : r.sequence? t = none) :
    r.forget t = r := by
  have hall : r.live.filter (·.1 ≠ t) = r.live := List.filter_eq_self.mpr fun x hx => by
    simpa using Ne.symm (by simpa using List.lookup_eq_none_iff.mp h x hx : ¬ t = x.1)
  unfold forget
  rw [hall]

namespace PlainStore

/-- A copy shows what a live snapshot shows. -/
structure Shows (w : World) (copy : Token × (String → PlainMap)) (live : Token × Nat) : Prop where
  /-- They have the same number. -/
  token_eq : copy.1 = live.1
  /-- The snapshot was taken in the past. -/
  past : live.2 ≤ w.ledger.history.length
  /-- They have the same contents. -/
  get_eq : ∀ name, (copy.2 name).get = w.ledger.history.contents live.2 (w.columnOf name)

/-- Plain maps show what a world shows. -/
structure Mirrors (p : PlainStore) (w : World) : Prop where
  /-- Every name has the contents of its column. -/
  now : ∀ name, (p.now name).get = w.now (w.columnOf name)
  /-- Every copy shows what its snapshot shows. -/
  frozen : p.frozen.Forall₂ (Shows w) w.snapshots.live
  /-- The next snapshot gets the same number. -/
  nextId : p.nextId = w.snapshots.nextId
  /-- Every live snapshot has a pin. -/
  pinned : (w.snapshots.live.map (·.2)).Subperm w.pins

/-- The plain store without dictionaries mirrors an empty world. -/
theorem mirrors_empty (config : Config) : (empty config).Mirrors ⟨.empty, [], .empty, []⟩ :=
  ⟨fun _ => rfl, .nil, rfl, List.Subperm.refl _⟩

/-- A number has a copy exactly if its snapshot is live. -/
private theorem lookup_cases {w : World} {copies : List (Token × (String → PlainMap))}
    {live : List (Token × Nat)} (h : copies.Forall₂ (Shows w) live) (t : Token) :
    (∃ maps q, copies.lookup t = some maps ∧ live.lookup t = some q ∧ (t, q) ∈ live ∧
        ∀ name, (maps name).get = w.ledger.history.contents q (w.columnOf name)) ∨
      (copies.lookup t = none ∧ live.lookup t = none) := by
  induction h with
  | nil => exact .inr ⟨rfl, rfl⟩
  | @cons copy x copies live hshows _ ih =>
    obtain ⟨t₁, maps⟩ := copy
    obtain ⟨t₂, q⟩ := x
    obtain rfl : t₁ = t₂ := hshows.token_eq
    by_cases ht : t = t₁
    · subst ht
      exact .inl ⟨maps, q, by simp, by simp, by simp, hshows.get_eq⟩
    · have hne : (t == t₁) = false := by simpa using ht
      simp only [List.lookup_cons, hne]
      rcases ih with ⟨maps', q', hcopy, hlive, hmem, hget⟩ | hnone
      · exact .inl ⟨maps', q', hcopy, hlive, List.mem_cons_of_mem _ hmem, hget⟩
      · exact .inr hnone

namespace Mirrors

variable {p : PlainStore} {w w' : World} {name : String}

/-- Who holds which stripe makes no difference. -/
theorem with_stripes (h : p.Mirrors w) (l : Stripes) : p.Mirrors { w with stripes := l } :=
  ⟨h.now, h.frozen.imp fun _ _ hshows => ⟨hshows.token_eq, hshows.past, hshows.get_eq⟩, h.nextId,
    h.pinned⟩

/-- A snapshot shows the same maps on both sides, or is not there on either. -/
theorem shown_cases (h : p.Mirrors w) (token : Option Token) :
    (∃ maps view, p.shown token = .ok maps ∧ w.snapshots.resolve token = .ok view ∧
        w.CanRead view ∧ ∀ name, (maps name).get = w.seen (w.columnOf name) view) ∨
      (∃ e, p.shown token = .error e ∧ w.snapshots.resolve token = .error e) := by
  cases token with
  | none => exact .inl ⟨p.now, .latest, rfl, rfl, trivial, h.now⟩
  | some t =>
    rcases lookup_cases h.frozen t with ⟨maps, q, hcopy, hlive, hmem, hget⟩ | ⟨hcopy, hlive⟩
    · have hpinned : q ∈ w.pins := List.Subperm.subset h.pinned (List.mem_map.mpr ⟨(t, q), hmem, rfl⟩)
      exact .inl ⟨maps, .at q, by simp [shown, hcopy],
        by simp [Snapshots.resolve, Snapshots.sequence?, hlive], hpinned, hget⟩
    · exact .inr ⟨.snapshotNotFound t, by simp [shown, hcopy],
        by simp [Snapshots.resolve, Snapshots.sequence?, hlive]⟩

/-- A world with the same old states, snapshots and pins shows the same copies. -/
private theorem shows_of_contents_eq (hcolumn : ∀ name, w'.columnOf name = w.columnOf name)
    (hlength : w.ledger.history.length ≤ w'.ledger.history.length)
    (hcontents : ∀ q ≤ w.ledger.history.length, ∀ n,
      w'.ledger.history.contents q n = w.ledger.history.contents q n)
    (copy : Token × (String → PlainMap)) (live : Token × Nat) (h : Shows w copy live) :
    Shows w' copy live :=
  ⟨h.token_eq, Nat.le_trans h.past hlength, fun name => by
    rw [hcolumn, hcontents _ h.past, h.get_eq]⟩

/-- What is written to a column changes the map of its name. -/
theorem writes (h : p.Mirrors w) (hname : name ∈ w.ledger.names) {m : PlainMap}
    (hw : w.Writes (w.columnOf name) m.get w') : (p.set name m).Mirrors w' := by
  have hcolumn : ∀ other, w'.columnOf other = w.columnOf other := fun other => by
    unfold World.columnOf
    rw [hw.names_eq]
  refine ⟨fun other => ?_, ?_, ?_, ?_⟩
  · -- A column has one name, so the maps of the other names stay as they are.
    rw [hcolumn]
    show (Function.update p.now name m other).get = _
    by_cases hother : other = name
    · rw [hother, Function.update_self, hw.now]
    · rw [Function.update_of_ne hother, hw.now_of_ne (World.columnOf_ne hname hother)]
      exact h.now other
  · rw [hw.snapshots]
    exact h.frozen.imp (shows_of_contents_eq hcolumn hw.length_le fun q hq => hw.contents_eq hq)
  · rw [hw.snapshots]
    exact h.nextId
  · rw [hw.snapshots, hw.pins]
    exact h.pinned

/-- A new column is empty in every state, as its name was before. -/
theorem addColumn (h : p.Mirrors w) (hbatches : ∀ b ∈ w.ledger.history, b.1 < w.ledger.names.length)
    (name : String) :
    p.Mirrors { w with ledger := { w.ledger with names := w.ledger.names ++ [name] } } := by
  have hcontents : ∀ other q, w.ledger.history.contents q ((w.ledger.names ++ [name]).idxOf other)
      = w.ledger.history.contents q (w.columnOf other) := by
    intro other q
    by_cases hother : other ∈ w.ledger.names
    · rw [List.idxOf_append_of_mem hother]
      rfl
    · -- Neither the column that the name stood for nor the one it stands for now was written to.
      have hempty : ∀ n, w.ledger.names.length ≤ n → w.ledger.history.contents q n = .empty :=
        fun n hn => History.contents_eq_empty (fun b hb => Nat.ne_of_lt
          (Nat.lt_of_lt_of_le (hbatches b hb) hn)) q
      rw [List.idxOf_append_of_notMem hother, World.columnOf, List.idxOf_of_notMem hother,
        hempty _ (Nat.le_add_right ..), hempty _ (Nat.le_refl _)]
  refine ⟨fun other => (h.now other).trans (hcontents other _).symm, ?_, h.nextId, h.pinned⟩
  exact h.frozen.imp fun copy live hshows =>
    ⟨hshows.token_eq, hshows.past, fun other =>
      (hshows.get_eq other).trans (hcontents other _).symm⟩

/-- A new column is empty, as is a map that was never written. -/
theorem createColumn (h : p.Mirrors w)
    (hbatches : ∀ b ∈ w.ledger.history, b.1 < w.ledger.names.length) (name : String) :
    p.Mirrors { w with ledger := w.ledger.call (.createColumn name) } := by
  rw [Ledger.call]
  split
  · exact h.addColumn hbatches name
  · exact h

/-- A snapshot copies the maps. -/
theorem takeSnapshot (h : p.Mirrors w) :
    { p with frozen := p.frozen ++ [(p.nextId, p.now)], nextId := p.nextId + 1 : PlainStore }.Mirrors
      { w with
        pins := w.ledger.history.length :: w.pins
        snapshots := (w.snapshots.register w.ledger.history.length).2 } := by
  refine ⟨h.now, ?_, congrArg (· + 1) h.nextId, ?_⟩
  · refine List.rel_append (h.frozen.imp fun copy live hshows =>
      ⟨hshows.token_eq, hshows.past, hshows.get_eq⟩) (.cons ?_ .nil)
    exact { token_eq := h.nextId, past := Nat.le_refl _, get_eq := h.now }
  · have hperm : (w.snapshots.live.map (·.2) ++ [w.ledger.history.length]).Perm
        (w.ledger.history.length :: w.snapshots.live.map (·.2)) := List.perm_append_singleton ..
    have hpins := (List.subperm_cons w.ledger.history.length).mpr h.pinned
    simp only [Snapshots.register, List.map_append, List.map_cons, List.map_nil]
    exact hperm.subperm.trans hpins

/-- A snapshot is live on both sides or on none. -/
theorem live_cases (h : p.Mirrors w) (t : Token) :
    (∃ maps q, p.frozen.lookup t = some maps ∧ w.snapshots.sequence? t = some q) ∨
      (p.frozen.lookup t = none ∧ w.snapshots.sequence? t = none) :=
  (lookup_cases h.frozen t).imp_left fun ⟨maps, q, hcopy, hlive, _⟩ => ⟨maps, q, hcopy, hlive⟩

/-- The release of a snapshot takes its own pin away. -/
theorem releaseSnapshot (h : p.Mirrors w) {t : Token} {q : Nat}
    (ht : w.snapshots.sequence? t = some q) :
    { p with frozen := p.frozen.filter (·.1 ≠ t) : PlainStore }.Mirrors
      { w with pins := w.pins.erase q, snapshots := w.snapshots.forget t } := by
  have hmem : (t, q) ∈ w.snapshots.live := by
    rcases lookup_cases h.frozen t with ⟨maps, q', -, hlive, hmem, -⟩ | ⟨-, hlive⟩
    · obtain rfl : q' = q := Option.some.inj (hlive.symm.trans ht)
      exact hmem
    · exact absurd (hlive.symm.trans ht) (by simp)
  refine ⟨h.now, ?_, h.nextId, ?_⟩
  · have hfrozen := List.rel_filter (p := fun copy => copy.1 ≠ t) (q := fun live => live.1 ≠ t)
      (fun copy live hshows => by simp [hshows.token_eq]) h.frozen
    exact hfrozen.imp fun copy live hshows => ⟨hshows.token_eq, hshows.past, hshows.get_eq⟩
  · -- The forgotten snapshot and the others are among the live ones.
    have hothers : (q :: (w.snapshots.forget t).live.map (·.2)).Subperm
        (w.snapshots.live.map (·.2)) := by
      have hperm := List.perm_cons_erase hmem
      have hfilter := hperm.filter (·.1 ≠ t)
      rw [List.filter_cons_of_neg (by simp)] at hfilter
      have hsub := (hfilter.map (·.2)).subperm.trans
        (List.filter_sublist.map (Prod.snd : Token × Nat → Nat)).subperm
      have hback := (hperm.map (Prod.snd : Token × Nat → Nat)).symm.subperm
      exact ((List.subperm_cons q).mpr hsub).trans hback
    have hpinned : q ∈ w.pins := List.Subperm.subset h.pinned (List.mem_map.mpr ⟨(t, q), hmem, rfl⟩)
    have hpins := (hothers.trans h.pinned).trans (List.perm_cons_erase hpinned).subperm
    exact (List.subperm_cons q).mp hpins

end Mirrors

end PlainStore

end SnapshotStore
