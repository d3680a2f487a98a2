import SnapshotStore.Proofs.Engine.FilterSound
import SnapshotStore.Proofs.Engine.LiveCount

/-!
# What work makes of the world it runs in

A world is what a backend looks like to work that runs on it: what was committed, which sequences
are pinned, which snapshots are registered and who holds which stripe.  How the engine keeps all
that does not matter; a backend is in a world if its engine works, agrees with the ledger, has
filters that hide nothing and counts its live keys (`Backend.IsIn`).

`Work.Takes` is the specification of work: run alone in one world, it ends in a given way and in a
given other world.  Every effect and every way to put work together has its rule.  Work that writes
to one column in batches of its own choice is specified by what it makes of the contents of that
column (`World.Writes`).
-/

namespace SnapshotStore

/-- What a backend looks like to work that runs on it. -/
structure World where
  /-- What was committed. -/
  ledger : Ledger
  /-- The pinned sequences, one element a pin. -/
  pins : List Nat
  /-- The registered snapshots. -/
  snapshots : Snapshots
  /-- The locks of the dictionary. -/
  stripes : Stripes

namespace World

/-- The newest contents of a column. -/
def now (w : World) (n : Nat) : Contents := w.ledger.history.latest n

/-- The contents of a column that a view refers to. -/
def seen (w : World) (n : Nat) : ReadView → Contents
  | .latest => w.now n
  | .at s => w.ledger.history.contents s n

/-- A view can be read: it is the newest state, or its sequence is pinned. -/
def CanRead (w : World) : ReadView → Prop
  | .latest => True
  | .at s => s ∈ w.pins

/-- There is a column with a number. -/
def HasColumn (w : World) (n : Nat) : Prop := n < w.ledger.names.length

/-- The world after a batch was committed. -/
def commit (w : World) (n : Nat) (batch : WriteBatch) : World :=
  { w with ledger := { w.ledger with history := w.ledger.history ++ [(n, batch)] } }

/-- A commit changes what its own column holds, and no other column. -/
theorem now_commit (w : World) (n : Nat) (batch : WriteBatch) (m : Nat) :
    (w.commit n batch).now m = if n = m then (w.now m).applyAll batch else w.now m :=
  History.latest_concat ..

/-- The world after batches were committed to one column. -/
def commits (w : World) (n : Nat) (batches : List WriteBatch) : World :=
  { w with
    ledger := { w.ledger with history := w.ledger.history ++ batches.map fun batch => (n, batch) } }

/-- Without batches nothing is committed. -/
@[simp] theorem commits_nil (w : World) (n : Nat) : w.commits n [] = w := by
  simp [commits]

/-- The first batch is committed first. -/
theorem commits_cons (w : World) (n : Nat) (batch : WriteBatch) (batches : List WriteBatch) :
    w.commits n (batch :: batches) = (w.commit n batch).commits n batches := by
  simp [commit, commits]

/-- Batches are committed in their order. -/
theorem commits_append (w : World) (n : Nat) (batches batches' : List WriteBatch) :
    w.commits n (batches ++ batches') = (w.commits n batches).commits n batches' := by
  simp [commits]

/-- Batches were committed to one column, and nothing else changed. -/
structure Writes (w : World) (n : Nat) (m : Contents) (w' : World) : Prop where
  /-- The batches went to the column. -/
  ledger : ∃ more : History, (∀ b ∈ more, b.1 = n) ∧
    w'.ledger = { w.ledger with history := w.ledger.history ++ more }
  /-- The pins are the same. -/
  pins : w'.pins = w.pins
  /-- The snapshots are the same. -/
  snapshots : w'.snapshots = w.snapshots
  /-- The locks are the same. -/
  stripes : w'.stripes = w.stripes
  /-- What the column holds now. -/
  now : w'.now n = m

namespace Writes

variable {w w' w'' : World} {n : Nat} {m m' : Contents}

/-- A column holds what it holds. -/
theorem refl (w : World) (n : Nat) : w.Writes n (w.now n) w :=
  ⟨⟨[], by simp, by simp⟩, rfl, rfl, rfl, rfl⟩

/-- A commit writes one batch. -/
theorem commit (w : World) (n : Nat) (batch : WriteBatch) :
    w.Writes n ((w.now n).applyAll batch) (w.commit n batch) :=
  ⟨⟨[(n, batch)], by simp, rfl⟩, rfl, rfl, rfl, by rw [now_commit, if_pos rfl]⟩

/-- Commits write their batches as if they were one. -/
theorem commits (w : World) (n : Nat) (batches : List WriteBatch) :
    w.Writes n ((w.now n).applyAll batches.flatten) (w.commits n batches) :=
  ⟨⟨_, by simp, rfl⟩, rfl, rfl, rfl, w.ledger.history.latest_append_batches n batches⟩

/-- What is written in two steps is written in one. -/
theorem trans (h : w.Writes n m w') (h' : w'.Writes n m' w'') : w.Writes n m' w'' := by
  obtain ⟨more, hmore, hledger⟩ := h.ledger
  obtain ⟨more', hmore', hledger'⟩ := h'.ledger
  refine ⟨⟨more ++ more', fun b hb => ?_, ?_⟩, h'.pins.trans h.pins,
    h'.snapshots.trans h.snapshots, h'.stripes.trans h.stripes, h'.now⟩
  · rcases List.mem_append.mp hb with hb | hb
    · exact hmore b hb
    · exact hmore' b hb
  · rw [hledger', hledger, List.append_assoc]

/-- Writes create no column. -/
theorem names_eq (h : w.Writes n m w') : w'.ledger.names = w.ledger.names := by
  obtain ⟨more, -, hledger⟩ := h.ledger
  rw [hledger]

/-- Every column stays where it was. -/
theorem hasColumn (h : w.Writes n m w') {k : Nat} (hk : w.HasColumn k) : w'.HasColumn k := by
  unfold HasColumn
  rw [h.names_eq]
  exact hk

/-- An old state stays as it is. -/
theorem contents_eq (h : w.Writes n m w') {s : Nat} (hs : s ≤ w.ledger.history.length) (k : Nat) :
    w'.ledger.history.contents s k = w.ledger.history.contents s k := by
  obtain ⟨more, -, hledger⟩ := h.ledger
  rw [hledger, History.contents_append hs]

/-- Writes only add to the history. -/
theorem length_le (h : w.Writes n m w') :
    w.ledger.history.length ≤ w'.ledger.history.length := by
  obtain ⟨more, -, hledger⟩ := h.ledger
  simp [hledger]

/-- Pins that were only there meanwhile make no difference. -/
theorem with_pins {pins : List Nat} (h : Writes { w with pins } n m w') :
    w.Writes n m { w' with pins := w.pins } := ⟨h.ledger, rfl, h.snapshots, h.stripes, h.now⟩

/-- Neither do stripes that were only held meanwhile. -/
theorem with_stripes {stripes : Stripes} (h : Writes { w with stripes } n m w') :
    w.Writes n m { w' with stripes := w.stripes } := ⟨h.ledger, h.pins, h.snapshots, rfl, h.now⟩

/-- The other columns stay as they are. -/
theorem now_of_ne (h : w.Writes n m w') {k : Nat} (hk : k ≠ n) : w'.now k = w.now k := by
  obtain ⟨more, hmore, hledger⟩ := h.ledger
  unfold World.now
  rw [hledger]
  exact History.latest_append_of_ne _ fun b hb heq => hk (heq.symm.trans (hmore b hb))

end Writes

end World

/-- A backend that works, in a world. -/
structure Backend.IsIn (b : Backend) (w : World) : Prop where
  /-- No failure is scheduled. -/
  reliable : b.engine.faults = []
  /-- The engine is what the ledger says. -/
  agrees : b.engine.engine.Agrees w.ledger
  /-- The filters hide nothing. -/
  covers : b.engine.engine.Covers
  /-- The counters of live keys are exact. -/
  counts : b.engine.engine.Counts
  /-- The engine is open. -/
  isOpen : w.ledger.isOpen = true
  /-- The pins are those of the world. -/
  pins_eq : b.engine.engine.pins = w.pins
  /-- The snapshots are those of the world. -/
  snapshots_eq : b.snapshots = w.snapshots
  /-- The locks are those of the world. -/
  stripes_eq : b.stripes = w.stripes

namespace Backend.IsIn

variable {b : Backend} {w : World} {n : Nat}

/-- The engine behind a world has no faults to come. -/
theorem engine_eq (h : b.IsIn w) : b.engine = .reliable b.engine.engine := by
  have hfaults := h.reliable
  cases hb : b.engine with
  | mk engine faults => simp_all [FaultyEngine.reliable]

/-- It is open. -/
theorem isClosed_eq (h : b.IsIn w) : b.engine.engine.isClosed = false :=
  h.agrees.isClosed_of_open h.isOpen

/-- It has the columns of the world. -/
theorem column_eq (h : b.IsIn w) (hn : w.HasColumn n) :
    ∃ c, b.engine.engine.columns[n]? = some c :=
  ⟨_, List.getElem?_eq_getElem (h.agrees.length_names ▸ hn)⟩

/-- It can read what the world can. -/
theorem canRead (h : b.IsIn w) {view : ReadView} (hview : w.CanRead view) :
    b.engine.engine.CanRead view := by
  cases view with
  | latest => trivial
  | «at» s => exact show s ∈ b.engine.engine.pins from h.pins_eq ▸ hview

/-- It reads what the world shows. -/
theorem get_eq (h : b.IsIn w) (hn : w.HasColumn n) {view : ReadView} (hview : w.CanRead view)
    (key : Bytes) : b.engine.engine.get n view key = .ok (w.seen n view key) := by
  rw [h.agrees.get_eq, if_neg (by simp [h.isOpen]), if_neg (Nat.not_le.mpr hn)]
  cases view with
  | latest => rfl
  | «at» s =>
    have hpos : 0 < b.engine.engine.pinCount s :=
      List.count_pos_iff.mpr (h.pins_eq ▸ hview)
    simp only [if_pos hpos]
    rfl

/-- A call of the engine changes the world by what it commits and by what it pins. -/
theorem answer (h : b.IsIn w) (c : EngineCall) :
    Backend.IsIn { b with engine := .reliable (b.engine.engine.answer c).2 }
      { w with
        ledger := w.ledger.call c
        pins := Engine.pinnedBy c (b.engine.engine.answer c).1 ++ w.pins } where
  reliable := rfl
  agrees := h.agrees.call c
  covers := (b.engine.engine.changes_answer c).covers h.covers
  counts := (b.engine.engine.changes_answer c).counts h.counts
  -- A call never closes an engine, so the ledger stays open as well.
  isOpen := by
    have hagrees := h.agrees.call c
    have hclosed := (b.engine.engine.changes_answer c).isClosed_eq
    simpa [hagrees.isClosed_eq, h.isClosed_eq] using hclosed
  pins_eq := by
    rw [← h.pins_eq]
    exact (b.engine.engine.changes_answer c).pins_eq
  snapshots_eq := h.snapshots_eq
  stripes_eq := h.stripes_eq

/-- A sequence is unpinned. -/
theorem unpin (h : b.IsIn w) (s : Nat) :
    Backend.IsIn { b with engine := b.engine.modify (·.unpin s) }
      { w with pins := w.pins.erase s } where
  reliable := h.reliable
  agrees := h.agrees.unpin s
  covers := h.covers
  counts := h.counts
  isOpen := h.isOpen
  pins_eq := congrArg (·.erase s) h.pins_eq
  snapshots_eq := h.snapshots_eq
  stripes_eq := h.stripes_eq

/-- Nothing was committed. -/
theorem commits_nil (h : b.IsIn w) (n : Nat) : b.IsIn (w.commits n []) := by
  rwa [World.commits_nil]

/-- Only the snapshots changed. -/
theorem with_snapshots (h : b.IsIn w) (snapshots : Snapshots) :
    Backend.IsIn { b with snapshots } { w with snapshots } :=
  ⟨h.reliable, h.agrees, h.covers, h.counts, h.isOpen, h.pins_eq, rfl, h.stripes_eq⟩

/-- Only the locks changed. -/
theorem with_stripes (h : b.IsIn w) (stripes : Stripes) :
    Backend.IsIn { b with stripes } { w with stripes } :=
  ⟨h.reliable, h.agrees, h.covers, h.counts, h.isOpen, h.pins_eq, h.snapshots_eq, rfl⟩

/-- Only one lock changed. -/
theorem setLock (h : b.IsIn w) (i : Nat) (l : StampedLock) :
    (b.setLock i l).IsIn { w with stripes := List.set w.stripes i l } :=
  h.stripes_eq ▸ h.with_stripes (List.set b.stripes i l)

end Backend.IsIn

namespace Work

variable {ε α β : Type} {x : Work ε α} {w w₁ w₂ : World} {r : Outcome α}

/-- Run alone in one world, the work ends in a given way and in a given world. -/
def Takes (x : Work ε α) (w : World) (r : Outcome α) (w' : World) : Prop :=
  ∀ b : Backend, b.IsIn w → ∃ b', x.EndsIn b r b' ∧ b'.IsIn w'

/-! ## Putting work together -/

/-- A value is the end of work that does nothing. -/
theorem takes_pure (a : α) (w : World) : (pure a : Work ε α).Takes w (.done a) w :=
  fun b hb => ⟨b, endsIn_pure a b, hb⟩

/-- Finished work leaves the world as it is. -/
theorem takes_finish (r : Outcome α) (w : World) : (finish r : Work ε α).Takes w r w :=
  fun b hb => ⟨b, endsIn_finish r b, hb⟩

/-- The second part of work begins in the world where the first one ends. -/
theorem Takes.bind {f : α → Work ε β} {a : α} {r : Outcome β} (h : x.Takes w (.done a) w₁)
    (hf : (f a).Takes w₁ r w₂) : (x >>= f).Takes w r w₂ := by
  intro b hb
  obtain ⟨b₁, hx, hb₁⟩ := h b hb
  obtain ⟨b₂, hfa, hb₂⟩ := hf b₁ hb₁
  exact ⟨b₂, hx.bind hfa, hb₂⟩

/-- A failure ends the work, and its second part is not begun. -/
theorem Takes.bind_failed {f : α → Work ε β} {e : StoreError} (h : x.Takes w (.failed e) w₁) :
    (x >>= f).Takes w (.failed e) w₁ := by
  intro b hb
  obtain ⟨b₁, hx, hb₁⟩ := h b hb
  exact ⟨b₁, hx.bind_failed, hb₁⟩

/-- So does a panic. -/
theorem Takes.bind_panicked {f : α → Work ε β} (h : x.Takes w .panicked w₁) :
    (x >>= f).Takes w .panicked w₁ := by
  intro b hb
  obtain ⟨b₁, hx, hb₁⟩ := h b hb
  exact ⟨b₁, hx.bind_panicked, hb₁⟩

/-- A change of the value changes nothing else. -/
theorem Takes.map {f : α → β} {a : α} (h : x.Takes w (.done a) w₁) :
    (f <$> x).Takes w (.done (f a)) w₁ := h.bind (takes_pure _ _)

/-- A last part follows in every case and leaves the end as it is. -/
theorem Takes.ensuring {last : Work ε Unit} (h : x.Takes w r w₁)
    (hlast : last.Takes w₁ (.done ()) w₂) : (x.ensuring last).Takes w r w₂ := by
  intro b hb
  obtain ⟨b₁, hx, hb₁⟩ := h b hb
  obtain ⟨b₂, hl, hb₂⟩ := hlast b₁ hb₁
  exact ⟨b₂, hx.ensuring hl, hb₂⟩

/-- Work that is done needs no cleaning up. -/
theorem Takes.onFailure {last : Work ε Unit} {a : α} (h : x.Takes w (.done a) w₁) :
    (x.onFailure last).Takes w (.done a) w₁ := by
  intro b hb
  obtain ⟨b₁, hx, hb₁⟩ := h b hb
  exact ⟨b₁, hx.onFailure, hb₁⟩

/-- Work that panicked is cleaned up. -/
theorem Takes.onFailure_panicked {last : Work ε Unit} (h : x.Takes w .panicked w₁)
    (hlast : last.Takes w₁ (.done ()) w₂) : (x.onFailure last).Takes w .panicked w₂ := by
  intro b hb
  obtain ⟨b₁, hx, hb₁⟩ := h b hb
  obtain ⟨b₂, hl, hb₂⟩ := hlast b₁ hb₁
  exact ⟨b₂, hx.onFailure_panicked hl, hb₂⟩

/-! ## Work that writes to one column -/

/-- Run alone, the work ends in a given way and leaves a column with given contents; it may commit
any batches to that column, and changes nothing else. -/
def Makes (x : Work ε α) (w : World) (r : Outcome α) (n : Nat) (m : Contents) : Prop :=
  ∃ w', x.Takes w r w' ∧ w.Writes n m w'

variable {n : Nat} {m m' : Contents}

/-- Work that changes no world writes to no column. -/
theorem Takes.makes (h : x.Takes w r w) (n : Nat) : x.Makes w r n (w.now n) :=
  ⟨w, h, .refl w n⟩

/-- The second part begins wherever the first one may have ended, with what the first one wrote. -/
theorem Makes.bind {f : α → Work ε β} {a : α} {r : Outcome β} (h : x.Makes w (.done a) n m)
    (hf : ∀ w', w.Writes n m w' → (f a).Makes w' r n m') : (x >>= f).Makes w r n m' := by
  obtain ⟨w₁, hx, hw₁⟩ := h
  obtain ⟨w₂, hfa, hw₂⟩ := hf w₁ hw₁
  exact ⟨w₂, hx.bind hfa, hw₁.trans hw₂⟩

/-- Work that reads first. -/
theorem Takes.bind_makes {f : α → Work ε β} {a : α} {r : Outcome β} (h : x.Takes w (.done a) w)
    (hf : (f a).Makes w r n m) : (x >>= f).Makes w r n m := by
  obtain ⟨w₁, hfa, hw₁⟩ := hf
  exact ⟨w₁, h.bind hfa, hw₁⟩

/-! ## Calls of the engine -/

/-- In every world that work runs in, the engine is open. -/
private theorem takes_of_isOpen {w' : World} (h : w.ledger.isOpen = true → x.Takes w r w') :
    x.Takes w r w' := fun b hb => h hb.isOpen b hb

/-- A call answers the same in every backend of a world, and changes the world as its ledger and its
pins say. -/
private theorem takes_attempt {c : EngineCall} {a : Except EngineError c.Answer}
    (ha : ∀ b : Backend, b.IsIn w → (b.engine.engine.answer c).1 = a) :
    (attempt c : Work ε _).Takes w (.done a)
      { w with ledger := w.ledger.call c, pins := Engine.pinnedBy c a ++ w.pins } := by
  intro b hb
  have hends := endsIn_attempt (ε := ε) hb.engine_eq c
  have hin := hb.answer c
  rw [ha b hb] at hends hin
  exact ⟨_, hends, hin⟩

/-- A call that succeeds in every backend of a world succeeds as work. -/
private theorem takes_call {c : EngineCall} {a : c.Answer}
    (ha : ∀ b : Backend, b.IsIn w → (b.engine.engine.answer c).1 = .ok a)
    (operation context : String) :
    (call operation context c : Work ε _).Takes w (.done a)
      { w with ledger := w.ledger.call c, pins := Engine.pinnedBy c (.ok a) ++ w.pins } :=
  (takes_attempt ha).bind (takes_pure _ _)

/-- On a known column of an open engine, a batch with operations is committed. -/
theorem commit_of_hasColumn (hopen : w.ledger.isOpen = true) (hn : w.HasColumn n)
    {batch : WriteBatch} (hne : batch ≠ []) :
    { w with ledger := w.ledger.commit n batch } = w.commit n batch := by
  unfold Ledger.commit
  rw [if_pos ⟨hopen, hn, hne⟩]
  rfl

/-- Such a batch is not refused. -/
theorem write_eq_ok {b : Backend} (hb : b.IsIn w) (hn : w.HasColumn n)
    {batch : WriteBatch} (hne : batch ≠ []) :
    (b.engine.engine.writing (b.engine.engine.write n batch)).1 = .ok () := by
  obtain ⟨c, hc⟩ := hb.column_eq hn
  rw [Engine.write_of_open hb.isClosed_eq hc hne]
  rfl

/-- A batch is committed. -/
theorem takes_write (hn : w.HasColumn n) {batch : WriteBatch} (hne : batch ≠ []) :
    (attempt (.write n batch) : Work ε _).Takes w (.done (.ok ())) (w.commit n batch) := by
  refine takes_of_isOpen fun hopen => ?_
  rw [← commit_of_hasColumn hopen hn hne]
  exact takes_attempt (c := .write n batch) fun b hb => write_eq_ok hb hn hne

/-- A put is a commit of one operation. -/
theorem takes_put (hn : w.HasColumn n) (key value : Bytes) (operation context : String) :
    (call operation context (.put n key value) : Work ε _).Takes w (.done ())
      (w.commit n [.put key value]) := by
  refine takes_of_isOpen fun hopen => ?_
  rw [← commit_of_hasColumn hopen hn (by simp)]
  exact takes_call (c := .put n key value) (fun b hb => write_eq_ok hb hn (by simp)) _ _

/-- So is a deletion. -/
theorem takes_delete (hn : w.HasColumn n) (key : Bytes) (operation context : String) :
    (call operation context (.delete n key) : Work ε _).Takes w (.done ())
      (w.commit n [.delete key]) := by
  refine takes_of_isOpen fun hopen => ?_
  rw [← commit_of_hasColumn hopen hn (by simp)]
  exact takes_call (c := .delete n key) (fun b hb => write_eq_ok hb hn (by simp)) _ _

/-- Compaction is not seen. -/
theorem takes_compact (hn : w.HasColumn n) (operation context : String) :
    (call operation context (.compact n) : Work ε _).Takes w (.done ()) w := by
  refine takes_call (c := .compact n) (fun b hb => ?_) _ _
  obtain ⟨c, hc⟩ := hb.column_eq hn
  simp only [Engine.answer, Engine.compact_of_open hb.isClosed_eq hc]
  rfl

/-- The estimate is the number of entries of the newest state. -/
theorem takes_estimate (hn : w.HasColumn n) {entries : List Entry}
    (hlists : (w.now n).Lists .all entries) (operation context : String) :
    (call operation context (.estimate n) : Work ε Nat).Takes w (.done entries.length) w := by
  refine takes_call (c := .estimate n) (fun b hb => ?_) _ _
  obtain ⟨c, hc⟩ := hb.column_eq hn
  have hlength := (hb.counts c (List.mem_of_getElem? hc)).liveKeys_eq_length
    (hb.agrees.represents.shows n c hc).latest hlists
  rw [← hlength]
  exact Engine.estimate_of_open hb.isClosed_eq hc

/-- A flush changes nothing. -/
theorem takes_flush (operation context : String) :
    (call operation context .flush : Work ε _).Takes w (.done ()) w :=
  takes_call (c := .flush) (fun _ hb => Engine.checkOpen_of_open hb.isClosed_eq) _ _

/-- The newest state is pinned. -/
theorem takes_pin (operation context : String) :
    (call operation context .snapshot : Work ε _).Takes w (.done w.ledger.history.length)
      { w with pins := w.ledger.history.length :: w.pins } := by
  refine takes_call (c := .snapshot) (fun b hb => ?_) _ _
  simp only [Engine.answer, Engine.snapshot_of_open hb.isClosed_eq,
    hb.agrees.represents.sequence_eq]
  rfl

/-! ## The register of snapshots -/

/-- A pin is given back once. -/
theorem takes_unpin (s : Nat) :
    (effect (.unpin s) : Work ε Unit).Takes w (.done ()) { w with pins := w.pins.erase s } :=
  fun _ hb => ⟨_, endsIn_effect rfl, hb.unpin s⟩

/-- The register answers what it knows of the token. -/
theorem takes_resolve (token : Option Token) :
    (effect (.resolve token) : Work ε _).Takes w (.done (w.snapshots.resolve token)) w := by
  intro b hb
  rw [← hb.snapshots_eq]
  exact ⟨b, endsIn_effect rfl, hb⟩

/-- The view of a token, if it is live. -/
theorem takes_view {token : Option Token} {view : ReadView}
    (hview : w.snapshots.resolve token = .ok view) :
    (Work.view token : Work ε ReadView).Takes w (.done view) w := by
  have hresolve := takes_resolve (ε := ε) (w := w) token
  rw [hview] at hresolve
  exact hresolve.bind (takes_pure _ _)

/-- A token that the register does not know is a failure. -/
theorem takes_view_failed {token : Option Token} {e : StoreError}
    (hview : w.snapshots.resolve token = .error e) :
    (Work.view token : Work ε ReadView).Takes w (.failed e) w := by
  have hresolve := takes_resolve (ε := ε) (w := w) token
  rw [hview] at hresolve
  exact hresolve.bind (takes_finish _ _)

/-- A registered snapshot gets the next token. -/
theorem takes_register (s : Nat) :
    (effect (.register s) : Work ε Token).Takes w (.done w.snapshots.nextId)
      { w with snapshots := (w.snapshots.register s).2 } := by
  intro b hb
  rw [← hb.snapshots_eq]
  exact ⟨_, endsIn_effect rfl, hb.with_snapshots _⟩

/-- What is forgotten is answered, if it was there. -/
theorem takes_forget (t : Token) :
    (effect (.forget t) : Work ε _).Takes w (.done (w.snapshots.sequence? t))
      { w with snapshots := w.snapshots.forget t } := by
  intro b hb
  rw [← hb.snapshots_eq]
  exact ⟨_, endsIn_effect rfl, hb.with_snapshots _⟩

/-- A snapshot pins the newest state under the next number. -/
theorem takes_takeSnapshot (engineName : String) :
    (takeSnapshot engineName : Work ε Token).Takes w (.done w.snapshots.nextId)
      { w with
        pins := w.ledger.history.length :: w.pins
        snapshots := (w.snapshots.register w.ledger.history.length).2 } :=
  (takes_pin _ _).bind (takes_register _)

/-- The release of a live snapshot unpins its sequence. -/
theorem takes_releaseSnapshot {t : Token} {s : Nat} (ht : w.snapshots.sequence? t = some s) :
    (releaseSnapshot t : Work ε Unit).Takes w (.done ())
      { w with pins := w.pins.erase s, snapshots := w.snapshots.forget t } := by
  have hforget := takes_forget (ε := ε) (w := w) t
  rw [ht] at hforget
  exact hforget.bind (takes_unpin s)

/-- A token that is not live cannot be released. -/
theorem takes_releaseSnapshot_failed {t : Token} (ht : w.snapshots.sequence? t = none) :
    (releaseSnapshot t : Work ε Unit).Takes w (.failed (.snapshotNotFound t))
      { w with snapshots := w.snapshots.forget t } := by
  have hforget := takes_forget (ε := ε) (w := w) t
  rw [ht] at hforget
  exact hforget.bind (takes_finish _ _)

/-- The updater is asked, and nothing else happens. -/
theorem takes_consult (f : Updater) (current : Option Bytes) :
    (effect (.consult f current) : Work ε _).Takes w (.done (f current)) w :=
  fun b hb => ⟨b, endsIn_effect rfl, hb⟩

end Work

end SnapshotStore
