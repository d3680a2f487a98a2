import SnapshotStore.Proofs.Database.Request
import SnapshotStore.Proofs.Database.Reading
import SnapshotStore.Proofs.Footprint.Dictionary
import SnapshotStore.Proofs.Pins.Store
import SnapshotStore.Proofs.SubMap.Keys

/-!
# What requests write

Streams write what their work writes, and operations of a store write what the work writes that they
submit (`Store.Confines`).  So a request to a dictionary writes to its column alone, and nothing at
all if it only reads; and an operation of a nested map writes keys of the map and deletes keys of
its range (`SubMapOp.confines`).  Apart from the snapshots, the database is afterwards as it was:
permits and stripes are given back.  None of this depends on which calls of the engine succeed.
-/

namespace SnapshotStore

variable {may : Permit} {α β ε ζ : Type}

/-! ## Producers and streams -/

/-- All work of a producer is confined.  While it runs it has a permit of a pool and perhaps
stripes; otherwise the pool and the stripes are as they were. -/
def Producer.Confined (may : Permit) (free : Stripes) (pool : Pool) :
    Producer ε → Pool → Stripes → Prop
  | idle _ w, p, now => w.Confined may free (fun _ => True) ∧ p = pool ∧ now = free
  | running rest _, p, now => rest.ConfinedFrom may free (fun _ => True) now ∧
      { p with scans := p.scans.giveBack } = pool
  | ended _, p, now => p = pool ∧ now = free

/-- The work of a step is confined. -/
def Step.Confined (may : Permit) (free : Stripes) : Step α → Prop
  | .ok w => w.Confined may free fun _ => True
  | .error _ => True

/-- All work of a stream is confined. -/
def Stream.Confined (may : Permit) (free : Stripes) (pool : Pool) :
    Stream ε → Pool → Stripes → Prop
  | produced x, p, now => x.Confined may free pool p now
  | windowed _ windows, p, now =>
      (∀ w ∈ windows, w.Confined may free fun _ => True) ∧ p = pool ∧ now = free
  | followed x _ steps, p, now =>
      x.Confined may free pool p now ∧ ∀ step ∈ steps, Step.Confined may free step

/-- A stream that is opened is confined wherever nobody holds a stripe. -/
def Stream.IsConfined (may : Permit) (x : Stream ε) : Prop :=
  ∀ (free : Stripes) (pool : Pool), free.AreIdle → x.Confined may free pool pool free

section

variable {free : Stripes} {pool p : Pool} {b : Backend} {l : Ledger}

namespace Producer

variable {x : Producer ε} {w : Work ε Unit}

/-- A producer that runs until it waits or ends stays confined, and gives back its permit and its
stripes when it ends. -/
theorem confined_settle (h : w.ConfinedFrom may free (fun _ => True) b.stripes)
    (hp : { p with scans := p.scans.giveBack } = pool) (ha : b.engine.engine.Agrees l)
    (c : Channel ε) :
    b.engine.engine.GoesOn may (settle w c p b).2.2.engine.engine ∧
      (settle w c p b).1.Confined may free pool (settle w c p b).2.1
        (settle w c p b).2.2.stripes := by
  have hadvance := h.advance ha c
  unfold settle
  revert hadvance
  obtain ⟨progress, b', c'⟩ := w.advance b c
  cases progress with
  | ended r => exact fun h => ⟨h.1, hp, h.2.1⟩
  | waits rest => exact fun h => ⟨h.1, h.2, hp⟩

/-- A started producer stays confined: it takes a permit if there is one, and waits if not. -/
theorem Confined.start (h : x.Confined may free pool p b.stripes)
    (ha : b.engine.engine.Agrees l) :
    b.engine.engine.GoesOn may (x.start p b).2.2.engine.engine ∧
      (x.start p b).1.Confined may free pool (x.start p b).2.1 (x.start p b).2.2.stripes := by
  have hrefl := b.engine.engine.goesOn_refl may
  cases x with
  | idle capacity w =>
    obtain ⟨hw, rfl, hstripes⟩ := h
    unfold Producer.start
    dsimp only
    split
    · exact ⟨hrefl, rfl, hstripes⟩
    · -- Without a free permit the producer waits; with one it holds it while it runs.
      cases htake : p.scans.take? with
      | none => exact ⟨hrefl, hw, rfl, hstripes⟩
      | some scans =>
        rw [← hstripes] at hw
        refine hstripes ▸ confined_settle (Work.ConfinedFrom.supervised hw) ?_ ha _
        rw [Budget.giveBack_of_take? htake]
  | running rest c => exact ⟨hrefl, h⟩
  | ended items => exact ⟨hrefl, h⟩

/-- A polled producer stays confined, and has given everything back once its stream has ended. -/
theorem Confined.poll (h : x.Confined may free pool p b.stripes) (ha : b.engine.engine.Agrees l) :
    b.engine.engine.GoesOn may (x.poll p b).2.2.2.engine.engine ∧
      (x.poll p b).2.1.Confined may free pool (x.poll p b).2.2.1 (x.poll p b).2.2.2.stripes ∧
      ((x.poll p b).1 = .ended →
        (x.poll p b).2.2.1 = pool ∧ (x.poll p b).2.2.2.stripes = free) := by
  have hstart := h.start ha
  unfold Producer.poll
  revert hstart
  obtain ⟨x', p', b'⟩ := x.start p b
  rintro ⟨hgoes, hx⟩
  cases x' with
  | idle capacity w => exact ⟨hgoes, hx, fun heq => by cases heq⟩
  | running rest c =>
    cases hreceive : c.receive? with
    | none =>
      simp only [hreceive]
      exact ⟨hgoes, hx, fun heq => by cases heq⟩
    | some r =>
      obtain ⟨l', -, ha'⟩ := hgoes l ha
      have hsettle := confined_settle hx.1 hx.2 ha' r.2
      simp only [hreceive]
      exact ⟨hgoes.trans hsettle.1, hsettle.2, fun heq => by cases heq⟩
  | ended items =>
    cases items with
    | nil => exact ⟨hgoes, hx, fun _ => hx⟩
    | cons item items => exact ⟨hgoes, hx, fun heq => by cases heq⟩

/-- A producer that nobody listens to any more comes to its end. -/
theorem Confined.drop (h : x.Confined may free pool p b.stripes) (ha : b.engine.engine.Agrees l) :
    b.engine.engine.GoesOn may (x.drop p b).2.engine.engine ∧ (x.drop p b).1 = pool ∧
      (x.drop p b).2.stripes = free := by
  cases x with
  | idle capacity w => exact ⟨b.engine.engine.goesOn_refl may, h.2⟩
  | ended items => exact ⟨b.engine.engine.goesOn_refl may, h⟩
  | running rest c =>
    obtain ⟨hrest, hp⟩ := h
    -- Nobody listens to a dropped stream, so its producer comes to its end and gives everything
    -- back.
    obtain ⟨r, hr⟩ := hrest.ends ha (c := c.desert) rfl
    have hadvance := hrest.advance ha c.desert
    have hdrop : (running rest c).drop p b = (settle rest c.desert p b).2 := rfl
    rw [hdrop, settle]
    revert hadvance hr
    obtain ⟨progress, b', c'⟩ := rest.advance b c.desert
    rintro rfl ⟨hgoes, hstripes, -⟩
    exact ⟨hgoes, hp, hstripes⟩

/-- A change of the items changes nothing about the producer. -/
theorem Confined.map (f : ε → ζ) {now : Stripes} (h : x.Confined may free pool p now) :
    (x.map f).Confined may free pool p now := by
  cases x with
  | idle capacity w => exact ⟨Work.ConfinedFrom.mapItems f h.1, h.2⟩
  | running rest c => exact ⟨Work.ConfinedFrom.mapItems f h.1, h.2⟩
  | ended items => exact h

end Producer

namespace Pool

/-- Confined work on the pool writes what it may and leaves the stripes as they were. -/
theorem goesOn_run {w : Work Empty α} {Q : α → Prop} (h : w.Confined may b.stripes Q)
    (ha : b.engine.engine.Agrees l) :
    b.engine.engine.GoesOn may (p.run w b).2.engine.engine ∧
      (p.run w b).2.stripes = b.stripes := by
  unfold run
  split
  · exact ⟨b.engine.engine.goesOn_refl may, rfl⟩
  · exact h.run ha

/-- So do steps, up to the first that fails. -/
theorem goesOn_runSteps {steps : List (Step Unit)}
    (h : ∀ step ∈ steps, Step.Confined may b.stripes step) (ha : b.engine.engine.Agrees l) :
    b.engine.engine.GoesOn may (p.runSteps steps b).2.engine.engine ∧
      (p.runSteps steps b).2.stripes = b.stripes := by
  induction steps generalizing b l with
  | nil => exact ⟨b.engine.engine.goesOn_refl may, rfl⟩
  | cons step rest ih =>
    have hstep := h step List.mem_cons_self
    cases step with
    | error e => exact ⟨b.engine.engine.goesOn_refl may, rfl⟩
    | ok w =>
      -- The stripes are as before the step, so the next one finds what it needs.
      have hrun := goesOn_run (p := p) hstep ha
      unfold runSteps
      revert hrun
      obtain ⟨r, b'⟩ := p.run w b
      rintro ⟨hgoes, hstripes⟩
      cases r with
      | error e => exact ⟨hgoes, hstripes⟩
      | ok u =>
        obtain ⟨l', -, ha'⟩ := hgoes l ha
        obtain ⟨hgoes', hstripes'⟩ :=
          ih (fun s hs => hstripes ▸ h s (List.mem_cons_of_mem _ hs)) ha'
        exact ⟨hgoes.trans hgoes', hstripes'.trans hstripes⟩

end Pool

namespace Stream

variable {x : Stream ε}

/-- A poll of a stream writes what the stream may write. -/
theorem Confined.poll (h : x.Confined may free pool p b.stripes) (ha : b.engine.engine.Agrees l) :
    b.engine.engine.GoesOn may (x.poll p b).2.2.2.engine.engine ∧
      (x.poll p b).2.1.Confined may free pool (x.poll p b).2.2.1 (x.poll p b).2.2.2.stripes := by
  have hrefl := b.engine.engine.goesOn_refl may
  cases x with
  | produced x =>
    have hpoll := Producer.Confined.poll h ha
    exact ⟨hpoll.1, hpoll.2.1⟩
  | windowed ready windows =>
    obtain ⟨hwindows, rfl, rfl⟩ := h
    cases ready with
    | cons item ready => exact ⟨hrefl, hwindows, rfl, rfl⟩
    | nil =>
      cases windows with
      | nil => exact ⟨hrefl, hwindows, rfl, rfl⟩
      | cons w windows =>
        have hleft : ∀ v ∈ windows, v.Confined may b.stripes fun _ => True :=
          fun v hv => hwindows v (List.mem_cons_of_mem _ hv)
        have hrun := Pool.goesOn_run (p := p) (hwindows w List.mem_cons_self) ha
        unfold Stream.poll
        dsimp only
        revert hrun
        obtain ⟨r, b'⟩ := p.run w b
        rintro ⟨hgoes, hstripes⟩
        cases r with
        | error e => exact ⟨hgoes, hleft, rfl, hstripes⟩
        | ok items => cases items <;> exact ⟨hgoes, hleft, rfl, hstripes⟩
  | followed x hasFailed steps =>
    obtain ⟨hx, hsteps⟩ := h
    have hpoll := hx.poll ha
    unfold Stream.poll
    dsimp only
    revert hpoll
    obtain ⟨r, x', p', b'⟩ := x.poll p b
    rintro ⟨hgoes, hx', hended⟩
    cases r with
    | pending => exact ⟨hgoes, hx', hsteps⟩
    | item item => cases item <;> exact ⟨hgoes, hx', hsteps⟩
    | ended =>
      cases hasFailed with
      | true => exact ⟨hgoes, hx', by simp⟩
      | false =>
        -- The producer is at its end, so the steps find the stripes as they were.
        obtain ⟨-, hfree⟩ := hended rfl
        obtain ⟨l', -, ha'⟩ := hgoes l ha
        dsimp only at hfree
        subst hfree
        obtain ⟨hgoes', hstripes⟩ := Pool.goesOn_runSteps (p := p') hsteps ha'
        simp only [Bool.false_eq_true, if_false]
        revert hgoes' hstripes
        obtain ⟨r, b''⟩ := p'.runSteps steps b'
        intro hgoes' hstripes
        dsimp only at hstripes
        cases r <;> exact ⟨hgoes.trans hgoes', hstripes ▸ hx', by simp⟩

/-- So do many polls. -/
theorem Confined.pollMany (n : Nat) (h : x.Confined may free pool p b.stripes)
    (ha : b.engine.engine.Agrees l) :
    b.engine.engine.GoesOn may (x.pollMany n p b).2.2.engine.engine ∧
      (x.pollMany n p b).1.2.2.Confined may free pool (x.pollMany n p b).2.1
        (x.pollMany n p b).2.2.stripes := by
  induction n generalizing x p b l with
  | zero => exact ⟨b.engine.engine.goesOn_refl may, h⟩
  | succ n ih =>
    have hpoll := h.poll ha
    unfold Stream.pollMany
    revert hpoll
    obtain ⟨r, x', p', b'⟩ := x.poll p b
    rintro ⟨hgoes, hx⟩
    cases r with
    | pending => exact ⟨hgoes, hx⟩
    | ended => exact ⟨hgoes, hx⟩
    | item item =>
      obtain ⟨l', -, ha'⟩ := hgoes l ha
      obtain ⟨hgoes', hx'⟩ := ih hx ha'
      exact ⟨hgoes.trans hgoes', hx'⟩

/-- A stream that is dropped leaves the pool and the stripes as it found them. -/
theorem Confined.drop (h : x.Confined may free pool p b.stripes) (ha : b.engine.engine.Agrees l) :
    b.engine.engine.GoesOn may (x.drop p b).2.engine.engine ∧ (x.drop p b).1 = pool ∧
      (x.drop p b).2.stripes = free := by
  cases x with
  | produced x => exact Producer.Confined.drop h ha
  | windowed ready windows => exact ⟨b.engine.engine.goesOn_refl may, h.2⟩
  | followed x hasFailed steps => exact h.1.drop ha

/-- A change of the items changes nothing about the stream. -/
theorem IsConfined.map (f : ε → ζ) (h : x.IsConfined may) : (x.map f).IsConfined may := by
  intro free pool hidle
  have hx := h free pool hidle
  cases x with
  | produced x => exact Producer.Confined.map f hx
  | followed x hasFailed steps => exact ⟨hx.1.map f, hx.2⟩
  | windowed ready windows =>
    refine ⟨fun w hw => ?_, hx.2⟩
    obtain ⟨w', hw', rfl⟩ := List.mem_map.mp hw
    exact (hx.1 w' hw').bind fun _ _ => Work.confined_pure trivial

end Stream

end

/-! ## Steps and streams of a dictionary -/

namespace Dictionary

variable {d : Dictionary} {range : KeyRange} {key : Bytes} {free : Stripes}

/-- An update is refused before it begins, or it writes its key alone. -/
theorem confined_update (hidle : free.AreIdle) (h : d.MayAssign may key) (f : Updater)
    (sure : Bool) : Step.Confined may free (d.update key f sure) := by
  unfold update
  split
  · exact confined_updateAt hidle h _ f sure
  · trivial

/-- A stream whose producer does confined work. -/
theorem isConfined_producing {w : Work ε Unit}
    (h : ∀ free : Stripes, free.AreIdle → w.Confined may free fun _ => True) :
    (d.producing w).IsConfined may := fun free _ hidle => ⟨h free hidle, rfl, rfl⟩

/-- Reads of many keys write nothing. -/
theorem isConfined_getMany (token : Option Token) (keys : List Bytes) (sure : Bool) :
    (d.getMany token keys sure).IsConfined may := by
  refine fun free pool hidle => ⟨fun w hw => ?_, rfl, rfl⟩
  obtain ⟨window, -, rfl⟩ := List.mem_map.mp hw
  exact confined_getWindow hidle token window sure

/-- Entries of a window are among the entries that were cut into windows. -/
theorem mem_of_mem_entryWindows {entries window : List Entry} (h : window ∈ d.entryWindows entries)
    {e : Entry} (he : e ∈ window) : e ∈ entries := by
  have hflatten : (d.entryWindows entries).flatten = entries := flatten_windows _ _
  rw [← hflatten]
  exact List.mem_flatten.mpr ⟨window, h, he⟩

/-- Writes of many keys write their entries alone. -/
theorem isConfined_putMany {entries : List Entry}
    (h : ∀ e ∈ entries, may d.column (.put e.1 e.2)) (wantsPrevious : Bool) :
    (d.putMany entries wantsPrevious).IsConfined may := by
  refine fun free pool hidle => ⟨fun w hw => ?_, rfl, rfl⟩
  obtain ⟨window, hwindow, rfl⟩ := List.mem_map.mp hw
  exact confined_putWindow hidle (fun e he => h e (mem_of_mem_entryWindows hwindow he))
    wantsPrevious

/-- The windows of a replacement write their entries alone. -/
theorem confined_writeSteps (hidle : free.AreIdle) {entries : List Entry}
    (h : ∀ e ∈ entries, may d.column (.put e.1 e.2)) :
    ∀ step ∈ d.writeSteps range entries, Step.Confined may free step := by
  intro step hstep
  obtain ⟨window, hwindow, rfl⟩ := List.mem_map.mp hstep
  unfold writeStep
  split
  · trivial
  · exact (confined_putWindow hidle (fun e he => h e (mem_of_mem_entryWindows hwindow he))
      false).bind fun _ _ => Work.confined_pure trivial

/-- A replacement deletes its range first and then writes its entries. -/
theorem confined_replaceSteps (hidle : free.AreIdle) (hrange : d.MayDelete may range)
    {entries : List Entry} (h : ∀ e ∈ entries, may d.column (.put e.1 e.2)) :
    ∀ step ∈ d.replaceSteps range entries, Step.Confined may free step := by
  intro step hstep
  rcases List.mem_cons.mp hstep with rfl | hstep
  · exact confined_deleteRange hidle hrange
  · exact confined_writeSteps hidle h step hstep

/-- So does one that hands out what it removes. -/
theorem isConfined_replaced (hrange : d.MayDelete may range) {entries : List Entry}
    (h : ∀ e ∈ entries, may d.column (.put e.1 e.2)) :
    (d.replaced range entries).IsConfined may := fun _ _ hidle =>
  ⟨⟨confined_drain hidle hrange, rfl, rfl⟩, confined_writeSteps hidle h⟩

end Dictionary

/-! ## Operations of a store -/

namespace Store

/-- The engine of a store goes on with what may be written, and nothing else changes apart from the
snapshots. -/
structure GoesOn (may : Permit) (s s' : Store) : Prop where
  /-- The engine goes on. -/
  engine : s.engine.engine.GoesOn may s'.engine.engine
  /-- The database is as it was. -/
  keeps : s.Keeps s'

/-- Whatever fails, an operation on open dictionaries writes nothing but what it may, and leaves the
database as it was. -/
def Confines (may : Permit) (ds : List Dictionary) (x : StateM Store α) : Prop :=
  ∀ (s : Store) (l : Ledger), s.engine.engine.Agrees l → s.IsIdle →
    (∀ d ∈ ds, s.database.find? d.name = some d) → s.GoesOn may (x s).2

variable {s s' s'' : Store} {d : Dictionary} {ds : List Dictionary} {range : KeyRange}

/-- A store goes on if nothing happens. -/
theorem goesOn_refl (may : Permit) (s : Store) : s.GoesOn may s :=
  ⟨s.engine.engine.goesOn_refl may, rfl⟩

/-- What goes on twice goes on. -/
theorem GoesOn.trans (h : s.GoesOn may s') (h' : s'.GoesOn may s'') : s.GoesOn may s'' :=
  ⟨h.engine.trans h'.engine, h.keeps.trans h'.keeps⟩

/-- More may be permitted. -/
theorem GoesOn.mono {may' : Permit} (h : s.GoesOn may s')
    (hmay : ∀ n op, may n op → may' n op) : s.GoesOn may' s' := by
  refine ⟨fun l ha => ?_, h.keeps⟩
  obtain ⟨l', hl', ha'⟩ := h.engine l ha
  exact ⟨l', hl'.mono hmay, ha'⟩

/-- No dictionary is opened. -/
theorem Keeps.dictionaries_eq (h : s.Keeps s') :
    s'.database.dictionaries = s.database.dictionaries := by rw [h]

/-- An idle store stays idle. -/
theorem Keeps.isIdle (h : s.Keeps s') (hidle : s.IsIdle) : s'.IsIdle :=
  ⟨h.dictionaries_eq ▸ hidle.nodup, h.dictionaries_eq ▸ hidle.stripes_eq⟩

/-- An answer alone changes nothing. -/
theorem confines_pure (a : α) : Confines may ds (pure a) := fun s _ _ _ _ => s.goesOn_refl may

/-- Two confined operations are confined one after the other. -/
theorem Confines.bind {x : StateM Store α} {f : α → StateM Store β} (hx : Confines may ds x)
    (hf : ∀ a, Confines may ds (f a)) : Confines may ds (x >>= f) := by
  intro s l ha hidle hds
  have hgoes := hx s l ha hidle hds
  obtain ⟨l', -, ha'⟩ := hgoes.engine l ha
  refine hgoes.trans (hf _ _ l' ha' (hgoes.keeps.isIdle hidle) fun d hd => ?_)
  rw [hgoes.keeps.find?_eq]
  exact hds d hd

/-- An operation goes on with the value of another one, if it has one. -/
theorem Confines.andThen {x : Op α} {f : α → Op β} (hx : Confines may ds x.run)
    (hf : ∀ a, Confines may ds (f a).run) : Confines may ds (x >>= f).run := by
  rw [ExceptT.run_bind]
  refine hx.bind fun r => ?_
  cases r with
  | ok a => exact hf a
  | error e => exact confines_pure _

/-- A given answer or refusal changes nothing. -/
theorem confines_given (r : Except StoreError α) :
    Confines may ds (ExceptT.mk (pure r) : Op α).run := confines_pure r

/-- To look at the store changes nothing. -/
theorem confines_get : Confines may ds (get : Op Store).run :=
  fun s _ _ _ _ => s.goesOn_refl may

/-- To check whether the database is open changes nothing. -/
theorem confines_checkOpen : Confines may ds checkOpen.run :=
  confines_get.andThen fun s => by
    split <;> exact confines_pure _

/-- A pin that is given back is no write. -/
theorem confines_unpin (q : Nat) : Confines may ds
    (modify fun s => { s with engine := s.engine.modify (·.unpin q) } : StateM Store PUnit) :=
  fun s _ _ _ _ => ⟨s.engine.engine.goesOn_unpin may q, rfl⟩

/-- Stripes that are idle in a list are idle one by one. -/
theorem IsIdle.areIdle (h : s.IsIdle) (hd : s.database.find? d.name = some d) :
    (s.backend d).stripes.AreIdle := by
  rw [show (s.backend d).stripes = s.database.stripes d from rfl, h.stripes_find? hd]
  cases d.striping with
  | none => exact Stripes.areIdle_nil
  | some striping => exact Stripes.areIdle_idle striping

/-- What gives the pool and the stripes back leaves the database as it was. -/
theorem goesOn_absorb (hidle : s.IsIdle) (hd : s.database.find? d.name = some d) {b : Backend}
    (hgoes : s.engine.engine.GoesOn may b.engine.engine)
    (hstripes : b.stripes = (s.backend d).stripes) :
    s.GoesOn may (s.absorb d s.database.pool b) := by
  rw [hidle.absorb_eq hd (hstripes.trans (hidle.stripes_find? hd))]
  exact ⟨hgoes, rfl⟩

/-- What is done with the backend of a dictionary is confined if it writes what it may and leaves
the pool and the stripes. -/
theorem confines_onBackend (hd : d ∈ ds) {f : Pool → Backend → α × Pool × Backend}
    (h : ∀ (p : Pool) (b : Backend) (l : Ledger), b.engine.engine.Agrees l → b.stripes.AreIdle →
      b.engine.engine.GoesOn may (f p b).2.2.engine.engine ∧ (f p b).2.1 = p ∧
        (f p b).2.2.stripes = b.stripes) :
    Confines may ds (onBackend d f) := by
  intro s l ha hidle hds
  obtain ⟨hgoes, hpool, hstripes⟩ :=
    h s.database.pool (s.backend d) l ha (hidle.areIdle (hds d hd))
  have hrun : (onBackend d f s).2 = s.absorb d s.database.pool
      (f s.database.pool (s.backend d)).2.2 := by
    simp only [onBackend]
    rw [hpool]
  rw [hrun]
  exact goesOn_absorb hidle (hds d hd) hgoes hstripes

/-! ## Work on the pool -/

/-- Confined work is a confined operation. -/
theorem confines_submit (hd : d ∈ ds) {w : Work Empty α} {Q : α → Prop}
    (h : ∀ free : Stripes, free.AreIdle → w.Confined may free Q) :
    Confines may ds (submit d w).run :=
  confines_onBackend (f := fun p b => ((p.run w b).1, p, (p.run w b).2)) hd
    fun _ b _ ha hidle =>
      have hrun := Pool.goesOn_run (h b.stripes hidle) ha
      ⟨hrun.1, rfl, hrun.2⟩

/-- A confined step is a confined operation, refused or not. -/
theorem confines_submitStep (hd : d ∈ ds) {step : Step α}
    (h : ∀ free : Stripes, free.AreIdle → Step.Confined may free step) :
    Confines may ds (submitStep d step).run := by
  cases step with
  | ok w => exact confines_submit hd h
  | error e => exact confines_pure _

/-- Confined steps are a confined operation. -/
theorem confines_runSteps (hd : d ∈ ds) {steps : List (Step Unit)}
    (h : ∀ free : Stripes, free.AreIdle → ∀ step ∈ steps, Step.Confined may free step) :
    Confines may ds (runSteps d steps).run :=
  confines_onBackend (f := fun p b => ((p.runSteps steps b).1, p, (p.runSteps steps b).2)) hd
    fun _ b _ ha hidle =>
      have hrun := Pool.goesOn_runSteps (h b.stripes hidle) ha
      ⟨hrun.1, rfl, hrun.2⟩

/-- Work without stripes is confined in every store. -/
theorem confines_submitPlain {w : Work Empty α} {Q : α → Prop} (h : w.Confined may [] Q) :
    Confines may ds (submitPlain w).run := fun s _ ha _ _ =>
  ⟨(Pool.goesOn_run (b := ⟨s.engine, s.database.snapshots, []⟩) h ha).1, rfl⟩

/-- The form of the answer does not matter. -/
theorem confines_answer (f : α → Reply) {op : Op α} (h : Confines may ds op.run) :
    Confines may ds (answer f op) := fun s l ha hidle hds => h s l ha hidle hds

/-- Taking items of a confined stream and dropping it is confined. -/
theorem confines_collect (hd : d ∈ ds) (f : List (Except StoreError ε) → Bool → Reply)
    (limit : Nat) {x : Stream ε} (h : x.IsConfined may) :
    Confines may ds (collect d f limit x) := by
  intro s l ha hidle hds
  have hfind := hds d hd
  have hx := h (s.backend d).stripes s.database.pool (hidle.areIdle hfind)
  obtain ⟨hgoes, hpolled⟩ := hx.pollMany limit ha
  obtain ⟨l', -, ha'⟩ := hgoes l ha
  obtain ⟨hgoes', hpool, hstripes⟩ := hpolled.drop ha'
  rcases hpoll : x.pollMany limit s.database.pool (s.backend d) with ⟨⟨items, isEnd, x'⟩, p', b'⟩
  rw [hpoll] at hgoes hgoes' hpool hstripes
  rcases hdrop : x'.drop p' b' with ⟨p'', b''⟩
  rw [hdrop] at hgoes' hpool hstripes
  -- What the stream holds in between is not seen.
  have hrun : (collect d f limit x s).2 = s.absorb d p'' b'' := by
    have hback : (s.absorb d p' b').backend d = b' := backend_absorb hfind p' b'
    have hpool' : (s.absorb d p' b').database.pool = p' := rfl
    simp only [collect, pollMany, drop, onBackend, hpoll, hback, hpool', hdrop, absorb_absorb]
  rw [hrun, show p'' = s.database.pool from hpool]
  exact goesOn_absorb hidle hfind (hgoes.trans hgoes') hstripes

/-! ## Operations of a dictionary -/

/-- A replacement writes in its range and its entries. -/
theorem confines_setRange (hd : d ∈ ds) (hrange : d.MayDelete may range) {entries : List Entry}
    (h : ∀ e ∈ entries, may d.column (.put e.1 e.2)) :
    Confines may ds (setRange d range entries).run :=
  confines_runSteps hd fun _ hidle => Dictionary.confined_replaceSteps hidle hrange h

/-- To look for an entry writes nothing. -/
theorem confines_isEmpty (hd : d ∈ ds) (token : Option Token) (range : KeyRange) :
    Confines may ds (isEmpty d token range).run :=
  (confines_submit hd fun _ hidle => Dictionary.confined_getFirst hidle token range).andThen
    fun _ => confines_pure _

/-- Jobs one after the other are confined if each of them is. -/
theorem confines_submitAll (hd : d ∈ ds) {ws : List (Work Empty α)}
    (h : ∀ w ∈ ws, ∀ free : Stripes, free.AreIdle → w.Confined may free fun _ => True) :
    Confines may ds (submitAll d ws).run := by
  have hrun : Confines may ds (ws.mapM fun w => (submit d w).run) := by
    induction ws with
    | nil => exact confines_pure _
    | cons w rest ih =>
      rw [List.mapM_cons]
      exact (confines_submit hd (h w List.mem_cons_self)).bind fun _ =>
        (ih fun v hv => h v (List.mem_cons_of_mem _ hv)).bind fun _ => confines_pure _
  exact hrun.bind fun _ => confines_pure _

/-- To count the shards of the keys writes nothing. -/
theorem confines_countShards (hd : d ∈ ds) (view : ReadView) :
    Confines may ds (countShards d view).run := by
  refine (confines_submitAll hd fun w hw free hidle => ?_).andThen fun _ => confines_pure _
  obtain ⟨range, -, rfl⟩ := List.mem_map.mp hw
  exact Dictionary.confined_count hidle view range none

/-- An exact size writes nothing: its own snapshot is a pin. -/
theorem confines_exactSize (hd : d ∈ ds) (view : ReadView) :
    Confines may ds (exactSize d view).run := by
  cases view with
  | «at» s => exact confines_countShards hd (.at s)
  | latest =>
    refine (confines_submit hd fun _ _ => Work.confined_reading (c := .snapshot) rfl ..).andThen
      fun q => ?_
    exact (confines_countShards hd (.at q)).bind fun r =>
      (confines_unpin q).bind fun _ => confines_pure r

/-- A quick size writes nothing. -/
theorem confines_fastSize (hd : d ∈ ds) (view : ReadView) :
    Confines may ds (fastSize d view).run := by
  cases view with
  | «at» s => exact confines_submit hd fun _ hidle => Dictionary.confined_count hidle (.at s) .all _
  | latest =>
    exact confines_submit hd fun _ _ => Work.confined_reading (c := .estimate d.column) rfl ..

/-- No size writes anything. -/
theorem confines_size (hd : d ∈ ds) (token : Option Token) (range : KeyRange) (fast : Bool) :
    Confines may ds (size d token range fast).run := by
  refine confines_get.andThen fun s => (confines_given _).andThen fun view => ?_
  split
  · split
    · exact confines_fastSize hd view
    · exact confines_exactSize hd view
  · exact confines_submit hd fun _ hidle => Dictionary.confined_count hidle view range none

/-! ## Operations of the database -/

/-- A call of the engine writes what it asks for. -/
theorem confines_callEngine {c : EngineCall} (h : ∀ x ∈ c.writes, may x.1 x.2)
    (operation context : String) : Confines may ds (callEngine operation context c).run :=
  fun s _ _ _ _ => ⟨s.engine.goesOn_answer h, rfl⟩

/-- A snapshot is a pin and an entry of the register. -/
theorem confines_takeSnapshot : Confines may ds takeSnapshot.run := by
  refine confines_checkOpen.andThen fun _ => confines_get.andThen fun s => ?_
  refine confines_submitPlain (Q := fun _ => True) ?_
  exact (Work.confined_reading (c := .snapshot) rfl ..).bind fun q _ =>
    Work.confined_effect trivial trivial fun _ _ heq => ⟨heq, trivial⟩

/-- To release it takes both away. -/
theorem confines_releaseSnapshot (token : Token) :
    Confines may ds (releaseSnapshot token).run := by
  have hforget : (Work.effect (.forget token) : Work Empty _).Confined may [] fun _ => True :=
    Work.confined_effect trivial trivial fun _ _ heq => ⟨heq, trivial⟩
  refine confines_submitPlain (Q := fun _ => True) (hforget.bind fun q _ => ?_)
  cases q with
  | some q => exact Work.confined_unpin q
  | none => exact Work.confined_fail _

/-- A flush writes nothing new. -/
theorem confines_flush : Confines may ds flush.run :=
  confines_checkOpen.andThen fun _ => confines_get.andThen fun _ =>
    confines_callEngine (c := .flush) (by simp [EngineCall.writes]) _ _

end Store

/-- **A request to a dictionary writes to its column alone**, and nothing if it only reads. -/
theorem DictionaryOp.confines {d : Dictionary} {ds : List Dictionary} (hd : d ∈ ds)
    {op : DictionaryOp} (h : op.readsAt?.isSome ∨ ∀ o, may d.column o) :
    Store.Confines may ds (op.run d) := by
  -- Operations that read at a view write nothing; for the others every write to the column is
  -- permitted.
  have hreads : ∀ {P : Prop}, op.readsAt? = none → ((∀ o, may d.column o) → P) → P :=
    fun hnone hP => hP (h.resolve_left (by simp [hnone]))
  cases op with
  | get token key sure =>
    exact Store.confines_answer _
      (Store.confines_submit hd fun _ hidle => Dictionary.confined_get hidle token key sure)
  | getMany token keys sure limit =>
    exact Store.confines_collect hd _ _ (Dictionary.isConfined_getMany token keys sure)
  | getFirst token range =>
    exact Store.confines_answer _
      (Store.confines_submit hd fun _ hidle => Dictionary.confined_getFirst hidle token range)
  | isEmpty token range => exact Store.confines_answer _ (Store.confines_isEmpty hd token range)
  | size token range fast => exact Store.confines_answer _ (Store.confines_size hd token range fast)
  | getEntries token range limit =>
    exact Store.confines_collect hd _ _ (Dictionary.isConfined_producing fun _ hidle =>
      Dictionary.confined_streamEntries hidle id token range)
  | getKeys token range limit =>
    exact Store.confines_collect hd _ _ (Dictionary.isConfined_producing fun _ hidle =>
      Dictionary.confined_streamEntries hidle Prod.fst token range)
  | getGroups stemLen token range limit =>
    exact Store.confines_collect hd _ _ (Dictionary.isConfined_producing fun _ hidle =>
      Dictionary.confined_streamGroups hidle id stemLen token range)
  | getKeyGroups stemLen token range limit =>
    exact Store.confines_collect hd _ _ (Dictionary.isConfined_producing fun _ hidle =>
      Dictionary.confined_streamGroups hidle Prod.fst stemLen token range)
  | getStems stemLen token range limit =>
    exact Store.confines_collect hd _ _ (Dictionary.isConfined_producing fun _ hidle =>
      Dictionary.confined_streamStems hidle stemLen token range)
  | put key value result =>
    exact hreads rfl fun hmay => Store.confines_answer _ (Store.confines_submit hd
      fun _ hidle => Dictionary.confined_put hidle (hmay _) result)
  | remove key result =>
    exact hreads rfl fun hmay => Store.confines_answer _ (Store.confines_submit hd
      fun _ hidle => Dictionary.confined_remove hidle (hmay _) result)
  | update key f sure =>
    exact hreads rfl fun hmay => Store.confines_submitStep hd
      fun _ hidle => Dictionary.confined_update hidle ⟨hmay _, fun _ => hmay _⟩ f sure
  | putMany entries wantsPrevious limit =>
    exact hreads rfl fun hmay => Store.confines_collect hd _ _
      (Dictionary.isConfined_putMany (fun _ _ => hmay _) wantsPrevious)
  | setRange range entries =>
    exact hreads rfl fun hmay => Store.confines_answer _
      (Store.confines_setRange hd ⟨hmay _, fun _ _ => hmay _⟩ fun _ _ => hmay _)
  | replaceRange range entries limit =>
    exact hreads rfl fun hmay => Store.confines_collect hd _ _
      (Dictionary.isConfined_replaced ⟨hmay _, fun _ _ => hmay _⟩ fun _ _ => hmay _)
  | removeFirst range =>
    exact hreads rfl fun hmay => Store.confines_answer _ (Store.confines_submit hd
      fun _ hidle => Dictionary.confined_removeFirst hidle ⟨hmay _, fun _ _ => hmay _⟩ 1)
  | clear =>
    exact hreads rfl fun hmay => Store.confines_answer _ (Store.confines_submit hd
      fun _ hidle => Dictionary.confined_clear hidle ⟨hmay _, fun _ _ => hmay _⟩)

/-! ## Nested maps -/

namespace SubMap

/-- What a nested map writes to its column. -/
def footprint (A : SubMap) : Permit := fun n op => n = A.dictionary.column ∧ A.Touches op

variable {A : SubMap} {ds : List Dictionary}

/-- A nested map may delete its own range. -/
theorem mayDelete (A : SubMap) : A.dictionary.MayDelete A.footprint A.range :=
  ⟨⟨rfl, .deleteRange⟩, fun _ hkey => ⟨rfl, .delete hkey⟩⟩

/-- A nested map may write the keys that it owns. -/
theorem Selects.mayAssign (hA : A.Selects) {key : Bytes} (h : A.Owns key) :
    A.dictionary.MayAssign A.footprint key :=
  ⟨⟨rfl, .delete (hA.contains h)⟩, fun value => ⟨rfl, .put value h⟩⟩

/-- Work on the key of a tail, unless the tail is malformed. -/
theorem Selects.confines_onKey (hA : A.Selects) (hd : A.dictionary ∈ ds) (tail : Bytes)
    {w : Bytes → Work Empty α} {Q : α → Prop}
    (h : ∀ key, A.Owns key → ∀ free : Stripes, free.AreIdle → (w key).Confined may free Q) :
    Store.Confines may ds (A.onKey tail w).run := by
  by_cases htail : tail.length = A.layout.tailLen
  · rw [onKey, fullKey_of_length htail]
    exact Store.confines_submit hd (h _ (hA.owns_append htail))
  · rw [onKey, fullKey_of_length_ne htail]
    exact Store.confines_pure _

/-- An update of a tail writes the key of that tail. -/
theorem Selects.confines_update (hA : A.Selects) (hd : A.dictionary ∈ ds) (tail : Bytes)
    (f : Updater) : Store.Confines A.footprint ds (A.update tail f).run := by
  by_cases htail : tail.length = A.layout.tailLen
  · rw [update, fullKey_of_length htail]
    exact Store.confines_submitStep hd fun _ hidle =>
      Dictionary.confined_update hidle (hA.mayAssign (hA.owns_append htail)) f false
  · rw [update, fullKey_of_length_ne htail]
    exact Store.confines_pure _

/-- To clear a nested map deletes its range. -/
theorem confines_clear (hd : A.dictionary ∈ ds) :
    Store.Confines A.footprint ds A.clear.run := by
  unfold clear
  split
  · rename_i hall
    have hclear := A.mayDelete
    rw [KeyRange.eq_all_of_isAll hall] at hclear
    exact Store.confines_submit hd fun _ hidle => Dictionary.confined_clear hidle hclear
  · exact Store.confines_setRange hd A.mayDelete (by simp)

/-- To replace a nested map deletes its range and writes keys that it owns. -/
theorem Selects.confines_setAll (hA : A.Selects) (hd : A.dictionary ∈ ds) (entries : List Entry) :
    Store.Confines A.footprint ds (A.setAll entries).run := by
  unfold setAll
  refine (Store.confines_setRange hd A.mayDelete fun e he =>
    ⟨rfl, .put e.2 (hA.owns_of_mem_fullEntries entries e he)⟩).andThen fun _ => ?_
  cases (A.fullEntries entries).2 <;> exact Store.confines_pure _

end SubMap

/-- **A nested map writes its own keys and deletes keys of its range**, whatever fails. -/
theorem SubMapOp.confines {A : SubMap} (hA : A.Selects) {ds : List Dictionary}
    (hd : A.dictionary ∈ ds) (op : SubMapOp) : Store.Confines A.footprint ds (op.run A) := by
  cases op with
  | get token tail =>
    exact Store.confines_answer _ (hA.confines_onKey hd tail fun key _ _ hidle =>
      Dictionary.confined_get hidle token key false)
  | put tail value result =>
    exact Store.confines_answer _ (hA.confines_onKey hd tail fun key howns _ hidle =>
      Dictionary.confined_put hidle ⟨rfl, .put value howns⟩ result)
  | remove tail result =>
    exact Store.confines_answer _ (hA.confines_onKey hd tail fun key howns _ hidle =>
      Dictionary.confined_remove hidle (hA.mayAssign howns).1 result)
  | update tail f => exact hA.confines_update hd tail f
  | size token fast => exact Store.confines_answer _ (Store.confines_size hd token A.range fast)
  | isEmpty token => exact Store.confines_answer _ (Store.confines_isEmpty hd token A.range)
  | clear => exact Store.confines_answer _ (SubMap.confines_clear hd)
  | setAll entries => exact Store.confines_answer _ (hA.confines_setAll hd entries)
  | getEntries token limit =>
    exact Store.confines_collect hd _ _ (Stream.IsConfined.map _
      (Dictionary.isConfined_producing fun _ hidle =>
        Dictionary.confined_streamEntries hidle id token A.range))
  | getKeys token limit =>
    exact Store.confines_collect hd _ _ (Stream.IsConfined.map _
      (Dictionary.isConfined_producing fun _ hidle =>
        Dictionary.confined_streamEntries hidle Prod.fst token A.range))
  | getChildKeys token limit =>
    exact Store.confines_collect hd _ _ (Stream.IsConfined.map _
      (Dictionary.isConfined_producing fun _ hidle =>
        Dictionary.confined_streamStems hidle _ token A.range))

end SnapshotStore
