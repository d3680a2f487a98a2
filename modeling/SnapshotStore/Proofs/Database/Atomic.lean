import SnapshotStore.Proofs.Database.Draining
import SnapshotStore.Proofs.Database.Replacement
import SnapshotStore.Proofs.Dictionary.Atomic

/-!
# Windows of entries are atomic

Many entries are put window by window, by a stream of puts as by the second half of a replacement.
If the caps of a batch are no tighter than the bounds of a window, the engine gets every window as
one batch.  So whatever calls fail, what is stored in the end are whole windows
(`Database.windows_atomic`): of a stream of puts those that did not fail, and of a replacement those
before the first that failed or did not fit.
-/

namespace SnapshotStore

/-- Windows of entries were committed to the column of a dictionary, each as one batch, and nothing
else was. -/
structure Store.Commits (s : Store) (d : Dictionary) (windows : List (List Entry)) (s' : Store) :
    Prop where
  /-- The engine counts one write for each window. -/
  sequence_eq : s'.engine.engine.sequence = s.engine.engine.sequence + windows.length
  /-- What is new in the history of the engine are the batches of the windows. -/
  history : ∃ l : Ledger, s.engine.engine.Agrees l ∧ s'.engine.engine.Agrees
    { l with history := l.history ++ windows.map fun window => (d.column, Contents.puts window) }
  /-- The entries of the windows were put one after the other. -/
  stored : ∃ c : Contents, (∀ key, s.stored d .latest key = .ok (c key)) ∧
    ∀ key, s'.stored d .latest key = .ok (c.applyAll (Contents.puts windows.flatten) key)

/-- Steps that write windows store the first windows, each as one batch, and stop at a window that
is struck or does not fit. -/
theorem Pool.exists_runSteps_writeSteps {pool : Pool} (hpool : pool.isClosed = false)
    {d : Dictionary} (hkeeps : d.config.KeepsWindows) (range : KeyRange) {entries : List Entry}
    {windows : List (List Entry)} (hwindows : ∀ window ∈ windows, window ∈ d.entryWindows entries)
    {w : World} (h : d.AtRest w) {b : Backend} (hb : b.mend.IsIn w) :
    ∃ r b' written, pool.runSteps (windows.map (d.writeStep range)) b = (r, b') ∧
      written <+: windows.takeWhile (PlainMap.fits range) ∧
      b'.mend.IsIn (w.commits d.column (written.map Contents.puts)) ∧
      (r = .ok () ↔ written = windows) ∧
      (b.engine.faults = [] → written = windows.takeWhile (PlainMap.fits range)) := by
  induction windows generalizing w b with
  | nil => exact ⟨.ok (), b, [], rfl, List.prefix_rfl, hb.commits_nil _, by simp, fun _ => rfl⟩
  | cons window rest ih =>
    rw [List.map_cons, Dictionary.writeStep]
    cases hfind : window.find? fun e => !range.contains e.1 with
    | some e =>
      have hfits : PlainMap.fits range window = false := by
        rw [PlainMap.fits_eq_isNone, hfind]
        rfl
      rw [List.takeWhile_cons_of_neg (Bool.eq_false_iff.mp hfits)]
      exact ⟨_, b, [], rfl, List.prefix_rfl, hb.commits_nil _, by simp, fun _ => rfl⟩
    | none =>
      have hfits : PlainMap.fits range window = true := by
        rw [PlainMap.fits_eq_isNone, hfind]
        rfl
      rw [List.takeWhile_cons_of_pos hfits]
      -- Whatever fails, the window is written as a whole or not at all.
      obtain ⟨r, b₁, w₁, struck, hends, hfaults, hb₁, hr⟩ :=
        (Dictionary.endures_putWindow (ε := Empty) hkeeps h (hwindows window List.mem_cons_self)
          false 1).exists_endsIn hb
      cases hr with
      | all =>
        have hrun : pool.run (discard (d.putWindow window false)) b = (.ok (), b₁) := by
          rw [Pool.run, hpool]
          exact (hends.bind (f := fun _ => pure ()) (Work.endsIn_pure () b₁)).run_eq
        obtain ⟨r, b', written, hsteps, hwritten, hb', hdone, hall⟩ :=
          ih (fun x hx => hwindows x (List.mem_cons_of_mem _ hx)) (h.writes (.commit ..)) hb₁
        refine ⟨r, b', window :: written, ?_, (List.prefix_cons_inj _).mpr hwritten, ?_, ?_, ?_⟩
        · simp only [Pool.runSteps, hrun]
          exact hsteps
        · rw [List.map_cons, World.commits_cons]
          exact hb'
        · rw [hdone, List.cons.injEq, and_iff_right rfl]
        · intro hreliable
          rw [hreliable] at hfaults
          rw [hall (List.eq_nil_of_length_eq_zero (Nat.le_zero.mp hfaults))]
      | nothing e =>
        have hrun : pool.run (discard (d.putWindow window false)) b = (.error e, b₁) := by
          rw [Pool.run, hpool]
          exact hends.bind_failed.run_eq
        refine ⟨.error e, b₁, [], ?_, List.nil_prefix, hb₁.commits_nil _, by simp, ?_⟩
        · simp only [Pool.runSteps, hrun]
        · intro hreliable
          rw [hreliable] at hfaults
          exact absurd hfaults (Nat.not_succ_le_zero _)

namespace Store

variable {s s' : Store} {w : World} {d : Dictionary} {name : String}

/-- What a backend commits is committed by the store that goes on with its engine. -/
theorem commits_of_isIn {windows : List (List Entry)} (hb : (s.backend d).mend.IsIn w)
    (hn : w.HasColumn d.column) {b' : Backend} (hengine : s'.engine = b'.engine)
    (hb' : b'.mend.IsIn (w.commits d.column (windows.map Contents.puts))) :
    s.Commits d windows s' := by
  have hagrees : s.engine.engine.Agrees w.ledger := hb.agrees
  have hagrees' : s'.engine.engine.Agrees
      (w.commits d.column (windows.map Contents.puts)).ledger := hengine ▸ hb'.agrees
  have hlatest : ∀ w : World, w.CanRead .latest := fun _ => trivial
  -- Written one by one, the windows leave what they leave joined.
  have hmade := (World.Writes.commits w d.column (windows.map Contents.puts)).now
  have hflatten : (windows.map Contents.puts).flatten = Contents.puts windows.flatten :=
    List.map_flatten.symm
  refine ⟨?_, ⟨w.ledger, hagrees, ?_⟩, w.now d.column, fun key => hb.get_eq hn (hlatest w) key, ?_⟩
  · rw [hagrees.represents.sequence_eq, hagrees'.represents.sequence_eq]
    simp [World.commits]
  · rw [World.commits, List.map_map] at hagrees'
    exact hagrees'
  · intro key
    have hget := hb'.get_eq hn (hlatest _) key
    rw [hflatten] at hmade
    rw [stored, hengine, ← hmade]
    exact hget

/-- A replacement whose removal fails is no more than that. -/
theorem run_setRange_of_error {range : KeyRange} {e : StoreError} {b : Backend}
    (hd : s.database.find? name = some d)
    (hremoval : s.database.pool.run (d.deleteRange range) (s.backend d) = (.error e, b))
    (entries : List Entry) :
    (Act.on name (.setRange range entries)).run s
      = (.refused e, s.absorb d s.database.pool b) := by
  have hsteps : s.database.pool.runSteps (d.replaceSteps range entries) (s.backend d)
      = (.error e, b) := by
    simp only [Dictionary.replaceSteps, Pool.runSteps, hremoval]
  simp only [Act.run, hd, DictionaryOp.run, answer, setRange, runSteps, onBackend, ExceptT.run_mk,
    hsteps]
  rfl

/-- Behind a removal the steps write that put the new entries. -/
theorem run_setRange_of_ok {range : KeyRange} {b b' : Backend} {r : Except StoreError Unit}
    {entries : List Entry} (hd : s.database.find? name = some d)
    (hremoval : s.database.pool.run (d.deleteRange range) (s.backend d) = (.ok (), b))
    (hwrites : s.database.pool.runSteps (d.writeSteps range entries) b = (r, b')) :
    (Act.on name (.setRange range entries)).run s
      = (.of (fun _ => .done) r, s.absorb d s.database.pool b') := by
  have hsteps : s.database.pool.runSteps (d.replaceSteps range entries) (s.backend d)
      = (r, b') := by
    simp only [Dictionary.replaceSteps, Pool.runSteps, hremoval]
    exact hwrites
  simp only [Act.run, hd, DictionaryOp.run, answer, setRange, runSteps, onBackend, ExceptT.run_mk,
    hsteps]

namespace Recovers

section

variable (h : s.Recovers w) (hd : s.database.find? name = some d)
  (hkeeps : d.config.KeepsWindows)

include h hd hkeeps

/-- A stream of puts stores the windows that it completes. -/
theorem commits_putMany (entries : List Entry) (wantsPrevious : Bool) (limit : Nat) :
    let put := (Act.on name (.putMany entries wantsPrevious limit)).run s
    ∃ ran, ran.map (·.1) <+: d.entryWindows entries ∧
      put.1 = .cut .previous limit (handedOutBy ran) ∧
      ((handedOutBy ran).length < limit → ran.map (·.1) = d.entryWindows entries) ∧
      s.Commits d (completed ran) put.2 ∧
      ran.length ≤ (completed ran).length + s.engine.faults.length ∧
      (s.engine.faults = [] → completed ran = ran.map (·.1)) := by
  have hb := h.backend_isIn hd
  have hrest := h.atRest hd
  obtain ⟨ran, b', hran, hb', hcount⟩ := Dictionary.exists_windowRuns_putWindow hkeeps
    wantsPrevious limit (fun _ hwindow => hwindow) hrest hb
  have hserves : (d.putMany entries wantsPrevious).Serves limit s.database.pool (s.backend d)
      (handedOutBy ran) b' := Stream.serves_windowRuns hran h.isReady.isClosed_eq
  have hcollect := h.isIdle.collect_eq hd hserves hb'.stripes_eq Reply.previous
  have hrun : (Act.on name (.putMany entries wantsPrevious limit)).run s
      = Store.collect d .previous limit (d.putMany entries wantsPrevious) s := by
    simp only [Act.run, hd, DictionaryOp.run]
  intro put
  have hput : put = (.cut .previous limit (handedOutBy ran), _) := hrun.trans hcollect
  rw [hput]
  have hfailed : ran.length ≤ (completed ran).length + s.engine.faults.length := by
    have hfaults : (s.backend d).engine.faults.length = s.engine.faults.length := rfl
    omega
  refine ⟨ran, hran.isPrefix, rfl, hran.eq_of_lt, commits_of_isIn hb hrest.column rfl hb', hfailed,
    fun hreliable => ?_⟩
  rw [hreliable] at hfailed
  exact completed_eq_of_length_le hfailed

/-- A replacement that gets to its new entries stores the first of their windows. -/
theorem commits_setRange (range : KeyRange) (entries : List Entry) :
    let removal := (Act.on name (.setRange range [])).run s
    let set := (Act.on name (.setRange range entries)).run s
    (removal.1 ≠ .done → set = removal) ∧
    (removal.1 = .done → ∃ written,
      written <+: (d.entryWindows entries).takeWhile (PlainMap.fits range) ∧
      removal.2.Commits d written set.2 ∧ (set.1 = .done ↔ written = d.entryWindows entries) ∧
      (removal.2.engine.faults = [] →
        written = (d.entryWindows entries).takeWhile (PlainMap.fits range))) := by
  obtain ⟨r, b₁, hremoval⟩ : ∃ r b₁,
      s.database.pool.run (d.deleteRange range) (s.backend d) = (r, b₁) := ⟨_, _, rfl⟩
  -- If the deletion fails, nothing is written.  Otherwise the windows follow it.
  cases r with
  | error e =>
    rw [run_setRange_of_error hd hremoval, run_setRange_of_error hd hremoval]
    exact ⟨fun _ => rfl, fun hdone => by cases hdone⟩
  | ok u =>
    have hnothing : (Act.on name (.setRange range [])).run s
        = (.done, s.absorb d s.database.pool b₁) := run_setRange_of_ok hd hremoval rfl
    obtain ⟨w₁, h₁, hd₁⟩ := h.on hd (.setRange range [])
    rw [hnothing] at h₁ hd₁
    have hb := h₁.backend_isIn hd₁
    have hrest := h₁.atRest hd₁
    have hb₁ : b₁.mend.IsIn (w₁.seenBy d) := by rwa [backend_absorb hd] at hb
    obtain ⟨r, b', written, hsteps, hwritten, hb', hdone, hall⟩ :=
      Pool.exists_runSteps_writeSteps h.isReady.isClosed_eq hkeeps range
        (fun _ hwindow => hwindow) hrest hb₁
    rw [hnothing, run_setRange_of_ok hd hremoval hsteps]
    refine ⟨fun hne => absurd rfl hne, fun _ => ⟨written, hwritten,
      commits_of_isIn hb hrest.column rfl hb', ?_, hall⟩⟩
    rw [← hdone]
    cases r with
    | ok u => exact ⟨fun _ => rfl, fun _ => rfl⟩
    | error e => exact ⟨fun h => (by cases h), fun h => (by cases h)⟩

end

end Recovers

end Store

/-- **A window is one atomic batch**, if the caps of a batch are no tighter than the bounds of a
window, as they are in every preset.  No window is empty, and each is put by one write of all its
entries.  Whatever calls fail, a stream of puts runs the windows in their order as far as its
consumer asks, commits exactly those that do not fail, and no more of them fail than failures are
scheduled.  A replacement whose removal fails is no more than that; behind the removal it commits
windows up to the first that is struck or does not fit, and succeeds just if these are all. -/
theorem Database.windows_atomic {db : Database} (hnew : db.IsNew)
    (hkeeps : db.config.KeepsWindows) (options : Engine.Options) (before faults : List Fault)
    {script : List Request} (hscript : .close ∉ script) {dictionary : String} {d : Dictionary}
    (hopen : (Store.after ⟨⟨.new options, before⟩, db⟩ script).database.find? dictionary = some d)
    (entries : List Entry) :
    let s := (Store.after ⟨⟨.new options, before⟩, db⟩ script).facing faults
    let windows := d.entryWindows entries
    (∀ processors preset, (Config.preset processors preset).KeepsWindows) ∧
    windows.flatten = entries ∧
    (∀ window ∈ windows, window ≠ [] ∧ ∀ wantsPrevious,
      (d.putWindow window wantsPrevious : Work Empty _) = d.putAtOnce window wantsPrevious) ∧
    (∀ wantsPrevious limit,
      let put := (Act.on dictionary (.putMany entries wantsPrevious limit)).run s
      ∃ ran, ran.map (·.1) <+: windows ∧ put.1 = .cut .previous limit (handedOutBy ran) ∧
        ((handedOutBy ran).length < limit → ran.map (·.1) = windows) ∧
        s.Commits d (completed ran) put.2 ∧
        ran.length ≤ (completed ran).length + faults.length ∧
        (faults = [] → completed ran = ran.map (·.1))) ∧
    ∀ range,
      let removal := (Act.on dictionary (.setRange range [])).run s
      let set := (Act.on dictionary (.setRange range entries)).run s
      (removal.1 ≠ .done → set = removal) ∧
      (removal.1 = .done → ∃ written,
        written <+: windows.takeWhile (PlainMap.fits range) ∧
        removal.2.Commits d written set.2 ∧ (set.1 = .done ↔ written = windows) ∧
        (removal.2.engine.faults = [] →
          written = windows.takeWhile (PlainMap.fits range))) := by
  intro s windows
  obtain ⟨⟨w, hrecovers⟩, _, _, hafter⟩ := (hnew.recovers options before).after hscript
  have hd : s.database.find? dictionary = some d := hopen
  have hfacing : s.Recovers w := hrecovers.facing faults
  have hconfig : d.config = db.config := by
    obtain ⟨-, hopened, -⟩ := hrecovers.isIn.find?_eq hopen
    rw [hopened.config_eq, Store.database_mend, hafter]
  have hkeeps' : d.config.KeepsWindows := hconfig ▸ hkeeps
  refine ⟨Config.keepsWindows_preset, flatten_windows _ entries, fun window hwindow =>
    ⟨ne_nil_of_mem_windows hwindow, Dictionary.putWindow_eq_putAtOnce hkeeps' hwindow⟩, ?_, ?_⟩
  · intro wantsPrevious limit
    exact hfacing.commits_putMany hd hkeeps' entries wantsPrevious limit
  · intro range
    exact hfacing.commits_setRange hd hkeeps' range entries

/-- A database whose batches have the bounds of its windows as caps. -/
def Database.tight : Database :=
  { name := "db"
    engineName := "memory"
    config := { Config.testing with
      multiGetWindow := 2, writeBatchCap := 2, windowMaxBytes := 4, maxWriteBatchBytes := 4 }
    pool := .new "db-storage" Config.testing.maxConcurrentOps Config.testing.maxConcurrentScans
    ownsPool := true
    snapshots := .empty
    dictionaries := []
    isClosed := false }

/-- Two entries that fill a window, and one that fills it alone.  The first window is committed
behind the removal, and the second is not, since its write fails. -/
theorem Database.windows_atomic_of_struck :
    let s := (Store.after ⟨⟨.new (engineOptions tight.config), []⟩, tight⟩
      [.act (.opening "a" .allow)]).facing [⟨.write, 2, .io "no space"⟩]
    let entries : List Entry := [([1], [10]), ([2], [20]), ([3], [30, 31, 32, 33])]
    let removal := (Act.on "a" (.setRange .all [])).run s
    let set := (Act.on "a" (.setRange .all entries)).run s
    ∃ d, s.database.find? "a" = some d ∧ set.1 ≠ .done ∧
      removal.2.Commits d [[([1], [10]), ([2], [20])]] set.2 := by
  intro s entries removal set
  have hnew : tight.IsNew := ⟨rfl, rfl, rfl, Pool.isReady_new _ _ _⟩
  have hfind : ((Store.after ⟨⟨.new (engineOptions tight.config), []⟩, tight⟩
      [.act (.opening "a" .allow)]).database.find? "a").any (fun d => d.entryWindows entries
        = [[([1], [10]), ([2], [20])], [([3], [30, 31, 32, 33])]]) = true := by
    decide +kernel
  obtain ⟨d, hopen, hwindows⟩ := (Option.any_eq_true _ _).mp hfind
  rw [decide_eq_true_iff] at hwindows
  obtain ⟨-, -, -, -, hreplaces⟩ := windows_atomic hnew ⟨by decide, by decide⟩
    (engineOptions tight.config) [] [⟨.write, 2, .io "no space"⟩] (by simp) hopen entries
  have hremoved : removal.1 = .done := by rfl
  obtain ⟨written, hwritten, hcommits, hdone, -⟩ : ∃ written, _ ∧
      removal.2.Commits d written set.2 ∧ (set.1 = .done ↔ written = d.entryWindows entries) ∧ _ :=
    (hreplaces .all).2 hremoved
  -- The engine counts the removal and one window.
  have hremoval : removal.2.engine.engine.sequence = 1 := by decide +kernel
  have hset : set.2.engine.engine.sequence = 2 := by decide +kernel
  have hsequence := hcommits.sequence_eq
  rw [hset, hremoval] at hsequence
  have hlength : written.length = 1 := by omega
  have htake := List.prefix_iff_eq_take.mp (hwritten.trans (List.takeWhile_prefix _))
  rw [hlength, hwindows] at htake
  subst htake
  refine ⟨d, hopen, fun heq => ?_, hcommits⟩
  have hall := congrArg List.length (hdone.mp heq)
  rw [hwindows] at hall
  cases hall

end SnapshotStore
