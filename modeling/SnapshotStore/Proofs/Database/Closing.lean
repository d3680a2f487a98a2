import SnapshotStore.Proofs.Database.Recovery
import SnapshotStore.Proofs.Dictionary.Closed

/-!
# Closed databases

Once a database is closed it refuses every operation, and nothing changes any more, neither what is
stored nor the database itself.  How an operation is refused depends on what it meets first.  What
concerns the database meets its own mark.  Work for the pool meets the pool, which is closed if the
database owns it; on a pool that is still open it goes on to the engine, which is closed.  But work
that reads at a snapshot looks the snapshot up before it gets to the engine, and closing released
all snapshots: what it meets there is that the snapshot is gone.  A size at a snapshot looks it up
even before the pool is asked.
-/

namespace SnapshotStore

variable {ε α : Type}

/-! ## Streams on a closed engine -/

/-- Items that are changed on their way make no difference to work that sends none. -/
theorem Work.EndsIn.mapItems {ζ : Type} {x : Work ε α} {b b' : Backend} {r : Outcome α}
    (h : x.EndsIn b r b') (f : ε → ζ) : (x.mapItems f).EndsIn b r b' :=
  ((h.runs (0 + 1)).mapItems f).endsIn

/-- What is refused with a failure of its own is refused by the pool if that is closed. -/
def Pool.refusal (p : Pool) (e : StoreError) : StoreError := if p.isClosed then .closed else e

@[simp] theorem Pool.refusal_closed (p : Pool) : p.refusal .closed = .closed := ite_self _

section

variable {p : Pool} {b : Backend} {e : StoreError}

/-- Work that fails without touching the store is refused, by the pool first. -/
theorem Pool.run_refused {x : Work Empty α} (hx : x.EndsIn b (.failed e) b) :
    p.run x b = (.error (p.refusal e), b) := by
  unfold Pool.run Pool.refusal
  split
  · rfl
  · exact hx.run_eq

/-- A producer whose work fails at once hands out the failure. -/
theorem Producer.serves_refused (hp : p.isClosed = true ∨ p.IsReady) {work : Work ε Unit}
    (hwork : work.EndsIn b (.failed e) b) (n capacity : Nat) :
    Serves n (idle capacity work) p b (List.take n [.error (p.refusal e)]) p b := by
  cases n with
  | zero => exact .enough rfl
  | succ n =>
    cases hclosed : p.isClosed with
    | true =>
      refine (serves_ended (n + 1) _ p b).of_start_eq ?_
      simp only [start, hclosed, Pool.refusal, if_true]
    | false =>
      have hready := hp.resolve_left (by simp [hclosed])
      have hserves := serves_reported hclosed hready.scans
        (hwork.runs (max capacity 1 + (n + 1)))
      rw [List.nil_append, Outcome.report] at hserves
      simpa only [Pool.refusal, hclosed, Bool.false_eq_true, if_false] using hserves

namespace Stream

/-- So does its stream. -/
theorem serves_produced_refused (hp : p.isClosed = true ∨ p.IsReady) {work : Work ε Unit}
    (hwork : work.EndsIn b (.failed e) b) (n capacity : Nat) :
    (produced (.idle capacity work)).Serves n p b [.error (p.refusal e)] b := by
  obtain ⟨x, p₁, b₁, hmany, hdrop⟩ :=
    pollMany_produced (Producer.serves_refused hp hwork n capacity)
  rw [decide_length_take_lt (Nat.le_refl n)] at hmany
  exact ⟨_, p₁, b₁, hmany, hdrop⟩

/-- The steps behind a producer that fails do not run. -/
theorem serves_followed_refused (hp : p.isClosed = true ∨ p.IsReady) {work : Work ε Unit}
    (hwork : work.EndsIn b (.failed e) b) (n capacity : Nat) (steps : List (Step Unit)) :
    (followed (.idle capacity work) false steps).Serves n p b [.error (p.refusal e)] b := by
  have hserves := Producer.serves_refused hp hwork n capacity
  obtain ⟨s, p₁, b₁, hmany, hdrop⟩ :=
    pollMany_followed_of_skipped hserves false
      (by cases n <;> simp [Except.isOk, Except.toBool]) steps
  rw [decide_length_take_lt (Nat.le_refl n)] at hmany
  exact ⟨s, p₁, b₁, hmany, hdrop⟩

/-- Every window that fails hands out its failure. -/
theorem serves_windowed_refused {windows : List (Work Empty (List ε))}
    (hwindows : ∀ x ∈ windows, x.EndsIn b (.failed e) b) (n : Nat) :
    (windowed [] windows).Serves n p b (windows.map fun _ => .error (p.refusal e)) b := by
  induction windows generalizing n with
  | nil => cases n <;> exact ⟨_, p, b, rfl, rfl⟩
  | cons x rest ih =>
    cases n with
    | zero => exact ⟨_, p, b, rfl, rfl⟩
    | succ n =>
      obtain ⟨s, p₁, b₁, hmany, hdrop⟩ := ih (fun y hy => hwindows y (List.mem_cons_of_mem _ hy)) n
      have hrun := p.run_refused (hwindows x List.mem_cons_self)
      exact ⟨s, p₁, b₁, by simp [pollMany, poll, hrun, hmany], hdrop⟩

end Stream

end

/-! ## Closed stores -/

/-- What an operation of a dictionary answers that is refused with a failure. -/
def DictionaryOp.refused (d : Dictionary) (e : StoreError) : DictionaryOp → Reply
  | getMany _ keys _ limit => .cut .values limit ((d.keyWindows keys).map fun _ => .error e)
  | getEntries _ _ limit => .cut .entries limit [.error e]
  | getKeys _ _ limit => .cut .keys limit [.error e]
  | getGroups _ _ _ limit => .cut .groups limit [.error e]
  | getKeyGroups _ _ _ limit => .cut .keyGroups limit [.error e]
  | getStems _ _ _ limit => .cut .keys limit [.error e]
  | update .. => .updated (.error e) 0
  | putMany entries _ limit => .cut .previous limit ((d.entryWindows entries).map fun _ => .error e)
  | replaceRange _ _ limit => .cut .entries limit [.error e]
  | _ => .refused e

/-- The failure with which an operation of a closed database is refused. -/
def DictionaryOp.refusal (p : Pool) : DictionaryOp → StoreError
  | size token _ _ => Token.refusal token
  | op => p.refusal (Token.refusal op.readsAt?.join)

/-- Whether a mode admits an operation. -/
def DictionaryOp.IsAdmitted (mode : UpdateMode) : DictionaryOp → Prop
  | update .. => mode = .allow
  | _ => True

namespace Store

/-- A closed database on a closed engine, and nobody works on it. -/
structure IsShut (s : Store) : Prop where
  /-- The database is closed. -/
  isClosed : s.database.isClosed = true
  /-- No failure is scheduled. -/
  reliable : s.engine.faults = []
  /-- The engine is closed. -/
  engine : s.engine.engine.isClosed = true
  /-- There are no snapshots. -/
  live : s.database.snapshots.live = []
  /-- The stripes are idle. -/
  isIdle : s.IsIdle
  /-- The pool is closed, or it starts work. -/
  pool : s.database.pool.isClosed = true ∨ s.database.pool.IsReady
  /-- Dictionaries that admit updates have stripes. -/
  striping : ∀ e ∈ s.database.dictionaries, e.1.mode = .allow → e.1.striping.isSome

namespace IsShut

variable {s : Store} {d : Dictionary} {name : String} {e : StoreError}

/-- The check that begins an operation fails. -/
theorem run_checkOpen (h : s.IsShut) : checkOpen.run s = (.error .closed, s) :=
  run_checkOpen_of_closed h.isClosed

variable (h : s.IsShut) (hd : s.database.find? name = some d)
include h

/-- Every dictionary finds the engine closed. -/
theorem backend_isClosed (d : Dictionary) : (s.backend d).IsClosed := ⟨h.reliable, h.engine⟩

include hd

/-- Nobody holds a stripe. -/
theorem areIdle : (s.backend d).stripes.AreIdle := by
  have hstripes : (s.backend d).stripes = (d.striping.map Stripes.idle).getD [] :=
    h.isIdle.stripes_find? hd
  rw [hstripes]
  cases d.striping with
  | none => exact Stripes.areIdle_nil
  | some striping => exact Stripes.areIdle_idle striping

omit hd in
/-- A dictionary that admits updates has stripes. -/
theorem isSome_striping (hd : s.database.find? name = some d) (hmode : d.mode = .allow) :
    d.striping.isSome := by
  obtain ⟨e, he, rfl⟩ := Option.map_eq_some_iff.mp hd
  exact h.striping e (List.mem_of_find?_eq_some he) hmode

/-- Work that is refused leaves the store as it is. -/
theorem run_submit {x : Work Empty α} (hx : x.EndsIn (s.backend d) (.failed e) (s.backend d)) :
    (submit d x).run s = (.error (s.database.pool.refusal e), s) :=
  h.isIdle.onBackend hd (f := fun p b => ((p.run x b).1, p, (p.run x b).2)) (b := s.backend d)
    (by rw [Pool.run_refused hx]) (h.isIdle.stripes_find? hd)

/-- What a refused stream hands out is collected, and the store is as before. -/
theorem collect_eq {x : Stream ε} {limit : Nat} {items : List (Except StoreError ε)}
    (hserves : x.Serves limit s.database.pool (s.backend d) items (s.backend d))
    (f : List (Except StoreError ε) → Bool → Reply) :
    collect d f limit x s = (.cut f limit items, s) :=
  h.isIdle.collect_eq hd hserves (h.isIdle.stripes_find? hd) f

/-- A stream over a range hands out the refusal of its work. -/
theorem collect_producing {x : Work ε Unit}
    (hx : x.EndsIn (s.backend d) (.failed e) (s.backend d))
    (f : List (Except StoreError ε) → Bool → Reply) (limit : Nat) :
    collect d f limit (d.producing x) s
      = (.cut f limit [.error (s.database.pool.refusal e)], s) :=
  h.collect_eq hd (Stream.serves_produced_refused h.pool hx limit _) f

/-- The number of keys is refused before the pool is asked, at a snapshot. -/
theorem run_size (token : Option Token) (range : KeyRange) (fast : Bool) :
    (size d token range fast).run s = (.error (Token.refusal token), s) := by
  have hb := h.backend_isClosed d
  have hrefused {β : Type} {x : Work Empty β}
      (hx : x.EndsIn (s.backend d) (.failed .closed) (s.backend d)) :
      (submit d x).run s = (.error .closed, s) := by
    rw [h.run_submit hd hx, Pool.refusal_closed]
  unfold size
  rw [run_bind_of_ok run_get, run_given_bind]
  -- The token is looked up before anything else, and the register is empty.
  cases token with
  | some t =>
    rw [Snapshots.resolve_of_live_nil h.live]
    rfl
  | none =>
    dsimp only [Snapshots.resolve]
    split
    · split
      · exact hrefused (Work.endsIn_call_of_closed hb (by simp [EngineCall.method]) _ _)
      · exact run_bind_of_error
          (hrefused (Work.endsIn_call_of_closed hb (by simp [EngineCall.method]) _ _))
    · exact hrefused (d.endsIn_count_of_closed hb (h.areIdle hd) _ _ _)

/-! ## Operations -/

/-- An update changes nothing, and where updates are admitted it asks nobody. -/
theorem run_update (key : Bytes) (f : Updater) (sure : Bool) :
    ((DictionaryOp.update key f sure).run d s).2 = s ∧
      (d.mode = .allow →
        ((DictionaryOp.update key f sure).run d s).1 = .updated (.error .closed) 0) := by
  have hcommits : s.engine.engine.sequence - s.engine.engine.sequence = 0 := Nat.sub_self _
  rw [DictionaryOp.run, Dictionary.update]
  cases hmode : d.mode with
  | disallow => exact ⟨rfl, fun hallow => absurd hallow (by decide)⟩
  | allow =>
    obtain ⟨striping, hstriping⟩ := Option.isSome_iff_exists.mp (h.isSome_striping hd hmode)
    have hupdate := h.run_submit hd (d.endsIn_updateAt_of_closed (h.backend_isClosed d)
      (h.areIdle hd) (striping.index key) key f sure)
    rw [Pool.refusal_closed] at hupdate
    simp only [hstriping, submitStep, hupdate, hcommits]
    exact ⟨trivial, fun _ => trivial⟩

omit h hd in
/-- A refusal is answered as one. -/
theorem answer_refused {f : α → Reply} {op : Op α} (hop : op.run s = (.error e, s)) :
    answer f op s = (.refused e, s) := by
  unfold answer
  rw [hop]
  rfl

/-- To set a range begins with a deletion, which is refused. -/
theorem run_setRange (range : KeyRange) (entries : List Entry) :
    (setRange d range entries).run s = (.error (s.database.pool.refusal .closed), s) := by
  have hrun := Pool.run_refused (p := s.database.pool)
    (d.endsIn_deleteRange_of_closed (ε := Empty) (h.backend_isClosed d) (h.areIdle hd) range)
  have hsteps : s.database.pool.runSteps (d.replaceSteps range entries) (s.backend d)
      = (.error (s.database.pool.refusal .closed), s.backend d) := by
    rw [Dictionary.replaceSteps]
    simp only [Pool.runSteps, hrun]
  exact h.isIdle.onBackend hd (f := fun p b => ((p.runSteps (d.replaceSteps range entries) b).1, p,
    (p.runSteps (d.replaceSteps range entries) b).2)) (b := s.backend d) (by rw [hsteps])
    (h.isIdle.stripes_find? hd)

/-- Whether a range is empty is not answered either. -/
theorem run_isEmpty (token : Option Token) (range : KeyRange) :
    (isEmpty d token range).run s
      = (.error (s.database.pool.refusal (Token.refusal token)), s) :=
  run_bind_of_error (h.run_submit hd
    (d.endsIn_getFirst_of_closed (h.backend_isClosed d) (h.areIdle hd) h.live token range))

/-- A closed database refuses every operation of a dictionary, and nothing changes. -/
theorem run_op {op : DictionaryOp} (hop : ∀ key f sure, op ≠ .update key f sure) :
    op.run d s = (op.refused d (op.refusal s.database.pool), s) := by
  have hb := h.backend_isClosed d
  have hidle := h.areIdle hd
  have hlive : (s.backend d).snapshots.live = [] := h.live
  -- Streams hand the refusal out window by window or as their only item; other operations answer
  -- it.
  cases op with
  | update key f sure => exact absurd rfl (hop key f sure)
  | get token key sure =>
    exact answer_refused (h.run_submit hd (d.endsIn_get_of_closed hb hidle hlive token key sure))
  | getMany token keys sure limit =>
    refine (h.collect_eq hd (Stream.serves_windowed_refused (e := Token.refusal token)
      (fun x hx => ?_) limit) .values).trans ?_
    · obtain ⟨window, hwindow, rfl⟩ := List.mem_map.mp hx
      exact d.endsIn_getWindow_of_closed hb hidle hlive token (ne_nil_of_mem_windows hwindow) sure
    · rw [List.map_map]
      rfl
  | getFirst token range =>
    exact answer_refused (h.run_submit hd (d.endsIn_getFirst_of_closed hb hidle hlive token range))
  | isEmpty token range => exact answer_refused (h.run_isEmpty hd token range)
  | size token range fast => exact answer_refused (h.run_size hd token range fast)
  | getEntries token range limit =>
    exact h.collect_producing hd
      (d.endsIn_streamEntries_of_closed hb hidle hlive id token range) .entries limit
  | getKeys token range limit =>
    exact h.collect_producing hd
      (d.endsIn_streamEntries_of_closed hb hidle hlive Prod.fst token range) .keys limit
  | getGroups stemLen token range limit =>
    exact h.collect_producing hd
      (d.endsIn_streamGroups_of_closed hb hidle hlive id stemLen token range) .groups limit
  | getKeyGroups stemLen token range limit =>
    exact h.collect_producing hd
      (d.endsIn_streamGroups_of_closed hb hidle hlive Prod.fst stemLen token range) .keyGroups limit
  | getStems stemLen token range limit =>
    exact h.collect_producing hd
      (d.endsIn_streamStems_of_closed hb hidle hlive stemLen token range) .keys limit
  | put key value result =>
    exact answer_refused (h.run_submit hd (d.endsIn_put_of_closed hb hidle key value result))
  | remove key result =>
    exact answer_refused (h.run_submit hd (d.endsIn_remove_of_closed hb hidle key result))
  | putMany entries wantsPrevious limit =>
    refine (h.collect_eq hd (Stream.serves_windowed_refused (e := .closed) (fun x hx => ?_) limit)
      .previous).trans ?_
    · obtain ⟨window, hwindow, rfl⟩ := List.mem_map.mp hx
      exact d.endsIn_putWindow_of_closed hb hidle (ne_nil_of_mem_windows hwindow) wantsPrevious
    · rw [List.map_map]
      rfl
  | setRange range entries => exact answer_refused (h.run_setRange hd range entries)
  | replaceRange range entries limit =>
    exact h.collect_eq hd (Stream.serves_followed_refused h.pool
      (d.endsIn_drain_of_closed hb hidle range) limit _ _) .entries
  | removeFirst range =>
    exact answer_refused (h.run_submit hd (d.endsIn_removeFirst_of_closed hb hidle range 0))
  | clear => exact answer_refused (h.run_submit hd (d.endsIn_clear_of_closed hb hidle))

/-! ## Nested maps -/

omit hd in
/-- An operation on the key of a tail is refused for the tail or for the work. -/
theorem onKey_eq {A : SubMap} (hA : s.database.find? name = some A.dictionary) (tail : Bytes)
    {x : Bytes → Work Empty α}
    (hx : ∀ key, (x key).EndsIn (s.backend A.dictionary) (.failed e) (s.backend A.dictionary)) :
    ((A.onKey tail x).run s).2 = s := by
  unfold SubMap.onKey
  rw [run_given_bind]
  cases A.fullKey tail with
  | error e' => rfl
  | ok key => exact congrArg Prod.snd (h.run_submit hA (hx key))

omit hd in
/-- A closed database does not change by an operation of a nested map, either. -/
theorem run_nested {A : SubMap} (hA : s.database.find? name = some A.dictionary)
    (op : SubMapOp) : (op.run A s).2 = s := by
  have hb := h.backend_isClosed A.dictionary
  have hidle := h.areIdle hA
  have hlive : (s.backend A.dictionary).snapshots.live = [] := h.live
  have hstream {γ ζ : Type} {x : Work γ Unit} {e : StoreError} (g : γ → ζ)
      (hx : x.EndsIn (s.backend A.dictionary) (.failed e) (s.backend A.dictionary))
      (f : List (Except StoreError ζ) → Bool → Reply) (limit : Nat) :
      (collect A.dictionary f limit ((A.dictionary.producing x).map g) s).2 = s :=
    congrArg Prod.snd (h.collect_producing hA (hx.mapItems g) f limit)
  cases op with
  | get token tail =>
    exact h.onKey_eq hA tail fun key =>
      A.dictionary.endsIn_get_of_closed hb hidle hlive token key false
  | put tail value result =>
    exact h.onKey_eq hA tail fun key => A.dictionary.endsIn_put_of_closed hb hidle key value result
  | remove tail result =>
    exact h.onKey_eq hA tail fun key => A.dictionary.endsIn_remove_of_closed hb hidle key result
  | update tail f =>
    show ((A.update tail f).run s).2 = s
    rw [SubMap.update, run_given_bind]
    cases A.fullKey tail with
    | error e' => rfl
    | ok key => exact (h.run_update hA key f false).1
  | size token fast => exact congrArg Prod.snd (h.run_size hA token A.range fast)
  | isEmpty token => exact congrArg Prod.snd (h.run_isEmpty hA token A.range)
  | clear =>
    rw [SubMapOp.run, SubMap.clear]
    split
    · exact congrArg Prod.snd (h.run_submit hA (A.dictionary.endsIn_clear_of_closed hb hidle))
    · exact congrArg Prod.snd (h.run_setRange hA A.range [])
  | setAll entries =>
    have hset := h.run_setRange hA A.range (A.fullEntries entries).1
    exact congrArg Prod.snd (run_bind_of_error hset)
  | getEntries token limit =>
    exact hstream _
      (A.dictionary.endsIn_streamEntries_of_closed hb hidle hlive id token A.range) _ limit
  | getKeys token limit =>
    exact hstream _
      (A.dictionary.endsIn_streamEntries_of_closed hb hidle hlive Prod.fst token A.range) _ limit
  | getChildKeys token limit =>
    exact hstream _
      (A.dictionary.endsIn_streamStems_of_closed hb hidle hlive _ token A.range) _ limit

omit hd in
/-- No dictionary is opened any more. -/
theorem run_opening (name : String) (mode : UpdateMode) :
    (Act.opening name mode).run s = (.refused .closed, s) := by
  rw [Act.run]
  refine answer_refused ?_
  unfold dictionary
  exact run_bind_of_error h.run_checkOpen

omit hd in
/-- No snapshot is taken any more. -/
theorem run_takeSnapshot : Act.takeSnapshot.run s = (.refused .closed, s) := by
  rw [Act.run]
  refine answer_refused ?_
  unfold takeSnapshot
  exact run_bind_of_error h.run_checkOpen

omit hd in
/-- Nothing is flushed any more. -/
theorem run_flush : Act.flush.run s = (.refused .closed, s) := by
  rw [Act.run]
  refine answer_refused ?_
  unfold flush
  exact run_bind_of_error h.run_checkOpen

omit hd in
/-- All tokens are gone, so none can be released. -/
theorem run_releaseSnapshot (t : Token) :
    (Act.releaseSnapshot t).run s
      = (.refused (s.database.pool.refusal (.snapshotNotFound t)), s) := by
  have hgone : s.database.snapshots.sequence? t = none := by simp [Snapshots.sequence?, h.live]
  rw [Act.run]
  refine answer_refused ?_
  unfold releaseSnapshot submitPlain Pool.run Pool.refusal
  rw [ExceptT.run_mk]
  cases s.database.pool.isClosed with
  | true => rfl
  | false =>
    simp only [Bool.false_eq_true, if_false, Work.run_releaseSnapshot, hgone,
      Snapshots.forget_of_not_live hgone]

omit hd in
/-- Closing again does nothing. -/
theorem run_close : Request.close.run s = (.done, s) := by
  have hclose : close.run s = (.ok (), s) := by
    unfold close
    rw [run_bind_of_ok run_get, if_pos h.isClosed]
    rfl
  rw [Request.run, answer, hclose]
  rfl

end IsShut

variable {s : Store} {w : World}

/-- What closing leaves of a store. -/
def closed (s : Store) : Store :=
  let database := { s.database with
    isClosed := true
    pool := if s.database.ownsPool then s.database.pool.close else s.database.pool }
  let released := releaseAll ⟨s.engine, database⟩
  ⟨(released.engine.answer .flush).2.modify Engine.close, released.database⟩

/-- The first close leaves a store that is closed. -/
theorem run_close_of_open (hopen : s.database.isClosed = false) :
    (Request.close.run s).2 = s.closed := by
  show (close.run s).2 = s.closed
  unfold close
  rw [run_bind_of_ok run_get, hopen]
  rfl

/-- Closing a store that recovers shuts it, whatever fails meanwhile. -/
theorem Recovers.isShut (h : s.Recovers w) : s.closed.mend.IsShut where
  isClosed := rfl
  reliable := rfl
  engine := rfl
  live := rfl
  isIdle := ⟨h.isIdle.nodup, h.isIdle.stripes_eq⟩
  pool := by
    show (if s.database.ownsPool then s.database.pool.close else s.database.pool).isClosed = true ∨
      Pool.IsReady (if s.database.ownsPool then s.database.pool.close else s.database.pool)
    split
    · exact .inl rfl
    · exact .inr h.isIn.pool
  striping e he := (h.isIn.isOpened e he).striping

/-- Closing closes the pool that the database owns. -/
theorem Recovers.isClosed_pool_closed (h : s.Recovers w) :
    s.closed.mend.database.pool.isClosed = s.database.ownsPool := by
  show (if s.database.ownsPool then s.database.pool.close else s.database.pool).isClosed = _
  cases s.database.ownsPool with
  | true => rfl
  | false => exact h.isIn.pool.isClosed_eq

/-- A shut store does not change by any request. -/
theorem IsShut.run_request (h : s.IsShut) (r : Request) : (r.run s).2 = s := by
  cases r with
  | close => exact congrArg Prod.snd h.run_close
  | nested name stem layout op =>
    cases hnested : s.database.nested? name stem layout with
    | none => simp only [Request.run, hnested]
    | some made =>
      cases made with
      | error e => simp only [Request.run, hnested]
      | ok A =>
        simp only [Request.run, hnested]
        exact h.run_nested (nested?_eq_some hnested).1 op
  | act a =>
    cases a with
    | opening name mode => exact congrArg Prod.snd (h.run_opening name mode)
    | takeSnapshot => exact congrArg Prod.snd h.run_takeSnapshot
    | releaseSnapshot t => exact congrArg Prod.snd (h.run_releaseSnapshot t)
    | flush => exact congrArg Prod.snd h.run_flush
    | on name op =>
      cases hd : s.database.find? name with
      | none => simp only [Request.run, Act.run, hd]
      | some d =>
        simp only [Request.run, Act.run, hd]
        -- An update may be refused for the mode of its dictionary.
        by_cases hop : ∃ key f sure, op = .update key f sure
        · obtain ⟨key, f, sure, rfl⟩ := hop
          exact (h.run_update hd key f sure).1
        · rw [h.run_op hd fun key f sure heq => hop ⟨key, f, sure, heq⟩]

/-- Every operation of a dictionary that its mode admits is refused. -/
theorem IsShut.run_on (h : s.IsShut) {name : String} {d : Dictionary}
    (hd : s.database.find? name = some d) {op : DictionaryOp} (hop : op.IsAdmitted d.mode) :
    ((Request.act (.on name op)).run s).1 = op.refused d (op.refusal s.database.pool) := by
  simp only [Request.run, Act.run, hd]
  cases op with
  | update key f sure =>
    rw [(h.run_update hd key f sure).2 hop]
    simp [DictionaryOp.refused, DictionaryOp.refusal, DictionaryOp.readsAt?, Token.refusal]
  | _ => rw [h.run_op hd (by simp)]

end Store

namespace Database

variable {name engineName : String} {config : Config} {pool : Option Pool} {db : Database}

/-- What is left of a database that was created, used and closed, whatever failed meanwhile. -/
theorem isShut_close (hcreate : create name engineName config pool = .ok db)
    (hpool : ∀ p ∈ pool, p.IsReady) (options : Engine.Options) (faults : List Fault)
    {script : List Request} (hscript : .close ∉ script) :
    let s := (Request.close.run (Store.after ⟨⟨.new options, faults⟩, db⟩ script)).2.mend
    s.IsShut ∧ s.database.pool.isClosed = pool.isNone := by
  intro s
  obtain ⟨⟨w, hrecovers⟩, _, _, hafter⟩ :=
    (recovers_create hcreate hpool options faults).after hscript
  have hs : s = (Store.closed _).mend :=
    congrArg Store.mend (Store.run_close_of_open hrecovers.isIn.isClosed_eq)
  obtain ⟨poolName, rfl⟩ := create_eq_ok hcreate
  exact ⟨hs ▸ hrecovers.isShut, by rw [hs, hrecovers.isClosed_pool_closed, hafter]⟩

/-- **A closed database refuses everything, and nothing changes any more.**  The refusal is that it
is closed, but for reads at a snapshot.  Closing released the snapshot; that it is not there is the
refusal if the pool is another's, which closing leaves open, and always the refusal of a size. -/
theorem closed_refuses (hcreate : create name engineName config pool = .ok db)
    (hpool : ∀ p ∈ pool, p.IsReady) (options : Engine.Options) (faults : List Fault)
    {script : List Request} (hscript : .close ∉ script) :
    let s := (Request.close.run (Store.after ⟨⟨.new options, faults⟩, db⟩ script)).2.mend
    s.database.pool.isClosed = pool.isNone ∧
      (∀ r : Request, (r.run s).2 = s) ∧
      (Request.close.run s).1 = .done ∧
      (∀ name mode, ((Request.act (.opening name mode)).run s).1 = .refused .closed) ∧
      ((Request.act .takeSnapshot).run s).1 = .refused .closed ∧
      ((Request.act .flush).run s).1 = .refused .closed ∧
      ∀ (name : String) (d : Dictionary) (op : DictionaryOp), s.database.find? name = some d →
        op.IsAdmitted d.mode →
          ((Request.act (.on name op)).run s).1 = op.refused d (op.refusal s.database.pool) := by
  intro s
  obtain ⟨hshut, hclosed⟩ := isShut_close hcreate hpool options faults hscript
  exact ⟨hclosed, hshut.run_request, congrArg Prod.fst hshut.run_close,
    fun name mode => congrArg Prod.fst (hshut.run_opening name mode),
    congrArg Prod.fst hshut.run_takeSnapshot, congrArg Prod.fst hshut.run_flush,
    fun name d op hd hop => hshut.run_on hd hop⟩

/-- A new database on a pool from outside, or on its own. -/
def trial (pool : Option Pool) : Database :=
  { name := "db"
    engineName := "memory"
    config := .testing
    pool := pool.getD
      (.new "db-storage" Config.testing.maxConcurrentOps Config.testing.maxConcurrentScans)
    ownsPool := pool.isNone
    snapshots := .empty
    dictionaries := []
    isClosed := false }

/-- A value is put, and a snapshot taken. -/
def trialScript : List Request :=
  [.act (.opening "a" .allow), .act (.on "a" (.put [1] [10] .previousValue)), .act .takeSnapshot]

/-- What is left when the database is closed then. -/
def closedTrial (pool : Option Pool) : Store :=
  (Request.close.run
    (Store.after ⟨⟨.new (engineOptions .testing), []⟩, trial pool⟩ trialScript)).2.mend

/-- A read of the newest state and one at the snapshot, on a pool from outside. -/
theorem closed_refuses_of_shared :
    let s := closedTrial (some (.new "shared" 1 1))
    (Request.act (.on "a" (.get none [1] false))).run s = (.refused .closed, s) ∧
      (Request.act (.on "a" (.get (some 1) [1] false))).run s
        = (.refused (.snapshotNotFound 1), s) := by
  intro s
  obtain ⟨hopen, hsame, -, -, -, -, hrefused⟩ :=
    closed_refuses (show create "db" "memory" .testing (some (.new "shared" 1 1))
        = .ok (trial (some (.new "shared" 1 1))) from rfl)
      (fun p hp => Option.mem_some.mp hp ▸ Pool.isReady_new "shared" 1 1)
      (engineOptions .testing) [] (show Request.close ∉ trialScript by simp [trialScript])
  have hfind : ((closedTrial (some (.new "shared" 1 1))).database.find? "a").isSome = true := by
    decide +kernel
  obtain ⟨d, hd⟩ := Option.isSome_iff_exists.mp hfind
  have hget (token : Option Token) :
      ((Request.act (.on "a" (.get token [1] false))).run s).1
        = .refused (Token.refusal token) := by
    refine (hrefused "a" d (.get token [1] false) hd trivial).trans ?_
    simp [DictionaryOp.refused, DictionaryOp.refusal, DictionaryOp.readsAt?, Pool.refusal, hopen]
  exact ⟨Prod.ext (hget none) (hsame _), Prod.ext (hget (some 1)) (hsame _)⟩

/-- At the snapshot, a read on a pool from outside and a size on any pool do not find the database
closed. -/
theorem closed_snapshot_notFound :
    ((Request.act (.on "a" (.get (some 1) [1] false))).run
        (closedTrial (some (.new "shared" 1 1)))).1 = .refused (.snapshotNotFound 1) ∧
      ((Request.act (.on "a" (.size (some 1) .all true))).run (closedTrial none)).1
        = .refused (.snapshotNotFound 1) ∧
      StoreError.snapshotNotFound 1 ≠ .closed := by
  have hscript : Request.close ∉ trialScript := by simp [trialScript]
  obtain ⟨hshared, hopen⟩ :=
    isShut_close (show create "db" "memory" .testing (some (.new "shared" 1 1))
        = .ok (trial (some (.new "shared" 1 1))) from rfl)
      (fun p hp => Option.mem_some.mp hp ▸ Pool.isReady_new "shared" 1 1)
      (engineOptions .testing) [] hscript
  obtain ⟨howned, -⟩ :=
    isShut_close (show create "db" "memory" .testing none = .ok (trial none) from rfl) (by simp)
      (engineOptions .testing) [] hscript
  have hfind : ((closedTrial (some (.new "shared" 1 1))).database.find? "a").isSome = true := by
    decide +kernel
  have hfind' : ((closedTrial none).database.find? "a").isSome = true := by decide +kernel
  obtain ⟨d, hd⟩ := Option.isSome_iff_exists.mp hfind
  obtain ⟨d', hd'⟩ := Option.isSome_iff_exists.mp hfind'
  have hget : (DictionaryOp.get (some 1) [1] false).IsAdmitted d.mode := trivial
  have hsize : (DictionaryOp.size (some 1) .all true).IsAdmitted d'.mode := trivial
  refine ⟨(hshared.run_on hd hget).trans ?_, howned.run_on hd' hsize, by simp⟩
  simp [DictionaryOp.refused, DictionaryOp.refusal, DictionaryOp.readsAt?, Pool.refusal, hopen,
    Token.refusal]

end Database

end SnapshotStore
