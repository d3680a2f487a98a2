import SnapshotStore.Dictionary.Streams
import SnapshotStore.Proofs.Dictionary.Multi
import SnapshotStore.Proofs.Dictionary.Ranges
import SnapshotStore.Proofs.Producer
import SnapshotStore.Proofs.Windows

/-!
# What streams hand out

A consumer asks for at most `n` items and then goes away: `Stream.Serves` says what it gets and what
is left behind.

A stream over windows runs a window when the first of its items is asked for, and a window that
fails hands out its failure as one item.  `WindowRuns` follows it window by window.  On an engine
that works the consumer gets the first `n` items that all windows together would hand out
(`HandsOut`), and the windows that ran are those that these items come from (`demanded`).  A stream
of a producer hands out what the producer sends, and one that is followed by steps runs these when
its end is seen.
-/

namespace SnapshotStore

variable {α ε : Type}

/-- The windows that run when `n` items are asked for, if each hands out one item for one of its
own. -/
def demanded : Nat → List (List α) → List (List α)
  | 0, _ => []
  | _ + 1, [] => []
  | n + 1, window :: rest => window :: demanded (n + 1 - window.length) rest

/-- The windows that run are the first ones. -/
theorem demanded_isPrefix (n : Nat) (windows : List (List α)) : demanded n windows <+: windows := by
  induction windows generalizing n with
  | nil => cases n <;> exact List.prefix_rfl
  | cons window rest ih =>
    cases n with
    | zero => exact List.nil_prefix
    | succ n => exact (List.prefix_cons_inj window).mpr (ih _)

/-- They have what is asked for, unless all of them have less. -/
theorem le_length_flatten_demanded (n : Nat) (windows : List (List α)) :
    min n windows.flatten.length ≤ (demanded n windows).flatten.length := by
  induction windows generalizing n with
  | nil => exact (Nat.min_le_right n 0).trans (Nat.zero_le _)
  | cons window rest ih =>
    cases n with
    | zero => exact Nat.min_le_left _ _
    | succ n =>
      have hrest := ih (n + 1 - window.length)
      rw [demanded, List.flatten_cons, List.flatten_cons, List.length_append, List.length_append]
      omega

/-- What a window hands out at its end. -/
def Outcome.handedOut (r : Outcome (List ε)) : List (Except StoreError ε) :=
  match r.toExcept with
  | .ok items => items.map .ok
  | .error e => [.error e]

/-- Windows run one after the other, however each of them ends, as long as a consumer that asks for
a number of items needs them. -/
inductive WindowRuns (run : α → Work Empty (List ε)) :
    Nat → List α → Backend → List (α × Outcome (List ε)) → Backend → Prop
  /-- Nothing more is asked for. -/
  | enough (xs : List α) (b : Backend) : WindowRuns run 0 xs b [] b
  /-- There are no more windows. -/
  | ended (n : Nat) (b : Backend) : WindowRuns run (n + 1) [] b [] b
  /-- A window runs. -/
  | window {n : Nat} {x : α} {xs : List α} {b b₁ b' : Backend} {r : Outcome (List ε)}
      {ran : List (α × Outcome (List ε))} (hx : (run x).EndsIn b r b₁) (hne : r.handedOut ≠ [])
      (hrest : WindowRuns run (n + 1 - r.handedOut.length) xs b₁ ran b') :
      WindowRuns run (n + 1) (x :: xs) b ((x, r) :: ran) b'

/-- What windows that ran hand out. -/
def handedOutBy (ran : List (α × Outcome (List ε))) : List (Except StoreError ε) :=
  ran.flatMap (·.2.handedOut)

namespace WindowRuns

variable {run : α → Work Empty (List ε)} {n : Nat} {xs : List α} {b b' : Backend}
  {ran : List (α × Outcome (List ε))}

/-- The windows that run are the first ones. -/
theorem isPrefix (h : WindowRuns run n xs b ran b') : ran.map (·.1) <+: xs := by
  induction h with
  | enough xs b => exact List.nil_prefix
  | ended n b => exact List.prefix_rfl
  | window hx hne hrest ih => exact (List.prefix_cons_inj _).mpr ih

/-- A consumer that does not get all that it asks for has seen all windows run. -/
theorem eq_of_lt (h : WindowRuns run n xs b ran b') (hlt : (handedOutBy ran).length < n) :
    ran.map (·.1) = xs := by
  induction h with
  | enough xs b => exact absurd hlt (Nat.not_lt_zero _)
  | ended n b => rfl
  | @window n x xs b b₁ b' r ran hx hne hrest ih =>
    rw [handedOutBy, List.flatMap_cons, List.length_append] at hlt
    exact congrArg (x :: ·) (ih (Nat.lt_sub_of_add_lt (by rwa [Nat.add_comm])))

end WindowRuns

/-- A consumer that asks for no more than a number of items cannot tell whether there are more than
these. -/
theorem decide_length_take_lt {n k : Nat} (hk : n ≤ k) (items : List α) :
    decide ((items.take k).length < n) = decide (items.length < n) := by
  rw [List.length_take, decide_eq_decide]
  omega

/-- Windows run one after the other as long as a consumer that asks for a number of items needs
them; `items` are what all of them hand out, and may be anything behind what is asked for. -/
inductive HandsOut (run : α → Work Empty (List ε)) :
    Nat → List α → World → List (Except StoreError ε) → World → Prop
  /-- Nothing more is asked for. -/
  | enough (xs : List α) (w : World) (items : List (Except StoreError ε)) :
      HandsOut run 0 xs w items w
  /-- There are no more windows. -/
  | ended (n : Nat) (w : World) : HandsOut run (n + 1) [] w [] w
  /-- A window runs. -/
  | window {n : Nat} {x : α} {xs : List α} {w w₁ w' : World} {r : Outcome (List ε)}
      {items : List (Except StoreError ε)} (hx : (run x).Takes w r w₁) (hne : r.handedOut ≠ [])
      (hrest : HandsOut run (n + 1 - r.handedOut.length) xs w₁ items w') :
      HandsOut run (n + 1) (x :: xs) w (r.handedOut ++ items) w'

namespace Stream

variable {p p' : Pool} {b b' : Backend} {items : List (Except StoreError ε)} {isEnd : Bool}

/-- A consumer asks a stream for at most `n` items, gets the first of some items, sees the end if it
asked for more, and goes away. -/
def Serves (s : Stream ε) (n : Nat) (p : Pool) (b : Backend) (items : List (Except StoreError ε))
    (b' : Backend) : Prop :=
  ∃ s' p₁ b₁, s.pollMany n p b = ((items.take n, decide (items.length < n), s'), p₁, b₁) ∧
    s'.drop p₁ b₁ = (p, b')

/-! ## Windows -/

/-- The items at hand come first. -/
private theorem pollMany_ready {n : Nat} {ready ready' : List ε}
    {windows windows' : List (Work Empty (List ε))}
    (h : (windowed [] windows).pollMany (n - ready.length) p b
      = ((items, isEnd, windowed ready' windows'), p', b')) :
    ∃ ready' windows', (windowed ready windows).pollMany n p b
      = (((ready.map .ok).take n ++ items, isEnd, windowed ready' windows'), p', b') := by
  induction ready generalizing n with
  | nil => exact ⟨ready', windows', by simpa using h⟩
  | cons item ready ih =>
    cases n with
    | zero =>
      rw [Nat.zero_sub] at h
      obtain ⟨⟨rfl, rfl, -⟩, rfl, rfl⟩ := by simpa [pollMany] using h
      exact ⟨_, _, rfl⟩
    | succ n =>
      obtain ⟨ready', windows', hrest⟩ := ih (n := n) (by simpa using h)
      exact ⟨ready', windows', by simp [pollMany, poll, hrest]⟩

/-- A consumer gets the first items of all, and sees the end if it asks for more. -/
private theorem pollMany_windowed {run : α → Work Empty (List ε)} {n : Nat} {xs : List α}
    {ran : List (α × Outcome (List ε))} (h : WindowRuns run n xs b ran b')
    (hp : p.isClosed = false) :
    ∃ ready windows, (windowed [] (xs.map run)).pollMany n p b
      = (((handedOutBy ran).take n, decide ((handedOutBy ran).length < n),
          windowed ready windows), p, b') := by
  induction h with
  | enough xs b => exact ⟨_, _, by rw [pollMany]; rfl⟩
  | ended n b => exact ⟨_, _, rfl⟩
  | @window n x xs b b₁ b' r ran hx hne _ ih =>
    have hrun : p.run (run x) b = (r.toExcept, b₁) := by
      rw [Pool.run, hp]
      exact hx.run_eq
    obtain ⟨ready', windows', hrest⟩ := ih
    have hend : decide ((r.handedOut ++ handedOutBy ran).length < n + 1)
        = decide ((handedOutBy ran).length < n + 1 - r.handedOut.length) := by
      rw [List.length_append, decide_eq_decide]
      omega
    rw [handedOutBy, List.flatMap_cons, ← handedOutBy, List.take_append, hend]
    -- A failure is one item; of the items of a window the first is handed out by the poll that ran it.
    cases hr : r.toExcept with
    | error e =>
      have hitems : r.handedOut = [.error e] := by rw [Outcome.handedOut, hr]
      rw [hitems, List.length_singleton, Nat.add_sub_cancel] at hrest ⊢
      exact ⟨ready', windows', by simp [pollMany, poll, hrun, hr, hrest]⟩
    | ok ready =>
      have hitems : r.handedOut = ready.map .ok := by rw [Outcome.handedOut, hr]
      rw [hitems] at hne hrest ⊢
      obtain ⟨item, ready, rfl⟩ :=
        List.exists_cons_of_ne_nil (fun h : ready = [] => hne (by rw [h]; rfl))
      rw [List.length_map, List.length_cons, Nat.add_sub_add_right] at hrest ⊢
      obtain ⟨ready', windows', hready⟩ := pollMany_ready hrest
      exact ⟨ready', windows', by simp [pollMany, poll, hrun, hr, hready]⟩

/-- What is left of a stream over windows are windows, which nobody has to give up. -/
theorem serves_windowRuns {run : α → Work Empty (List ε)} {n : Nat} {xs : List α}
    {ran : List (α × Outcome (List ε))} (h : WindowRuns run n xs b ran b')
    (hp : p.isClosed = false) :
    (windowed [] (xs.map run)).Serves n p b (handedOutBy ran) b' := by
  obtain ⟨ready, windows, hpoll⟩ := pollMany_windowed h hp
  exact ⟨_, _, _, hpoll, rfl⟩

/-- On an engine that works, the windows that run hand out as much as is asked for of what all of
them hand out. -/
private theorem exists_windowRuns {run : α → Work Empty (List ε)} {n : Nat} {xs : List α}
    {w w' : World} (h : HandsOut run n xs w items w') (hb : b.IsIn w) :
    ∃ ran b' rest, WindowRuns run n xs b ran b' ∧ b'.IsIn w' ∧ items = handedOutBy ran ++ rest ∧
      (rest = [] ∨ n ≤ (handedOutBy ran).length) := by
  induction h generalizing b with
  | enough xs w items => exact ⟨[], b, items, .enough xs b, hb, rfl, .inr (Nat.le_refl 0)⟩
  | ended n w => exact ⟨[], b, [], .ended n b, hb, rfl, .inl rfl⟩
  | @window n x xs w w₁ w' r items hx hne _ ih =>
    obtain ⟨b₁, hends, hb₁⟩ := hx b hb
    obtain ⟨ran, b', rest, hrest, hb', rfl, hlength⟩ := ih hb₁
    refine ⟨_, b', rest, .window hends hne hrest, hb', (List.append_assoc ..).symm, ?_⟩
    refine hlength.imp_right fun hle => ?_
    rw [handedOutBy, List.flatMap_cons, List.length_append]
    exact Nat.sub_le_iff_le_add'.mp hle

/-- On an engine that works, a consumer gets the first items of all windows. -/
theorem serves_windowed {run : α → Work Empty (List ε)} {n : Nat} {xs : List α} {w w' : World}
    (h : HandsOut run n xs w items w') (hp : p.isClosed = false) (hb : b.IsIn w) :
    ∃ b', (windowed [] (xs.map run)).Serves n p b items b' ∧ b'.IsIn w' := by
  obtain ⟨ran, b', rest, hran, hb', rfl, hlength⟩ := exists_windowRuns h hb
  obtain ⟨s', p₁, b₁, hpoll, hdrop⟩ := serves_windowRuns hran hp
  refine ⟨b', ⟨s', p₁, b₁, ?_, hdrop⟩, hb'⟩
  rcases hlength with rfl | hle
  · rwa [List.append_nil]
  · rw [hpoll, List.take_append_of_le_length hle, List.length_append]
    congr 4
    exact propext ⟨by omega, by omega⟩

/-! ## Producers -/

/-- A stream of a producer hands out what the producer does. -/
theorem pollMany_produced {x : Producer ε} {n : Nat}
    (h : Producer.Serves n x p b items p' b') :
    ∃ x' p₁ b₁, (produced x).pollMany n p b
      = ((items, decide (items.length < n), produced x'), p₁, b₁) ∧ x'.drop p₁ b₁ = (p', b') := by
  induction h with
  | @enough x p p' b b' h => exact ⟨x, p, b, rfl, h⟩
  | item h hrest ih =>
    obtain ⟨x', p₁, b₁, hmany, hdrop⟩ := ih
    exact ⟨x', p₁, b₁, by simp [pollMany, poll, h, hmany], hdrop⟩
  | @ended n x p p' b b' h => exact ⟨.ended [], p', b', by simp [pollMany, poll, h], rfl⟩

/-- A consumer cannot tell how far a producer is ahead. -/
theorem serves_produced {work : Work ε Unit} {w : World} (h : work.Sends w items)
    (hp : p.isClosed = false) (hscans : 0 < p.scans.available) (hb : b.IsIn w) (n capacity : Nat) :
    ∃ b', (produced (.idle capacity work)).Serves n p b items b' ∧ b'.IsIn w := by
  cases n with
  | zero => exact ⟨b, ⟨_, p, b, rfl, rfl⟩, hb⟩
  | succ n =>
    obtain ⟨b', hruns, hb'⟩ := h (max capacity 1 + (n + 1)) b hb
    have hserves := Producer.serves_idle hp hscans hruns
    rw [List.take_take, Nat.min_eq_left (Nat.le_add_left ..)] at hserves
    obtain ⟨x', p₁, b₁, hmany, hdrop⟩ := pollMany_produced hserves
    rw [decide_length_take_lt (Nat.le_refl _)] at hmany
    exact ⟨b', ⟨_, p₁, b₁, hmany, hdrop⟩, hb'⟩

/-- A consumer gets the failure of a producer behind what that sent before. -/
theorem serves_produced_of_runs {work : Work ε Unit} {r : Outcome Unit} {n capacity : Nat}
    (h : work.Runs (max capacity 1 + (n + 1)) b items r b') (hp : p.isClosed = false)
    (hscans : 0 < p.scans.available) :
    (produced (.idle capacity work)).Serves (n + 1) p b (items ++ r.report) b' := by
  obtain ⟨x', p₁, b₁, hmany, hdrop⟩ := pollMany_produced (Producer.serves_reported hp hscans h)
  rw [decide_length_take_lt (Nat.le_refl _)] at hmany
  exact ⟨_, p₁, b₁, hmany, hdrop⟩

/-! ## Producers with steps behind them -/

/-- The item that steps add if they fail. -/
def failureItem : Except StoreError Unit → List (Except StoreError ε)
  | .ok _ => []
  | .error e => [.error e]

variable {x : Producer ε} {n : Nat}

/-- The steps do not run for a consumer that does not see the end of the producer, nor behind a
failure. -/
theorem pollMany_followed_of_skipped (h : Producer.Serves n x p b items p' b') (hasFailed : Bool)
    (hskipped : items.length = n ∨ hasFailed = true ∨ ∃ i ∈ items, i.isOk = false)
    (steps : List (Step Unit)) :
    ∃ s' p₁ b₁, (followed x hasFailed steps).pollMany n p b
      = ((items, decide (items.length < n), s'), p₁, b₁) ∧ s'.drop p₁ b₁ = (p', b') := by
  induction h generalizing hasFailed with
  | @enough x p p' b b' h => exact ⟨followed x hasFailed steps, p, b, rfl, h⟩
  | @item n x x₁ p p₁ p' b b₁ b' i items h hrest ih =>
    cases i with
    | error e =>
      obtain ⟨s', p₂, b₂, hmany, hdrop⟩ := ih true (.inr (.inl rfl))
      exact ⟨s', p₂, b₂, by simp [pollMany, poll, h, hmany], hdrop⟩
    | ok item =>
      obtain ⟨s', p₂, b₂, hmany, hdrop⟩ := ih hasFailed <| by
        rcases hskipped with hlength | hfailed | ⟨j, hj, hfailed⟩
        · exact .inl (by simpa using hlength)
        · exact .inr (.inl hfailed)
        · rcases List.mem_cons.mp hj with rfl | hj
          · cases hfailed
          · exact .inr (.inr ⟨j, hj, hfailed⟩)
      exact ⟨s', p₂, b₂, by simp [pollMany, poll, h, hmany], hdrop⟩
  | @ended n x p p' b b' h =>
    obtain rfl : hasFailed = true := by simpa using hskipped
    exact ⟨followed (.ended []) true [], p', b', by simp [pollMany, poll, h], rfl⟩

/-- So such a consumer cannot tell that there are steps. -/
theorem serves_followed_of_runs {work : Work ε Unit} {r : Outcome Unit} {capacity : Nat}
    (h : work.Runs (max capacity 1 + (n + 1)) b items r b') (hp : p.isClosed = false)
    (hscans : 0 < p.scans.available) (hskipped : n + 1 ≤ items.length ∨ r ≠ .done ())
    (steps : List (Step Unit)) :
    (followed (.idle capacity work) false steps).Serves (n + 1) p b (items ++ r.report) b' := by
  have hserves := Producer.serves_reported hp hscans h
  have hskip : ((items ++ r.report).take (n + 1)).length = n + 1 ∨
      ∃ i ∈ (items ++ r.report).take (n + 1), i.isOk = false := by
    by_cases hlength : n + 1 ≤ items.length
    · exact .inl (List.length_take_of_le (List.length_append .. ▸ Nat.le_add_right_of_le hlength))
    · -- What the consumer asks for reaches beyond the items, to the failure.
      have hfailed : ∃ e, r.report = [(.error e : Except StoreError ε)] := by
        cases r with
        | done u => exact absurd rfl (hskipped.resolve_left hlength)
        | failed e => exact ⟨e, rfl⟩
        | panicked => exact ⟨_, rfl⟩
      obtain ⟨e, hreport⟩ := hfailed
      rw [hreport, List.take_of_length_le
        (by simp only [List.length_append, List.length_singleton]; omega)]
      exact .inr ⟨.error e, by simp, rfl⟩
  obtain ⟨s', p₁, b₁, hmany, hdrop⟩ := pollMany_followed_of_skipped hserves false
    (hskip.imp_right .inr) steps
  rw [decide_length_take_lt (Nat.le_refl _)] at hmany
  exact ⟨s', p₁, b₁, hmany, hdrop⟩

/-- The steps run for a consumer that sees the end of the producer. -/
private theorem pollMany_followed_of_ended (h : Producer.Serves n x p b items p' b')
    (hok : ∀ i ∈ items, i.isOk) (hlength : items.length < n) {steps : List (Step Unit)}
    {r : Except StoreError Unit} {b₁ : Backend} (hsteps : p'.runSteps steps b' = (r, b₁)) :
    ∃ hasFailed, (followed x false steps).pollMany n p b
      = ((items ++ failureItem r, decide ((items ++ failureItem r).length < n),
        followed (.ended []) hasFailed []), p', b₁) := by
  induction h with
  | enough h => cases hlength
  | @item n x x₁ p p₁ p' b b₁ b' i items h hrest ih =>
    obtain ⟨hasFailed, hmany⟩ := ih (fun j hj => hok j (List.mem_cons_of_mem _ hj))
      (Nat.lt_of_succ_lt_succ hlength) hsteps
    cases i with
    | error e => simpa [Except.isOk, Except.toBool] using hok (.error e) List.mem_cons_self
    | ok item => exact ⟨hasFailed, by simp [pollMany, poll, h, hmany]⟩
  | @ended n x p p' b b' h =>
    -- The end of the producer is where the steps run; a failure of theirs is one more item.
    cases r with
    | ok u => exact ⟨false, by simp [pollMany, poll, h, hsteps, failureItem]⟩
    | error e =>
      have hpoll : (followed x false steps).poll p b
          = (.item (.error e), followed (.ended []) true [], p', b₁) := by simp [poll, h, hsteps]
      refine ⟨true, ?_⟩
      simp only [pollMany, hpoll]
      cases n <;> rfl

private theorem isOk_of_mem_map {answers : List ε} :
    ∀ i ∈ answers.map (Except.ok : ε → Except StoreError ε), i.isOk := by
  intro i hi
  obtain ⟨answer, -, rfl⟩ := List.mem_map.mp hi
  rfl

/-- A consumer that sees the end gets all items, and a failure of the steps. -/
theorem serves_followed_of_ended {work : Work ε Unit} {answers : List ε} {capacity : Nat}
    (h : work.Runs (max capacity 1 + (n + 1)) b (answers.map .ok) (.done ()) b')
    (hp : p.isClosed = false) (hscans : 0 < p.scans.available) (hlength : answers.length < n + 1)
    {steps : List (Step Unit)} {result : Except StoreError Unit} {b₁ : Backend}
    (hsteps : p.runSteps steps b' = (result, b₁)) :
    (followed (.idle capacity work) false steps).Serves (n + 1) p b
      (answers.map .ok ++ failureItem result) b₁ := by
  have hserves := Producer.serves_reported hp hscans h
  have hitems : (answers.map (Except.ok : ε → Except StoreError ε)).length < n + 1 := by
    rwa [List.length_map]
  rw [Outcome.report, List.append_nil, List.take_of_length_le (Nat.le_of_lt hitems)] at hserves
  obtain ⟨hasFailed, hmany⟩ :=
    pollMany_followed_of_ended hserves isOk_of_mem_map hitems hsteps
  refine ⟨followed (.ended []) hasFailed [], p, b₁, ?_, rfl⟩
  rw [hmany, List.take_of_length_le]
  cases result with
  | ok u => simpa [failureItem] using Nat.le_of_lt hlength
  | error e => simpa [failureItem] using Nat.lt_succ_iff.mp hlength

end Stream

/-- A window that succeeds hands out its items. -/
theorem HandsOut.done {run : α → Work Empty (List ε)} {n : Nat} {x : α} {xs : List α}
    {w w₁ w' : World} {answers : List ε} {items : List (Except StoreError ε)}
    (hx : (run x).Takes w (.done answers) w₁) (hne : answers ≠ [])
    (hrest : HandsOut run (n + 1 - answers.length) xs w₁ items w') :
    HandsOut run (n + 1) (x :: xs) w (answers.map .ok ++ items) w' := by
  have hitems : (Outcome.done answers).handedOut = answers.map .ok := rfl
  rw [← hitems]
  exact .window hx (by simpa [hitems] using hne) (by simpa [hitems] using hrest)

namespace Dictionary

variable {d : Dictionary} {w : World}

/-! ## Windows of keys -/

/-- A stream of values hands out the values of one state, in the order of the keys. -/
theorem handsOut_getWindow (h : d.AtRest w) {token : Option Token} {view : ReadView}
    (htoken : w.snapshots.resolve token = .ok view) (hview : w.CanRead view) (sure : Bool) (n : Nat)
    {windows : List (List Bytes)} (hne : ∀ window ∈ windows, window ≠ []) :
    HandsOut (fun window => d.getWindow token window sure) n windows w
      ((windows.flatten.map fun key => (key, w.seen d.column view key)).map .ok) w := by
  induction windows generalizing n with
  | nil =>
    cases n with
    | zero => exact .enough _ _ _
    | succ n => exact .ended _ _
  | cons window rest ih =>
    cases n with
    | zero => exact .enough _ _ _
    | succ n =>
      have hread := takes_getWindow (ε := Empty) h htoken hview window sure
      have hwindow : window ≠ [] := hne window (by simp)
      have hrest := ih (n + 1 - window.length) fun x hx => hne x (List.mem_cons_of_mem _ hx)
      rw [List.flatten_cons, List.map_append, List.map_append]
      exact .done hread (by simpa using hwindow) (by rwa [List.length_map])

/-- Every window of a stream of values at a snapshot that is not there fails. -/
theorem handsOut_getWindow_failed {token : Option Token} {e : StoreError}
    (htoken : w.snapshots.resolve token = .error e) (sure : Bool) (n : Nat)
    (windows : List (List Bytes)) :
    HandsOut (fun window => d.getWindow token window sure) n windows w
      (windows.map fun _ => .error e) w := by
  induction windows generalizing n with
  | nil =>
    cases n with
    | zero => exact .enough _ _ _
    | succ n => exact .ended _ _
  | cons window rest ih =>
    cases n with
    | zero => exact .enough _ _ _
    | succ n =>
      have hfailed := takes_getWindow_failed (ε := Empty) (d := d) htoken window sure
      exact HandsOut.window (r := .failed e) hfailed (List.cons_ne_nil _ _) (ih n)

/-- A stream that writes entries hands out what their keys held just before, and the entries of the
windows that ran are written. -/
theorem handsOut_putWindow (h : d.AtRest w) (wantsPrevious : Bool) (n : Nat)
    {windows : List (List Entry)} (hne : ∀ window ∈ windows, window ≠ []) :
    ∃ w', HandsOut (fun window => d.putWindow window wantsPrevious) n windows w
      (((w.now d.column).answers wantsPrevious windows.flatten).map .ok) w' ∧
      w.Writes d.column ((w.now d.column).applyAll (Contents.puts (demanded n windows).flatten))
        w' := by
  induction windows generalizing n w with
  | nil =>
    cases n with
    | zero => exact ⟨w, .enough _ _ _, .refl w _⟩
    | succ n =>
      refine ⟨w, ?_, .refl w _⟩
      cases wantsPrevious <;> exact .ended _ _
  | cons window rest ih =>
    cases n with
    | zero => exact ⟨w, .enough _ _ _, .refl w _⟩
    | succ n =>
      obtain ⟨w₁, hput, hw₁⟩ := makes_putWindow (ε := Empty) h window wantsPrevious
      obtain ⟨w', hrest, hw'⟩ := ih (h.writes hw₁) (n + 1 - window.length)
        fun x hx => hne x (List.mem_cons_of_mem _ hx)
      have hlength := (w.now d.column).length_answers wantsPrevious window
      -- Every window has an item, so one that ran was asked for.
      have hwindow : (w.now d.column).answers wantsPrevious window ≠ [] := by
        rw [← List.length_pos_iff, hlength, List.length_pos_iff]
        exact hne window (by simp)
      refine ⟨w', ?_, ?_⟩
      · rw [← hlength] at hrest
        rw [List.flatten_cons, Contents.answers_append, List.map_append, ← hw₁.now]
        exact .done hput hwindow hrest
      · have hwrites := hw₁.trans hw'
        rw [hw₁.now, ← Contents.applyAll_append] at hwrites
        simpa [demanded, Contents.puts] using hwrites

end Dictionary

end SnapshotStore
