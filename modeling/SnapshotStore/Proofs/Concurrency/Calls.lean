import SnapshotStore.Proofs.Dictionary.Points

/-!
# Calls on one key

A call reads, puts, removes or updates one key of the newest state.  What it does to a plain map is
said without locks and without an engine: the value of its key decides how it ends (`Call.answer`)
and what it writes, if anything (`Call.writes?`).  Run alone, the work of a call does just that
(`Call.makes_work`).

Calls that run one after the other, each alone, are what calls that run at the same time are
compared with (`Work.inTurn`, `Serial`).
-/

namespace SnapshotStore

/-- The call of the engine that gives a key a value, or takes it away. -/
def EngineCall.assign (column : Nat) (key : Bytes) : Option Bytes → EngineCall
  | some value => .put column key value
  | none => .delete column key

/-! ## Calls -/

/-- A call on one key of the newest state. -/
inductive Call where
  | get (key : Bytes) (sure : Bool)
  | put (key value : Bytes) (result : ResultType)
  | remove (key : Bytes) (result : ResultType)
  | update (key : Bytes) (f : Updater) (sure : Bool)

namespace Call

/-- What a call answers: a value, or both sides of a change. -/
inductive Answer where
  | value (v : Option Bytes)
  | delta (x : Delta Bytes)
  deriving DecidableEq

/-- The key of a call. -/
def key : Call → Bytes
  | get key _ | put key _ _ | remove key _ | update key _ _ => key

/-- The work of a call on a dictionary. -/
def work (d : Dictionary) : Call → Work Empty Answer
  | get key sure => Answer.value <$> d.get none key sure
  | put key value result => Answer.value <$> d.put key value result
  | remove key result => Answer.value <$> d.remove key result
  | update key f sure =>
    match d.update key f sure with
    | .ok w => Answer.delta <$> w
    | .error e => Work.fail e

/-- How a call ends if its key holds a value. -/
def answer : Call → Option Bytes → Outcome Answer
  | get .., v => .done (.value v)
  | put _ _ result, v => .done (.value (result.project v))
  | remove _ result, v => .done (.value (result.project v))
  | update _ f _, v =>
    match f v with
    | some current => .done (.delta ⟨v, current⟩)
    | none => .panicked

/-- What a call gives its key if the key holds a value; nothing if it does not write. -/
def writes? : Call → Option Bytes → Option (Option Bytes)
  | get .., _ => none
  | put _ value _, _ => some (some value)
  | remove .., _ => some none
  | update _ f _, v => (f v).filter (v ≠ ·)

/-- What a call makes of a map. -/
def after (c : Call) (m : Contents) : Contents :=
  match c.writes? (m c.key) with
  | some current => m.apply (Dictionary.assign c.key current)
  | none => m

section Update

variable (key : Bytes) (sure : Bool) {f : Updater} {v current : Option Bytes}

/-- An update answers the value that it found and the one that the updater made of it. -/
theorem answer_update (hf : f v = some current) :
    (update key f sure).answer v = .done (.delta ⟨v, current⟩) := by
  simp only [answer, hf]

/-- An update whose updater panics is a panic. -/
theorem answer_update_of_panicked (hf : f v = none) :
    (update key f sure).answer v = .panicked := by
  simp only [answer, hf]

/-- An update writes what its updater gives, unless that is what the key holds already. -/
theorem writes?_update (hf : f v = some current) :
    (update key f sure).writes? v = if v = current then none else some current := by
  rw [writes?, hf, Option.filter_some]
  by_cases hsame : v = current <;> simp [hsame]

/-- What an update writes is what its updater gives. -/
theorem eq_of_writes?_update {key : Bytes} {sure : Bool}
    (h : (update key f sure).writes? v = some current) :
    f v = some current := (Option.filter_eq_some_iff.mp h).1

/-- An update whose updater panics writes nothing. -/
theorem writes?_update_of_panicked (hf : f v = none) :
    (update key f sure).writes? v = none := by
  simp only [writes?, hf, Option.filter_none]

end Update

/-- After a call that writes, the key has what was written. -/
theorem after_of_writes {c : Call} {m : Contents} {current : Option Bytes}
    (h : c.writes? (m c.key) = some current) :
    c.after m = m.apply (Dictionary.assign c.key current) := by rw [after, h]

/-- After a call that writes nothing, the contents are as before. -/
theorem after_of_keeps {c : Call} {m : Contents} (h : c.writes? (m c.key) = none) :
    c.after m = m := by rw [after, h]

/-- A call does not touch other keys. -/
theorem after_of_ne (c : Call) (m : Contents) {key : Bytes} (hkey : key ≠ c.key) :
    c.after m key = m key := by
  cases hwrites : c.writes? (m c.key) with
  | none => rw [after_of_keeps hwrites]
  | some current =>
    rw [after_of_writes hwrites]
    cases current <;> exact if_neg hkey

end Call

/-! ## A call alone -/

namespace Call

variable {d : Dictionary} {s : Striping} {w : World}

/-- An update of a dictionary with stripes works at the stripe of its key. -/
theorem work_update (hmode : d.mode = .allow) (hstriping : d.striping = some s) (key : Bytes)
    (f : Updater) (sure : Bool) :
    (update key f sure).work d = Answer.delta <$> d.updateAt (s.index key) key f sure := by
  simp only [work, Dictionary.update, hmode, hstriping]

/-- Run alone, a call answers about the value that its key holds, and makes of the dictionary what
it makes of a map. -/
theorem makes_work (hmode : d.mode = .allow) (hstriping : d.striping = some s) (h : d.AtRest w)
    (c : Call) :
    (c.work d).Makes w (c.answer (w.now d.column c.key)) d.column (c.after (w.now d.column)) := by
  cases c with
  | get key sure =>
    have hread : w.CanRead .latest := trivial
    exact ((Dictionary.takes_get h rfl hread key sure).map).makes d.column
  | put key value result =>
    have hwrites : w.Writes d.column ((put key value result).after (w.now d.column)) _ :=
      .commit w d.column [.put key value]
    exact ⟨_, (Dictionary.takes_put h key value result).map, hwrites⟩
  | remove key result =>
    have hwrites : w.Writes d.column ((remove key result).after (w.now d.column)) _ :=
      .commit w d.column [.delete key]
    exact ⟨_, (Dictionary.takes_remove h key result).map, hwrites⟩
  | update key f sure =>
    rw [work_update hmode hstriping]
    show (Answer.delta <$> d.updateAt (s.index key) key f sure).Makes w
      ((update key f sure).answer (w.now d.column key)) d.column
      ((update key f sure).after (w.now d.column))
    have hlt : s.index key < w.stripes.length := by
      have hlength : w.stripes.length = s.count := by
        rw [h.stripes_eq, hstriping]
        exact List.length_replicate
      exact hlength ▸ s.index_lt key
    -- The updater decides on the value that is stored: it may panic, keep the value or change it.
    cases hf : f (w.now d.column key) with
    | none =>
      rw [after_of_keeps (writes?_update_of_panicked key sure hf)]
      refine Work.Takes.makes ?_ d.column
      rw [answer_update_of_panicked key sure hf]
      exact (Dictionary.takes_updateAt_panicked h.column h.areIdle _ key hf sure).bind_panicked
    | some current =>
      have htakes := Dictionary.takes_updateAt (ε := Empty) h.column h.areIdle hlt key hf sure
      rw [answer_update key sure hf]
      refine ⟨_, htakes.map, ?_⟩
      have hwrites := writes?_update key sure hf
      unfold Dictionary.updated
      by_cases hsame : w.now d.column key = current
      · rw [after_of_keeps (hwrites.trans (if_pos hsame)), if_pos hsame]
        exact .refl w d.column
      · rw [after_of_writes (hwrites.trans (if_neg hsame)), if_neg hsame]
        exact .commit w d.column [Dictionary.assign key current]

end Call

/-! ## One after the other -/

/-- Runs works one after the other, each alone: their answers, and the backend behind the last. -/
def Work.inTurn {α : Type} : List (Work Empty α) → Backend → List (Except StoreError α) × Backend
  | [], b => ([], b)
  | w :: ws, b =>
    let (r, b) := w.run b
    let (rs, b) := inTurn ws b
    (r :: rs, b)

/-- The last of several runs begins where the others ended. -/
theorem Work.inTurn_concat {α : Type} (ws : List (Work Empty α)) (w : Work Empty α) (b : Backend) :
    inTurn (ws ++ [w]) b
      = ((inTurn ws b).1 ++ [(w.run (inTurn ws b).2).1], (w.run (inTurn ws b).2).2) := by
  induction ws generalizing b with
  | nil => rfl
  | cons w' ws ih => simp only [List.cons_append, inTurn, ih]

/-- What one more work at the end makes, it makes behind the others. -/
theorem Work.Makes.inTurn_concat {α : Type} {ws : List (Work Empty α)} {x : Work Empty α}
    {b b' : Backend} {rs : List (Except StoreError α)} {w : World} {r : Outcome α} {n : Nat}
    {m : Contents} (hturn : inTurn ws b = (rs, b')) (hb' : b'.IsIn w) (h : x.Makes w r n m) :
    ∃ b'' w', inTurn (ws ++ [x]) b = (rs ++ [r.toExcept], b'') ∧ b''.IsIn w' ∧ w.Writes n m w' := by
  obtain ⟨w', htakes, hwrites⟩ := h
  obtain ⟨b'', hends, hb''⟩ := htakes b' hb'
  refine ⟨b'', w', ?_, hb'', hwrites⟩
  rw [Work.inTurn_concat, hturn, hends.run_eq]

/-- Run one after the other, some calls end as they are listed to, and leave the dictionary with
given contents and its stripes idle. -/
def Serial (d : Dictionary) (b : Backend) (order : List (Call × Outcome Call.Answer))
    (m : Contents) : Prop :=
  ∃ b' w, Work.inTurn (order.map fun e => e.1.work d) b = (order.map fun e => e.2.toExcept, b') ∧
    b'.IsIn w ∧ d.AtRest w ∧ w.now d.column = m

namespace Serial

variable {d : Dictionary} {s : Striping} {b : Backend} {m : Contents}
  {order : List (Call × Outcome Call.Answer)}

/-- Without calls, the contents are those of the start. -/
theorem nil {w : World} (hb : b.IsIn w) (h : d.AtRest w) : Serial d b [] (w.now d.column) :=
  ⟨b, w, rfl, hb, h, rfl⟩

/-- One more call at the end answers about the contents that the others left. -/
theorem concat (hmode : d.mode = .allow) (hstriping : d.striping = some s)
    (h : Serial d b order m) (c : Call) :
    Serial d b (order ++ [(c, c.answer (m c.key))]) (c.after m) := by
  obtain ⟨b₁, w₁, hturn, hb₁, hrest, rfl⟩ := h
  obtain ⟨b₂, w₂, hconcat, hb₂, hwrites⟩ :=
    (c.makes_work hmode hstriping hrest).inTurn_concat hturn hb₁
  refine ⟨b₂, w₂, ?_, hb₂, hrest.writes hwrites, hwrites.now⟩
  rw [List.map_append, List.map_append, List.map_singleton, List.map_singleton, hconcat]

end Serial

end SnapshotStore
