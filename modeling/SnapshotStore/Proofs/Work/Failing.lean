import SnapshotStore.Proofs.Work.Locks

/-!
# Work whose calls may fail

Any call of the engine may be struck by a scheduled failure.  A call that is struck changes nothing
and is answered with the failure; any other is answered as by an engine that works.  So what work
does under failures is told in the worlds of the engine that works: `Work.Endures` says that the
work ends wherever failures strike, and what then holds.  There is one rule for each kind of node of
the work, and one for each way to put work together.
-/

namespace SnapshotStore

/-- A call is struck, and costs a fault, or it reaches the engine. -/
theorem FaultyEngine.answer_struck (f : FaultyEngine) (c : EngineCall) :
    (∃ failure faults, faults.length < f.faults.length ∧
        f.answer c = (.error failure, ⟨f.engine, faults⟩)) ∨
      ∃ faults, faults.length = f.faults.length ∧
        f.answer c = ((f.engine.answer c).1, ⟨(f.engine.answer c).2, faults⟩) := by
  -- A call uses up at most the one fault that strikes it.
  have hcount : ∀ faults : List Fault, (Fault.strike c.method faults).2.length
      + (Fault.strike c.method faults).1.toList.length = faults.length := by
    intro faults
    induction faults with
    | nil => rfl
    | cons fault rest ih =>
      unfold Fault.strike
      split
      · split <;> rfl
      · simp only [List.length_cons]
        omega
  have hlength := hcount f.faults
  unfold answer
  cases hstrike : Fault.strike c.method f.faults with
  | mk failure faults =>
    rw [hstrike] at hlength
    cases failure with
    | none => exact .inr ⟨faults, hlength, rfl⟩
    | some failure => exact .inl ⟨failure, faults, by simpa using Nat.lt_of_succ_le hlength.le, rfl⟩

namespace Backend

variable {b b₁ : Backend}

/-- The backend with an engine whose calls do not fail any more. -/
def mend (b : Backend) : Backend := { b with engine := .reliable b.engine.engine }

/-- An engine that works needs no mending. -/
theorem IsIn.mend {w : World} (h : b.IsIn w) : b.mend.IsIn w := by
  rw [Backend.mend, ← h.engine_eq]
  exact h

/-- A call is struck, and changes nothing but the schedule, or it is answered by the engine. -/
theorem ask_cases (b : Backend) (c : EngineCall) :
    (∃ failure faults, faults.length < b.engine.faults.length ∧ b.answer? (.ask c)
        = some (.error failure, { b with engine := ⟨b.engine.engine, faults⟩ })) ∨
      ∃ faults, faults.length = b.engine.faults.length ∧ b.answer? (.ask c)
        = some ((b.engine.engine.answer c).1,
          { b with engine := ⟨(b.engine.engine.answer c).2, faults⟩ }) := by
  rcases b.engine.answer_struck c with ⟨failure, faults, hlt, hanswer⟩ | ⟨faults, heq, hanswer⟩
  · exact .inl ⟨failure, faults, hlt, by rw [answer?, hanswer]⟩
  · exact .inr ⟨faults, heq, by rw [answer?, hanswer]⟩

end Backend

namespace Work

variable {ε α β : Type} {x : Work ε α} {k : Nat} {b b' : Backend} {w : World}
  {items : List (Except StoreError ε)} {r : Outcome α}

/-- What may hold after a run: of the items that were accepted, of how the work ended, of the world
that it left, and of whether a failure struck. -/
abbrev Post (ε α : Type) := List (Except StoreError ε) → Outcome α → World → Bool → Prop

/-- Run alone in a world for a consumer that accepts a number of sends, the work ends wherever
failures strike, and something holds then.  A failure that strikes costs a fault. -/
def Endures (x : Work ε α) (k : Nat) (w : World) (P : Post ε α) : Prop :=
  ∀ b : Backend, b.mend.IsIn w → ∃ items r b' w' struck, x.Runs k b items r b' ∧
    b'.engine.faults.length + struck.toNat ≤ b.engine.faults.length ∧ b'.mend.IsIn w' ∧
    P items r w' struck

/-- All or nothing: the work ends with a value and leaves a world, or it is struck, fails and leaves
the world as it was. -/
inductive AllOrNothing (a : α) (w w' : World) : Post ε α
  /-- Nothing struck the work. -/
  | all : AllOrNothing a w w' [] (.done a) w' false
  /-- A failure struck it. -/
  | nothing (e : StoreError) : AllOrNothing a w w' [] (.failed e) w true

variable {P P' : Post ε α} {Q : Post ε β}

/-- What is known of the end may be weakened. -/
theorem Endures.mono (h : x.Endures k w P)
    (hmono : ∀ items r w' struck, P items r w' struck → P' items r w' struck) :
    x.Endures k w P' := by
  intro b hb
  obtain ⟨items, r, b', w', struck, hruns, hfaults, hb', hP⟩ := h b hb
  exact ⟨items, r, b', w', struck, hruns, hfaults, hb', hmono items r w' struck hP⟩

/-- Nothing strikes an engine that works. -/
theorem Endures.exists_runs (h : x.Endures k w P) (hb : b.IsIn w) :
    ∃ items r b' w', x.Runs k b items r b' ∧ b'.IsIn w' ∧ P items r w' false := by
  obtain ⟨items, r, b', w', struck, hruns, hfaults, hb', hP⟩ := h b hb.mend
  rw [hb.reliable, List.length_nil, Nat.le_zero, Nat.add_eq_zero_iff] at hfaults
  obtain rfl : struck = false := Bool.toNat_eq_zero.mp hfaults.2
  refine ⟨items, r, b', w', hruns, ?_, hP⟩
  exact ⟨List.length_eq_zero_iff.mp hfaults.1, hb'.agrees, hb'.covers, hb'.counts, hb'.isOpen,
    hb'.pins_eq, hb'.snapshots_eq, hb'.stripes_eq⟩

/-! ## The nodes of the work -/

/-- Finished work ends there, and no fault strikes it. -/
theorem endures_finish (h : P [] r w false) : (finish r : Work ε α).Endures k w P :=
  fun b hb => ⟨[], r, b, w, false, .finish r k b, Nat.le_refl _, hb, h⟩

/-- A call is struck, and nothing changes, or it is answered as by an engine that works. -/
theorem endures_ask {c : EngineCall} (f : Except EngineError c.Answer → Work ε α)
    (hstruck : ∀ failure, (f (.error failure)).Endures k w fun items r w' _ => P items r w' true)
    (hanswered : ∀ b : Backend, b.IsIn w → ∃ answer engine w₁,
      b.engine.engine.answer c = (answer, engine) ∧
        Backend.IsIn { b with engine := .reliable engine } w₁ ∧ (f answer).Endures k w₁ P) :
    (perform (.ask c) f).Endures k w P := by
  intro b hb
  rcases b.ask_cases c with ⟨failure, faults, hlt, hask⟩ | ⟨faults, heq, hask⟩
  · obtain ⟨items, r, b', w', struck, hruns, hfaults, hb', hP⟩ :=
      -- The call is struck: the engine is as before, and one fault less is left for the work behind
      -- it.
      hstruck failure { b with engine := ⟨b.engine.engine, faults⟩ } hb
    refine ⟨items, r, b', w', true, .perform hask hruns, ?_, hb', hP⟩
    exact Nat.lt_of_le_of_lt (Nat.le_trans (Nat.le_add_right _ _) hfaults) hlt
  · -- The call is not struck, so it answers as without faults, and all faults are left.
    obtain ⟨answer, engine, w₁, hanswer, hin, hf⟩ := hanswered b.mend hb
    have hanswer' : b.engine.engine.answer c = (answer, engine) := hanswer
    rw [hanswer'] at hask
    obtain ⟨items, r, b', w', struck, hruns, hfaults, hb', hP⟩ :=
      hf { b with engine := ⟨engine, faults⟩ } hin
    exact ⟨items, r, b', w', struck, .perform hask hruns, heq ▸ hfaults, hb', hP⟩

/-- A send is accepted, or refused for good. -/
theorem endures_send {item : Except StoreError ε} {f : Bool → Work ε α}
    (haccepted : ∀ n, k = n + 1 → (f true).Endures n w fun items => P (item :: items))
    (hrefused : k = 0 → (f false).Endures k w P) : (send item f).Endures k w P := by
  intro b hb
  cases k with
  | zero =>
    obtain ⟨items, r, b', w', struck, hruns, hrest⟩ := hrefused rfl b hb
    exact ⟨items, r, b', w', struck, .refuse hruns, hrest⟩
  | succ n =>
    obtain ⟨items, r, b', w', struck, hruns, hrest⟩ := haccepted n rfl b hb
    exact ⟨item :: items, r, b', w', struck, .accept hruns, hrest⟩

/-! ## Putting work together -/

/-- Work endures faults if its first part does and the second does from wherever the first may
end. -/
theorem Endures.bind {f : α → Work ε β} (h : x.Endures k w P)
    (hf : ∀ items r w₁ struck, P items r w₁ struck →
      (finish r >>= f).Endures (k - items.length) w₁ fun items' r' w' struck' =>
        Q (items ++ items') r' w' (struck || struck')) : (x >>= f).Endures k w Q := by
  intro b hb
  obtain ⟨items, r, b₁, w₁, struck, hx, hfaults, hb₁, hP⟩ := h b hb
  obtain ⟨items', r', b', w', struck', hfx, hfaults', hb', hQ⟩ :=
    hf items r w₁ struck hP b₁ hb₁
  refine ⟨items ++ items', r', b', w', struck || struck', hx.bind_finish hfx, ?_, hb', hQ⟩
  -- A failure that struck either part cost a fault there.
  have hor : (struck || struck').toNat ≤ struck.toNat + struck'.toNat := by
    cases struck <;> cases struck' <;> decide
  omega

/-- A call that is struck fails. -/
theorem endures_call {operation context : String} {c : EngineCall} {P : Post ε c.Answer}
    (hstruck : ∀ failure, P [] (.failed (.ofEngine operation context failure)) w true)
    (hanswered : ∀ b : Backend, b.IsIn w → ∃ a engine w₁,
      b.engine.engine.answer c = (.ok a, engine) ∧
        Backend.IsIn { b with engine := .reliable engine } w₁ ∧ P [] (.done a) w₁ false) :
    (call operation context c : Work ε _).Endures k w P := by
  refine endures_ask (orFail operation context ·) (fun failure => endures_finish (hstruck failure))
    fun b hb => ?_
  obtain ⟨a, engine, w₁, hanswer, hin, hP⟩ := hanswered b hb
  exact ⟨.ok a, engine, w₁, hanswer, hin, endures_finish hP⟩

/-- Work behind a call that is struck does not run. -/
theorem endures_call_bind {operation context : String} {c : EngineCall} {f : c.Answer → Work ε β}
    (hstruck : ∀ failure, Q [] (.failed (.ofEngine operation context failure)) w true)
    (hanswered : ∀ b : Backend, b.IsIn w → ∃ a engine w₁,
      b.engine.engine.answer c = (.ok a, engine) ∧
        Backend.IsIn { b with engine := .reliable engine } w₁ ∧ (f a).Endures k w₁ Q) :
    (call operation context c >>= f).Endures k w Q := by
  refine endures_ask (orFail operation context · >>= f)
    (fun failure => endures_finish (hstruck failure)) fun b hb => ?_
  obtain ⟨a, engine, w₁, hanswer, hin, hf⟩ := hanswered b hb
  exact ⟨.ok a, engine, w₁, hanswer, hin, hf⟩

/-- Work that reads before it does all or nothing. -/
theorem Endures.bind_allOrNothing {f : α → Work ε β} {a : α} {c : β} {w' : World}
    (h : x.Endures k w (AllOrNothing a w w)) (hf : (f a).Endures k w (AllOrNothing c w w')) :
    (x >>= f).Endures k w (AllOrNothing c w w') := by
  refine h.bind fun items r w₁ struck hx => ?_
  cases hx with
  | all => exact hf
  | nothing e => exact endures_finish (.nothing e)

/-- A value that is answered behind the work. -/
theorem Endures.thenReturn {a : α} {w' : World} (h : x.Endures k w (AllOrNothing a w w')) (c : β) :
    (do let _ ← x; return c : Work ε β).Endures k w (AllOrNothing c w w') := by
  refine h.bind fun items r w₁ struck hx => ?_
  cases hx with
  | all => exact endures_finish .all
  | nothing e => exact endures_finish (.nothing e)

/-- A batch is committed as a whole, or it is struck. -/
theorem endures_write {n : Nat} (hn : w.HasColumn n) {batch : WriteBatch} (hne : batch ≠ [])
    (operation context : String) :
    (call operation context (.write n batch) : Work ε _).Endures k w
      (AllOrNothing () w (w.commit n batch)) := by
  refine endures_call (fun failure => .nothing _) fun b hb => ?_
  have hok := write_eq_ok hb hn hne
  have hcommit := commit_of_hasColumn hb.isOpen hn hne
  exact ⟨(), _, _, Prod.ext hok rfl, hcommit ▸ hb.answer (.write n batch), .all⟩

/-- Work that does all or nothing sends nothing, and ends. -/
theorem Endures.exists_endsIn {a : α} {w' : World} (h : x.Endures 1 w (AllOrNothing a w w'))
    (hb : b.mend.IsIn w) :
    ∃ r b₁ w₁ struck, x.EndsIn b r b₁ ∧
      b₁.engine.faults.length + struck.toNat ≤ b.engine.faults.length ∧ b₁.mend.IsIn w₁ ∧
      AllOrNothing a w w' ([] : List (Except StoreError ε)) r w₁ struck := by
  obtain ⟨items, r, b₁, w₁, struck, hruns, hfaults, hb₁, hP⟩ := h b hb
  obtain rfl : items = [] := by cases hP <;> rfl
  exact ⟨r, b₁, w₁, struck, hruns.endsIn, hfaults, hb₁, hP⟩

/-- A sequence is unpinned however the work ends. -/
theorem Endures.ensuring_unpin {s : Nat}
    (h : x.Endures k w fun items r w' => P items r { w' with pins := w'.pins.erase s }) :
    (x.ensuring (effect (.unpin s))).Endures k w P := by
  intro b hb
  obtain ⟨items, r, b', w', struck, hruns, hfaults, hb', hP⟩ := h b hb
  exact ⟨items, r, _, _, struck, hruns.ensuring (endsIn_effect rfl), hfaults, hb'.unpin s, hP⟩

/-- Idle stripes are given back however the work ends. -/
theorem Endures.holding {hold : Hold} {is : List Nat} (hidle : ∀ i ∈ is, w.stripes.lock i = .idle)
    (hnodup : is.Nodup)
    (h : x.Endures k { w with stripes := w.stripes.taken hold is } fun items r w' struck =>
      w'.stripes = w.stripes.taken hold is ∧
        P items r { w' with stripes := w.stripes } struck) :
    (Work.holding hold is x).Endures k w P := by
  intro b hb
  have hstripes : b.stripes = w.stripes := hb.stripes_eq
  obtain ⟨items, r, b', w', struck, hruns, hfaults, hb', hheld, hP⟩ :=
    h { b with stripes := w.stripes.taken hold is } (hb.with_stripes _)
  rw [← hstripes] at hidle hruns hheld hP
  have hheld' : b'.stripes = b.stripes.taken hold is := hb'.stripes_eq.trans hheld
  exact ⟨items, r, _, _, struck, hruns.holding hidle hnodup hheld', hfaults, hb'.with_stripes _, hP⟩

/-- On an engine that works it does all. -/
theorem Endures.takes {a : α} {w' : World} (h : x.Endures 1 w (AllOrNothing a w w')) :
    x.Takes w (.done a) w' := by
  intro b hb
  obtain ⟨items, r, b', w₁, hruns, hb', hends⟩ := h.exists_runs hb
  cases hends with
  | all => exact ⟨b', hruns.endsIn, hb'⟩

/-- Work that does all or nothing under any stripes does it under idle ones. -/
theorem Endures.holding_uniform {hold : Hold} {is : List Nat} {a : α} {w' : World}
    (hidle : w.stripes.AreIdle) (hnodup : is.Nodup) (hstripes : w'.stripes = w.stripes)
    (h : ∀ l, x.Endures k { w with stripes := l }
      (AllOrNothing a { w with stripes := l } { w' with stripes := l })) :
    (Work.holding hold is x).Endures k w (AllOrNothing a w w') := by
  refine Endures.holding (fun i _ => hidle i) hnodup ((h _).mono fun items r w₁ struck hends => ?_)
  cases hends with
  | all => exact ⟨rfl, by rw [← hstripes]; exact .all⟩
  | nothing e => exact ⟨rfl, .nothing e⟩

end Work

end SnapshotStore
