import Mathlib.Data.Set.List
import Mathlib.Logic.Hydra
import SnapshotStore.Proofs.Concurrency.Workshop

/-!
# Calls that run at the same time come to an end

A caller waits only for a stripe, and holds none while it waits.  So if nobody can take a turn,
nobody is in a stripe; then announced writers are let in, and if there are none either, so are
readers (`Workshop.Follows.canTurn`).  A turn takes one effect off one work, so the works come to an
end if those who can take their turns (`Workshop.exists_run_endsWith`).
-/

namespace SnapshotStore

/-! ## Turns -/

namespace Work

variable {ε α : Type}

/-- The first work is what is left of the second behind its first effect. -/
def Behind (w' w : Work ε α) : Prop :=
  ∃ (q : Effect) (next : q.Answer → Work ε α) (a : q.Answer), w = perform q next ∧ w' = next a

/-- No work goes on forever. -/
theorem wellFounded_behind : WellFounded (Behind (ε := ε) (α := α)) := by
  refine ⟨fun w => ?_⟩
  induction w with
  | finish r => exact ⟨_, fun w' ⟨q, next, a, heq, _⟩ => nomatch heq⟩
  | perform q next ih =>
    refine ⟨_, ?_⟩
    rintro _ ⟨q', next', a, heq, rfl⟩
    cases heq
    exact ih a
  | send item next ih => exact ⟨_, fun w' ⟨q, next, a, heq, _⟩ => nomatch heq⟩

end Work

namespace Workshop

variable {α : Type} {x : Workshop α} {i : Nat}

/-- Once all work has ended, the workshop has outcomes. -/
theorem exists_endsWith (h : ∀ w ∈ x.works, ∃ r, w = .finish r) : ∃ outcomes, x.EndsWith outcomes := by
  have hrange : x.works.map Work.outcome? ∈ Set.range (List.map some) := by
    rw [Set.range_list_map]
    intro o ho
    obtain ⟨w, hw, rfl⟩ := List.mem_map.mp ho
    obtain ⟨r, rfl⟩ := h w hw
    exact ⟨r, rfl⟩
  exact hrange.imp fun _ => Eq.symm

/-- A work has a next effect and does not have to wait for it. -/
def CanTurn (x : Workshop α) (i : Nat) : Prop :=
  ∃ (q : Effect) (next : q.Answer → Work Empty α) (a : q.Answer) (b : Backend),
    x.works[i]? = some (.perform q next) ∧ x.backend.answer? q = some (a, b)

/-- A turn takes an effect off one work. -/
theorem CanTurn.cutExpand (h : x.CanTurn i) :
    Relation.CutExpand Work.Behind ((x.turn i).works : Multiset (Work Empty α)) x.works := by
  obtain ⟨q, next, a, b, hwork, hanswer⟩ := h
  have hworks : (x.turn i).works = x.works.set i (next a) := by
    simp only [turn, hwork, hanswer]
  rw [hworks]
  obtain ⟨before, after, hsplit, rfl⟩ := List.exists_split_of_getElem? hwork
  rw [hsplit, show (before ++ Work.perform q next :: after).set before.length (next a)
    = before ++ next a :: after by simp, Multiset.coe_eq_coe.mpr List.perm_middle,
    Multiset.coe_eq_coe.mpr (List.perm_middle (a := Work.perform q next)), ← Multiset.cons_coe,
    ← Multiset.cons_coe, ← Multiset.singleton_add, ← Multiset.singleton_add]
  exact Relation.cutExpand_single_add ⟨q, next, a, rfl, rfl⟩ _

/-- If somebody can take a turn as long as there is work left, all works can be brought to an
end. -/
theorem exists_run_endsWith {P : Workshop α → Prop} (hturn : ∀ x i, P x → P (x.turn i))
    (hcan : ∀ x, P x → (∃ outcomes, x.EndsWith outcomes) ∨ ∃ i, x.CanTurn i) (hx : P x) :
    ∃ schedule outcomes, (x.run schedule).EndsWith outcomes := by
  induction hworks : (x.works : Multiset (Work Empty α)) using
    Work.wellFounded_behind.cutExpand.induction generalizing x with
  | _ works ih =>
    obtain hdone | ⟨i, hi⟩ := hcan x hx
    · exact ⟨[], hdone⟩
    · obtain ⟨schedule, hdone⟩ := ih _ (hworks ▸ hi.cutExpand) (hturn x i hx) rfl
      exact ⟨i :: schedule, hdone⟩

end Workshop

/-! ## Who has to wait -/

/-- A call that goes into a stripe is outside, or announced as a writer. -/
theorem Call.Rule.enters {n i j : Nat} {c : Call} {t : Standing} {hold : Hold}
    {R : Unit → Standing → Prop} (hrule : Rule n i c t (.enter hold j) R) :
    j = i ∧ (hold = .shared ∧ t.place = .outside ∨ hold = .exclusive ∧ t.place = .announced) := by
  cases hrule with
  | share => exact ⟨rfl, .inl ⟨rfl, rfl⟩⟩
  | own => exact ⟨rfl, .inr ⟨rfl, rfl⟩⟩

namespace StampedLock.Knows

variable {l : StampedLock} {ps : List Call.Place}

/-- If nobody is in, the lock has no holders. -/
theorem isFree (h : l.Knows ps) (hout : ∀ p ∈ ps, p.hold? = none) :
    l.readers = 0 ∧ l.hasWriter = false := by
  have hzero : ∀ hold, ps.countP (·.hold? = some hold) = 0 := fun hold =>
    List.countP_eq_zero.mpr fun p hp => by simp [hout p hp]
  refine ⟨h.readers.trans (hzero _), ?_⟩
  have hwriters := h.writers
  rw [hzero] at hwriters
  exact Bool.toNat_eq_zero.mp hwriters

/-- If nobody is in a stripe, a writer is let in. -/
theorem exists_enter_exclusive (h : l.Knows ps) (hout : ∀ p ∈ ps, p.hold? = none) :
    ∃ l', l.enter? .exclusive = some l' := by
  obtain ⟨hreaders, hwriter⟩ := h.isFree hout
  exact ⟨_, if_pos (by simp [admitsWriter, hreaders, hwriter])⟩

/-- If moreover nobody is announced, so is a reader. -/
theorem exists_enter_shared (h : l.Knows ps) (hout : ∀ p ∈ ps, p.hold? = none)
    (hannounced : ∀ p ∈ ps, p.isAnnounced = false) : ∃ l', l.enter? .shared = some l' := by
  obtain ⟨-, hwriter⟩ := h.isFree hout
  have hwaiting : l.waiting = 0 :=
    h.waiting.trans (List.countP_eq_zero.mpr fun p hp => by simp [hannounced p hp])
  exact ⟨_, if_pos (by simp [admitsReader, hwaiting, hwriter])⟩

end StampedLock.Knows

namespace Workshop.Follows

variable {d : Dictionary} {s : Striping} {b : Backend} {x : Workshop Call.Answer}
  {callers : List Caller} {m : Contents} {order : List (Call × Outcome Call.Answer)} {k : Caller}

/-- A caller whose work has not ended takes its turn, unless it is not let into its stripe. -/
theorem canTurn_of (h : Follows d s b x callers m order) (hk : k ∈ callers)
    (hrest : ∀ r, k.rest ≠ .finish r)
    (hlets : ∀ hold, k.standing.place.hold? = none →
      (k.standing.place.isAnnounced = true → hold = .exclusive) →
      ∃ l, (x.backend.stripes.lock (k.stripe s)).enter? hold = some l) : ∃ i, x.CanTurn i := by
  obtain ⟨i, hi⟩ := List.mem_iff_getElem?.mp hk
  have hserves := h.serves k hk
  have hwork : x.works[i]? = some k.rest := by rw [h.works_eq, List.getElem?_map, hi]; rfl
  cases hwork' : k.rest with
  | finish r => exact absurd hwork' (hrest r)
  | send item next =>
    rw [hwork'] at hserves
    exact hserves.elim
  | perform q next =>
    rw [hwork'] at hserves hwork
    obtain ⟨R, hrule, -⟩ := hserves
    -- Only at a stripe can an effect be kept waiting, and this stripe lets the caller in.
    have hanswer : ∃ a b', x.backend.answer? q = some (a, b') := by
      by_cases hq : ∃ hold j, q = .enter hold j
      · obtain ⟨hold, j, rfl⟩ := hq
        obtain ⟨rfl, hplace⟩ := hrule.enters
        obtain ⟨l, hl⟩ := hlets hold (by obtain ⟨-, hp⟩ | ⟨-, hp⟩ := hplace <;> rw [hp] <;> rfl)
          fun hannounced => by
            obtain ⟨-, hp⟩ | ⟨hhold, -⟩ := hplace
            · rw [hp] at hannounced
              cases hannounced
            · exact hhold
        exact ⟨(), _, congrArg (Option.map _) hl⟩
      · exact x.backend.exists_answer fun hold j heq => hq ⟨hold, j, heq⟩
    obtain ⟨a, b', hanswer⟩ := hanswer
    exact ⟨i, q, next, a, b', hwork, hanswer⟩

/-- A caller that has not left has work left. -/
theorem rest_ne_finish (h : Follows d s b x callers m order) (hk : k ∈ callers)
    (hplace : ∀ r, k.standing.place ≠ .left r) (r : Outcome Call.Answer) : k.rest ≠ .finish r := by
  intro hrest
  have hserves := h.serves k hk
  rw [hrest] at hserves
  exact hplace r hserves

/-- **Nobody waits for ever.**  As long as there is work left, somebody can take a turn. -/
theorem canTurn (h : Follows d s b x callers m order) :
    (∃ outcomes, x.EndsWith outcomes) ∨ ∃ i, x.CanTurn i := by
  by_cases hin : ∀ k ∈ callers, k.standing.place.hold? = none
  · have hout : ∀ i, ∀ p ∈ Caller.places s callers i, p.hold? = none := by
      intro i p hp
      obtain ⟨k, hk, rfl⟩ := List.mem_map.mp hp
      exact hin k (List.mem_filter.mp hk).1
    by_cases hwait : ∀ k ∈ callers, k.standing.place.isAnnounced = false
    · have hnobody : ∀ i, ∀ p ∈ Caller.places s callers i, p.isAnnounced = false := by
        intro i p hp
        obtain ⟨k, hk, rfl⟩ := List.mem_map.mp hp
        exact hwait k (List.mem_filter.mp hk).1
      -- Nobody is in or announced, so whoever has not ended is let in.
      by_cases hdone : ∀ k ∈ callers, ∃ r, k.rest = .finish r
      · refine .inl (exists_endsWith fun w hw => ?_)
        rw [h.works_eq] at hw
        obtain ⟨k, hk, rfl⟩ := List.mem_map.mp hw
        exact hdone k hk
      · push Not at hdone
        obtain ⟨k, hk, hrest⟩ := hdone
        refine .inr (h.canTurn_of hk hrest fun hold _ _ => ?_)
        cases hold with
        | shared => exact (h.locks _).exists_enter_shared (hout _) (hnobody _)
        | exclusive => exact (h.locks _).exists_enter_exclusive (hout _)
    · -- An announced writer is let in.
      push Not at hwait
      obtain ⟨k, hk, hannounced⟩ := hwait
      have hrest := h.rest_ne_finish hk fun r hr => hannounced (by rw [hr]; rfl)
      refine .inr (h.canTurn_of hk hrest fun hold _ hhold => ?_)
      rw [hhold (by simpa using hannounced)]
      exact (h.locks _).exists_enter_exclusive (hout _)
  · -- Whoever is in a stripe does not wait.
    push Not at hin
    obtain ⟨k, hk, hhold⟩ := hin
    have hrest := h.rest_ne_finish hk fun r hr => hhold (by rw [hr]; rfl)
    exact .inr (h.canTurn_of hk hrest fun hold hnone => absurd hnone hhold)

end Workshop.Follows

end SnapshotStore
