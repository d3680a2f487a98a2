import SnapshotStore.Pool.Jobs
import SnapshotStore.Proofs.Pool.Office
import SnapshotStore.Stream
import Mathlib.Data.List.Perm.Basic

/-!
# Jobs are operations

`Jobs` serves its queue at once whenever it can.  That is one of the orders in which an office may
take its steps: submitting a job, letting one finish and closing the pool are runs of an office
(`Jobs.Shows.submit`, `Jobs.Shows.finish`, `Jobs.Shows.close`), in which every job is an operation
with the answer that is recorded for it.
-/

namespace SnapshotStore

/-- One element of a list up to order is at a place of it. -/
theorem exists_getElem?_of_perm {β : Type} {l rest : List β} {x : β} (h : l.Perm (x :: rest)) :
    ∃ i, l[i]? = some x ∧ ∀ y, (l.set i y).Perm (y :: rest) := by
  obtain ⟨i, hi, rfl⟩ := List.mem_iff_getElem.mp (h.mem_iff.mpr List.mem_cons_self)
  refine ⟨i, List.getElem?_eq_getElem hi, fun y => ?_⟩
  have hself := List.set_perm_cons_eraseIdx hi l[i]
  rw [List.set_getElem_self] at hself
  exact (List.set_perm_cons_eraseIdx hi y).trans ((hself.symm.trans h).cons_inv.cons y)

namespace Office

variable {α ε : Type} {o o₁ o₂ : Office α ε}

/-- An office comes to another by some run. -/
def Reaches (o o' : Office α ε) : Prop := ∃ events, o.Runs events o'

/-- What is reached from there is reached from here. -/
theorem Reaches.trans (h : o.Reaches o₁) (h' : o₁.Reaches o₂) : o.Reaches o₂ := by
  obtain ⟨events, hruns⟩ := h
  obtain ⟨events', hruns'⟩ := h'
  exact ⟨_, hruns.trans hruns'⟩

/-- An operation of an office takes a step, wherever it is. -/
theorem reaches_of_perm {x x' : Operation α} {rest : List (Operation α)} {e : Operation.Event α}
    {p : Pool} (h : o.operations.Perm (x :: rest)) (hstep : x.Step o.pool e x' p) :
    ∃ o', o.Reaches o' ∧ o'.pool = p ∧ o'.operations.Perm (x' :: rest) := by
  obtain ⟨i, hi, hset⟩ := exists_getElem?_of_perm h
  exact ⟨_, ⟨_, .step .refl (.operation hi hstep)⟩, rfl, hset x'⟩

variable {w : Work Empty α} {others : List (Operation α)} {a : Bool} {r : Outcome α}

/-- An operation that waits at a closed pool is refused. -/
theorem reaches_refused (h : o.operations.Perm (.start w :: others))
    (hclosed : o.pool.isClosed = true) : ∃ o', o.Reaches o' ∧ o'.pool = o.pool ∧
      o'.operations.Perm (⟨w, .acquiring .refused, true⟩ :: others) :=
  reaches_of_perm h (.ask (.refuse hclosed))

/-- An operation that waits gets a permit and begins. -/
theorem reaches_began (h : o.operations.Perm (.start w :: others)) (hopen : o.pool.isClosed = false)
    {ops : Budget} (htake : o.pool.ops.take? = some ops) :
    ∃ o', o.Reaches o' ∧ o'.pool = { o.pool with ops } ∧
      o'.operations.Perm (⟨w, .running w, true⟩ :: others) := by
  obtain ⟨o₁, h₁, hpool₁, hops₁⟩ := reaches_of_perm h (.ask (.offer hopen htake))
  obtain ⟨o₂, h₂, hpool₂, hops₂⟩ :=
    reaches_of_perm hops₁ (.ask (.accept (by rw [hpool₁]; exact hopen)))
  obtain ⟨o₃, h₃, hpool₃, hops₃⟩ := reaches_of_perm hops₂ .begin
  exact ⟨o₃, (h₁.trans h₂).trans h₃, by rw [hpool₃, hpool₂, hpool₁], hops₃⟩

/-- An operation that has come to the end of its work gives its permit back. -/
theorem reaches_ended (h : o.operations.Perm (⟨w, .running (.finish r), a⟩ :: others)) :
    ∃ o', o.Reaches o' ∧ o'.pool = { o.pool with ops := o.pool.ops.giveBack } ∧
      o'.operations.Perm (⟨w, .ended r, a⟩ :: others) := reaches_of_perm h .finish

/-- Work that nobody listens to comes to the end to which it is run alone. -/
theorem reaches_of_advance {b : Backend} {rest : Work Empty α}
    (h : o.operations.Perm (⟨w, .running rest, a⟩ :: others))
    (hends : (rest.advance b .deserted).1 = .ended r) :
    ∃ o', o.Reaches o' ∧ o'.pool = o.pool ∧
      o'.operations.Perm (⟨w, .running (.finish r), a⟩ :: others) := by
  induction rest generalizing o b with
  | finish r' =>
    obtain rfl : r' = r := by simpa [Work.advance, Work.advanceTo] using hends
    exact ⟨o, ⟨[], .refl⟩, rfl, h⟩
  | perform q next ih =>
    simp only [Work.advance, Work.advanceTo, Bool.false_eq_true, if_false] at hends ih
    cases hy : b.answer? q with
    | none => simp [hy] at hends
    | some y =>
      simp only [hy] at hends
      obtain ⟨o₁, h₁, hpool₁, hops₁⟩ := reaches_of_perm h (.perform y.1)
      obtain ⟨o₂, h₂, hpool₂, hops₂⟩ := ih y.1 hops₁ hends
      exact ⟨o₂, h₁.trans h₂, hpool₂.trans hpool₁, hops₂⟩
  | send item next ih =>
    obtain ⟨o₁, h₁, hpool₁, hops₁⟩ := reaches_of_perm h .send
    obtain ⟨o₂, h₂, hpool₂, hops₂⟩ := ih false hops₁ hends
    exact ⟨o₂, h₁.trans h₂, hpool₂.trans hpool₁, hops₂⟩

end Office

/-- What `Pool.run` answers is what an operation can be told that has the pool to itself, and the
pool is then as before. -/
theorem Pool.exists_reaches_run {α ε : Type} {w : Work Empty α} {b : Backend} {r : Outcome α}
    (p : Pool) (hfree : p.isClosed = true ∨ 0 < p.ops.available)
    (hends : (w.advance b .deserted).1 = .ended r) :
    ∃ (o : Office α ε) (x : Operation α), (⟨p, [], []⟩ : Office α ε).Reaches o ∧ o.pool = p ∧
      o.operations.Perm [x] ∧ x.answer? = some (p.run w b).1 := by
  have hsubmit : (⟨p, [], []⟩ : Office α ε).Reaches ⟨p, [.start w], []⟩ :=
    ⟨_, .step .refl (.submit w)⟩
  unfold Pool.run
  by_cases hclosed : p.isClosed = true
  · rw [if_pos hclosed]
    obtain ⟨o, hrefused, hpool, hops⟩ :=
      Office.reaches_refused (o := ⟨p, [.start w], []⟩) (.refl _) hclosed
    exact ⟨o, _, hsubmit.trans hrefused, hpool, hops, rfl⟩
  · rw [if_neg hclosed]
    have htake : p.ops.take? = some { p.ops with available := p.ops.available - 1 } :=
      if_pos (hfree.resolve_left hclosed)
    have hrun : (w.run b).1 = r.toExcept := by
      unfold Work.run
      generalize w.advance b .deserted = y at hends
      obtain ⟨_, b', c⟩ := y
      obtain rfl := hends
      rfl
    obtain ⟨o₁, h₁, hpool₁, hops₁⟩ := Office.reaches_began (o := ⟨p, [.start w], []⟩) (.refl _)
      (Bool.eq_false_iff.mpr hclosed) htake
    obtain ⟨o₂, h₂, hpool₂, hops₂⟩ := Office.reaches_of_advance hops₁ hends
    obtain ⟨o₃, h₃, hpool₃, hops₃⟩ := Office.reaches_ended hops₂
    refine ⟨o₃, _, hsubmit.trans ((h₁.trans h₂).trans h₃), ?_, hops₃, congrArg some hrun.symm⟩
    rw [hpool₃, hpool₂, hpool₁]
    dsimp only
    rw [Budget.giveBack_of_take? htake]

/-! ## Jobs -/

/-- A job that waits, as an operation. -/
def Job.waiting (job : Job) : Operation Int := .start (.finish job.outcome)

/-- A job that runs, as an operation. -/
def Job.running (job : Job) : Operation Int :=
  ⟨.finish job.outcome, .running (.finish job.outcome), true⟩

namespace Jobs

variable {ε : Type} {j : Jobs} {o : Office Int ε} {job : Job}

/-- The jobs of a pool are the operations of an office, up to order. -/
structure Shows (j : Jobs) (o : Office Int ε) : Prop where
  pool_eq : o.pool = j.pool
  /-- A closed pool has no queue. -/
  waiting_eq : j.pool.isClosed = true → j.waiting = []
  operations : ∃ gone : List (Operation Int), gone.map Operation.answer? = j.ended.map (some ·.2) ∧
    o.operations.Perm (j.running.map Job.running ++ j.waiting.map Job.waiting ++ gone)

/-- At first nobody has submitted anything. -/
theorem shows_start (name : String) (maxOps maxScans : Nat) :
    (Jobs.start (.new name maxOps maxScans)).Shows
      (Office.start name maxOps maxScans : Office Int ε) where
  pool_eq := rfl
  waiting_eq _ := rfl
  operations := ⟨[], rfl, .refl _⟩

/-- Who comes to the front of some operations may as well have come behind the others. -/
private theorem perm_gone {x : Operation Int} {others gone : List (Operation Int)} :
    (x :: (others ++ gone)).Perm (others ++ x :: gone) := List.perm_middle.symm

/-- A job that gets a permit begins, and ends at once unless it is held. -/
theorem Shows.begin {rest : List Job} {ops : Budget}
    (h : Shows { j with waiting := job :: rest } o) (htake : j.pool.ops.take? = some ops) :
    ∃ o' : Office Int ε, o.Reaches o' ∧ Shows { j.begin job ops with waiting := rest } o' := by
  have hopen : j.pool.isClosed = false :=
    Bool.eq_false_iff.mpr fun hclosed => absurd (h.waiting_eq hclosed) nofun
  obtain ⟨hpool, -, gone, hgone, hoperations⟩ := h
  dsimp only at hpool hgone hoperations
  rw [← hpool] at hopen htake
  have hfront : o.operations.Perm
      (job.waiting :: (j.running.map Job.running ++ rest.map Job.waiting ++ gone)) := by
    refine hoperations.trans ?_
    rw [List.append_assoc, List.append_assoc]
    exact List.perm_middle
  obtain ⟨o₁, hbegan, hpool₁, hops₁⟩ := Office.reaches_began hfront hopen htake
  rw [hpool] at hopen hpool₁
  have hqueue : j.pool.isClosed = true → rest = [] := fun hclosed =>
    absurd (hopen.symm.trans hclosed) nofun
  unfold Jobs.begin
  cases job.isHeld with
  | true => exact ⟨o₁, hbegan, hpool₁, hqueue, gone, hgone, hops₁⟩
  | false =>
    obtain ⟨o₂, hended, hpool₂, hops₂⟩ := Office.reaches_ended hops₁
    rw [hpool₁] at hpool₂
    refine ⟨o₂, hbegan.trans hended, hpool₂, hqueue, _ :: gone, ?_, hops₂.trans perm_gone⟩
    rw [List.map_cons, hgone]
    rfl

/-- The queue is served as far as there are permits. -/
theorem Shows.serve_go {ws : List Job} (h : Shows { j with waiting := ws } o) :
    ∃ o' : Office Int ε, o.Reaches o' ∧ (serve.go ws j).Shows o' := by
  induction ws generalizing j o with
  | nil => exact ⟨o, ⟨[], .refl⟩, h⟩
  | cons job rest ih =>
    unfold serve.go
    cases htake : j.pool.ops.take? with
    | none => exact ⟨o, ⟨[], .refl⟩, h⟩
    | some ops =>
      obtain ⟨o₁, hbegin, hshows⟩ := h.begin htake
      obtain ⟨o₂, hrest, hshows⟩ := ih hshows
      exact ⟨o₂, hbegin.trans hrest, hshows⟩

/-- To serve is to let every job go on that can. -/
theorem Shows.serve (h : j.Shows o) : ∃ o' : Office Int ε, o.Reaches o' ∧ j.serve.Shows o' :=
  h.serve_go

/-- A job is submitted. -/
theorem Shows.submit (h : j.Shows o) (job : Job) :
    ∃ o' : Office Int ε, o.Reaches o' ∧ (j.submit job).Shows o' := by
  obtain ⟨hpool, hqueue, gone, hgone, hoperations⟩ := h
  have hsubmit : o.Reaches { o with operations := o.operations ++ [job.waiting] } :=
    ⟨_, .step .refl (.submit (.finish job.outcome))⟩
  unfold Jobs.submit
  by_cases hclosed : j.pool.isClosed = true
  · rw [if_pos hclosed]
    have hfront : (o.operations ++ [job.waiting]).Perm (job.waiting ::
        (j.running.map Job.running ++ j.waiting.map Job.waiting ++ gone)) :=
      (List.perm_append_singleton _ _).trans (hoperations.cons _)
    obtain ⟨o', hrefused, hpool', hoperations'⟩ :=
      Office.reaches_refused (o := { o with operations := o.operations ++ [job.waiting] }) hfront
        (hpool ▸ hclosed)
    refine ⟨o', hsubmit.trans hrefused, hpool'.trans hpool, hqueue, _ :: gone, ?_,
      hoperations'.trans perm_gone⟩
    rw [List.map_cons, hgone]
    rfl
  · rw [if_neg hclosed]
    have hshows : Shows { j with waiting := j.waiting ++ [job] }
        { o with operations := o.operations ++ [job.waiting] } := by
      refine ⟨hpool, fun h => absurd h hclosed, gone, hgone, ?_⟩
      refine (hoperations.append_right [job.waiting]).trans ?_
      rw [List.append_assoc]
      refine (List.perm_append_comm.append_left _).trans (.of_eq ?_)
      simp [List.append_assoc]
    obtain ⟨o', hserve, hshows'⟩ := hshows.serve
    exact ⟨o', hsubmit.trans hserve, hshows'⟩

/-- The first job of a name is the only one, if names are not used twice. -/
theorem perm_filter_of_find? {jobs : List Job} {id : String}
    (hfind : jobs.find? (·.id == id) = some job) (hnodup : (jobs.map Job.id).Nodup) :
    jobs.Perm (job :: jobs.filter (·.id != id)) := by
  induction jobs with
  | nil => cases hfind
  | cons first rest ih =>
    obtain ⟨hfirst, hrest⟩ := List.nodup_cons.mp hnodup
    by_cases hid : first.id = id
    · subst hid
      rw [List.find?_cons_of_pos (by simp)] at hfind
      obtain rfl := Option.some.inj hfind
      have hothers : rest.filter (·.id != first.id) = rest := by
        refine List.filter_eq_self.mpr fun other hother => bne_iff_ne.mpr fun heq => ?_
        exact hfirst (heq ▸ List.mem_map_of_mem hother)
      rw [List.filter_cons_of_neg (by simp), hothers]
    · rw [List.find?_cons_of_neg (by simpa using hid)] at hfind
      rw [List.filter_cons_of_pos (by simpa using hid)]
      exact ((ih hfind hrest).cons first).trans (.swap _ _ _)

/-- A job is told to finish. -/
theorem Shows.finish (h : j.Shows o) {id : String} (hnodup : (j.running.map Job.id).Nodup) :
    ∃ o' : Office Int ε, o.Reaches o' ∧ (j.finish id).Shows o' := by
  unfold Jobs.finish
  cases hfind : j.running.find? (·.id == id) with
  | none => exact ⟨o, ⟨[], .refl⟩, h⟩
  | some job =>
    obtain ⟨hpool, hqueue, gone, hgone, hoperations⟩ := h
    have hfront : o.operations.Perm (job.running :: ((j.running.filter (·.id != id)).map
        Job.running ++ j.waiting.map Job.waiting ++ gone)) := by
      refine hoperations.trans ?_
      exact (((perm_filter_of_find? hfind hnodup).map Job.running).append_right _).append_right _
    obtain ⟨o₁, hended, hpool₁, hops₁⟩ := Office.reaches_ended hfront
    have hshows : Shows (record { j with
        running := j.running.filter (·.id != id)
        pool := { j.pool with ops := j.pool.ops.giveBack } } id job.outcome.toExcept) o₁ := by
      refine ⟨by rw [hpool₁, hpool]; rfl, hqueue, _ :: gone, ?_, hops₁.trans perm_gone⟩
      rw [List.map_cons, hgone]
      rfl
    obtain ⟨o₂, hserve, hshows₂⟩ := hshows.serve
    exact ⟨o₂, hended.trans hserve, hshows₂⟩

/-- The queue of a closed pool is refused. -/
theorem reaches_close {ws : List Job} {gone : List (Operation Int)}
    (hpool : o.pool = j.pool) (hclosed : j.pool.isClosed = true) (hqueue : j.waiting = [])
    (hgone : gone.map Operation.answer? = j.ended.map (some ·.2))
    (h : o.operations.Perm (j.running.map Job.running ++ ws.map Job.waiting ++ gone)) :
    ∃ o' : Office Int ε, o.Reaches o' ∧
      (ws.foldl (fun j job => j.record job.id (.error .closed)) j).Shows o' := by
  induction ws generalizing j o gone with
  | nil =>
    rw [← hqueue] at h
    exact ⟨o, ⟨[], .refl⟩, hpool, fun _ => hqueue, gone, hgone, h⟩
  | cons job rest ih =>
    have hfront : o.operations.Perm (job.waiting ::
        (j.running.map Job.running ++ rest.map Job.waiting ++ gone)) := by
      refine h.trans ?_
      rw [List.append_assoc, List.append_assoc]
      exact List.perm_middle
    obtain ⟨o₁, hrefused, hpool₁, hops₁⟩ := Office.reaches_refused hfront (hpool ▸ hclosed)
    have hgone₁ : ((⟨.finish job.outcome, .acquiring .refused, true⟩ : Operation Int) :: gone).map
        Operation.answer? = (j.record job.id (.error .closed)).ended.map (some ·.2) := by
      rw [List.map_cons, hgone]
      rfl
    obtain ⟨o₂, hrest, hshows⟩ := ih (j := j.record job.id (.error .closed)) (hpool₁.trans hpool)
      hclosed hqueue hgone₁ (hops₁.trans perm_gone)
    exact ⟨o₂, hrefused.trans hrest, hshows⟩

/-- The pool is closed. -/
theorem Shows.close (h : j.Shows o) : ∃ o' : Office Int ε, o.Reaches o' ∧ j.close.Shows o' := by
  obtain ⟨hpool, -, gone, hgone, hoperations⟩ := h
  have hclose : o.Reaches { o with pool := o.pool.close } := ⟨_, .step .refl .close⟩
  obtain ⟨o', hrefused, hshows⟩ := reaches_close (ε := ε) (o := { o with pool := o.pool.close })
    (j := { j with pool := j.pool.close, waiting := [] }) (by rw [hpool]) rfl rfl hgone hoperations
  exact ⟨o', hclose.trans hrefused, hshows⟩

end Jobs

end SnapshotStore
