import SnapshotStore.Proofs.Pool.Permits
import SnapshotStore.Proofs.Pool.Ending

/-!
# Closing is final

What has no permit when the pool is closed never begins, and its caller is told that the pool is
closed; what has one goes on, and its caller is told how its own work ended.
-/

namespace SnapshotStore

/-! ## Answers -/

/-- Some answers to its effects lead work that nobody listens to to an end. -/
inductive Work.CanEnd {α : Type} : Work Empty α → Outcome α → Prop
  | finish (r : Outcome α) : CanEnd (.finish r) r
  | perform {q : Effect} {next : q.Answer → Work Empty α} {r : Outcome α} (a : q.Answer)
      (h : CanEnd (next a) r) : CanEnd (.perform q next) r
  | send {item : Except StoreError Empty} {next : Bool → Work Empty α} {r : Outcome α}
      (h : CanEnd (next false) r) : CanEnd (.send item next) r

namespace Operation

variable {α : Type} {x x' : Operation α} {e : Event α} {p p' : Pool} {isClosed : Bool}

/-- An operation is refused by a closed pool only, and its end is one of its own work. -/
def IsSound (isClosed : Bool) (x : Operation α) : Prop :=
  match x.stage with
  | .acquiring t => t = .refused → isClosed = true
  | .running rest => ∀ r, rest.CanEnd r → x.work.CanEnd r
  | .ended r => x.work.CanEnd r
  | .withdrawn => True

/-- What was answered before a close is right after it. -/
theorem IsSound.close (h : x.IsSound isClosed) : x.IsSound true := by
  unfold IsSound at h ⊢
  split
  · exact fun _ => rfl
  all_goals simp_all

/-- An operation answers what its work came to, or that the pool is closed. -/
theorem Step.isSound (h : x.Step p e x' p') (hx : x.IsSound p.isClosed) :
    x'.IsSound p.isClosed := by
  cases h with
  | ask ht =>
    cases ht with
    | refuse hclosed | decline hclosed => exact fun _ => hclosed
    | offer | accept => exact nofun
  | begin => exact fun r hr => hr
  | perform y => exact fun r hr => hx r (.perform y hr)
  | send => exact fun r hr => hx r (.send hr)
  | @finish _ _ _ r => exact hx r (.finish r)
  | @abandon w s =>
    cases s with
    | acquiring t =>
      cases t with
      | waiting | offered => trivial
      | granted | refused => exact hx
    | _ => exact hx

/-- What a caller is told is that the pool is closed, or how its own work ended. -/
theorem IsSound.answer? (h : x.IsSound isClosed) {a : Except StoreError α}
    (ha : x.answer? = some a) :
    (x.stage = .acquiring .refused ∧ isClosed = true ∧ a = .error .closed) ∨
      ∃ r, x.stage = .ended r ∧ x.work.CanEnd r ∧ a = r.toExcept := by
  unfold IsSound at h
  unfold Operation.answer? at ha
  cases hstage : x.stage with
  | acquiring t =>
    cases t <;> simp only [hstage, reduceCtorEq, Option.some.injEq] at h ha
    exact .inl ⟨rfl, h trivial, ha.symm⟩
  | running rest => simp [hstage] at ha
  | withdrawn => simp [hstage] at ha
  | ended r =>
    simp only [hstage, Option.some.injEq] at h ha
    exact .inr ⟨r, rfl, h, ha.symm⟩

end Operation

namespace Office

variable {α ε : Type} {o o' : Office α ε} {e : Event α ε} {events : List (Event α ε)}
  {name : String} {maxOps maxScans : Nat}

/-- Only closing changes whether the pool is closed. -/
theorem Step.isClosed_eq (h : o.Step e o') :
    o'.pool.isClosed = o.pool.isClosed ∨ o'.pool.isClosed = true := by
  cases h with
  | operation _ h => exact .inl h.trades.2.2
  | pipe _ h => exact .inl h.trades.2.2
  | close => exact .inr rfl
  | _ => exact .inl rfl

/-- A step of an office leaves all its operations sound. -/
theorem Step.isSound (h : o.Step e o') (ho : ∀ x ∈ o.operations, x.IsSound o.pool.isClosed) :
    ∀ x ∈ o'.operations, x.IsSound o'.pool.isClosed := by
  have hmono : ∀ x ∈ o.operations, x.IsSound o'.pool.isClosed := by
    intro x hx
    rcases h.isClosed_eq with hsame | hclosed
    · rw [hsame]
      exact ho x hx
    · rw [hclosed]
      exact (ho x hx).close
  -- Only a submission and a step of an operation change the operations.
  cases h with
  | submit work =>
    intro x hx
    rcases List.mem_append.mp hx with hx | hx
    · exact hmono x hx
    · rw [List.mem_singleton.mp hx]
      exact nofun
  | @operation i y y' e p hi hstep =>
    intro x hx
    rcases List.mem_or_eq_of_mem_set hx with hx | rfl
    · exact hmono x hx
    · rw [hstep.trades.2.2]
      exact hstep.isSound (ho y (List.mem_of_getElem? hi))
  | _ => exact hmono

/-- In every run, operations answer what they came to, or that the pool is closed. -/
theorem Runs.isSound (h : (start name maxOps maxScans).Runs events o) :
    ∀ x ∈ o.operations, x.IsSound o.pool.isClosed := by
  induction h with
  | refl => exact nofun
  | step _ hstep ih => exact hstep.isSound ih

end Office

/-! ## Being turned away -/

namespace Operation

variable {α : Type} {x x' : Operation α} {e : Event α} {p p' : Pool}

/-- An operation without a permit, whose work has not begun. -/
def IsTurnedAway (x : Operation α) : Prop :=
  x.stage = .withdrawn ∨ ∃ t, x.stage = .acquiring t ∧ t ≠ .granted

/-- An operation whose work has a permit, or had one. -/
def IsAdmitted (x : Operation α) : Prop :=
  x.stage = .acquiring .granted ∨ (∃ rest, x.stage = .running rest) ∨ ∃ r, x.stage = .ended r

/-- An operation has its permit, or would be turned away. -/
theorem isAdmitted_or_isTurnedAway (x : Operation α) : x.IsAdmitted ∨ x.IsTurnedAway := by
  unfold IsAdmitted IsTurnedAway
  cases hstage : x.stage with
  | acquiring t => cases t <;> simp
  | running rest => exact .inl (.inr (.inl ⟨rest, rfl⟩))
  | ended r => exact .inl (.inr (.inr ⟨r, rfl⟩))
  | withdrawn => exact .inr (.inl rfl)

/-- A closed pool gives no permit. -/
theorem Step.isTurnedAway (h : x.Step p e x' p') (hclosed : p.isClosed = true)
    (hx : x.IsTurnedAway) : x'.IsTurnedAway ∧ e ≠ .began := by
  cases h with
  | ask ht =>
    cases ht with
    | offer hopen | accept hopen => exact absurd (hclosed.symm.trans hopen) nofun
    | refuse | decline => exact ⟨.inr ⟨.refused, rfl, nofun⟩, nofun⟩
  | begin =>
    rcases hx with hx | ⟨t, hx, ht⟩
    · cases hx
    · cases hx
      exact absurd rfl ht
  | perform | send | finish => rcases hx with hx | ⟨t, hx, -⟩ <;> cases hx
  | @abandon w s =>
    refine ⟨?_, nofun⟩
    rcases hx with rfl | ⟨t, rfl, ht⟩
    · exact .inl rfl
    · cases t with
      | waiting | offered => exact .inl rfl
      | granted => exact absurd rfl ht
      | refused => exact .inr ⟨.refused, rfl, nofun⟩

/-- Who has a permit keeps it until the end. -/
theorem Step.isAdmitted (h : x.Step p e x' p') (hx : x.IsAdmitted) :
    x'.IsAdmitted ∧ x'.work = x.work := by
  cases h with
  | ask ht =>
    rcases hx with hx | ⟨rest, hx⟩ | ⟨r, hx⟩ <;> cases hx
    cases ht
  | begin | perform | send => exact ⟨.inr (.inl ⟨_, rfl⟩), rfl⟩
  | finish => exact ⟨.inr (.inr ⟨_, rfl⟩), rfl⟩
  | abandon =>
    -- The caller goes away, the work does not.
    rcases hx with rfl | ⟨rest, rfl⟩ | ⟨r, rfl⟩
    · exact ⟨.inl rfl, rfl⟩
    · exact ⟨.inr (.inl ⟨rest, rfl⟩), rfl⟩
    · exact ⟨.inr (.inr ⟨r, rfl⟩), rfl⟩

/-- Whoever waits at a closed pool is told so. -/
theorem IsTurnedAway.told (hx : x.IsTurnedAway) (hclosed : p.isClosed = true) :
    x.stage = .withdrawn ∨ x.answer? = some (.error .closed) ∨
      ∃ x' p', x.Step p (.asked .refused) x' p' ∧ x'.answer? = some (.error .closed) := by
  obtain ⟨w, s, a⟩ := x
  rcases hx with hx | ⟨t, rfl, ht⟩
  · exact .inl hx
  · cases t with
    | waiting => exact .inr (.inr ⟨_, _, .ask (.refuse hclosed), rfl⟩)
    | offered => exact .inr (.inr ⟨_, _, .ask (.decline hclosed), rfl⟩)
    | granted => exact absurd rfl ht
    | refused => exact .inr (.inl rfl)

end Operation

namespace Pipe

variable {ε : Type} {l l' : Pipe ε} {e : Event ε} {p p' : Pool} {got : Prop}

/-- A pipe whose work has not begun and does not begin at a closed pool; its consumer got the
refusal, or will get nothing else. -/
inductive TurnedAway (got : Prop) (l : Pipe ε) : Prop
  | asking {t : Ticket} (hstage : l.stage = .acquiring t) (ht : t ≠ .granted)
      (hitems : l.channel.items = [])
  | refused (hstage : l.stage = .silent) (hitems : ∀ item ∈ l.channel.items, item = .error .closed)
      (htold : l.channel.isOpen = true → got ∨ .error .closed ∈ l.channel.items)

/-- Less may be said about what was told. -/
theorem TurnedAway.mono {got' : Prop} (hl : l.TurnedAway got) (h : got → got') :
    l.TurnedAway got' := by
  cases hl with
  | asking hstage ht hitems => exact .asking hstage ht hitems
  | refused hstage hitems htold =>
    exact .refused hstage hitems fun hopen => (htold hopen).imp_left h

/-- Who would be turned away is, does not begin, and hears nothing but that. -/
theorem Step.turnedAway (h : l.Step p e l' p') (hclosed : p.isClosed = true)
    (hl : l.TurnedAway got) :
    l'.TurnedAway (got ∨ e = .received (.error .closed)) ∧ e ≠ .began ∧
      ∀ item, e = .received item → item = .error .closed := by
  cases h with
  | @ask w c p t t' scans ht =>
    have hitems : c.items = [] := by
      cases hl with
      | asking _ _ hitems => exact hitems
      | refused hstage => cases hstage
    cases ht with
    | offer hopen | accept hopen => exact absurd (hclosed.symm.trans hopen) nofun
    | refuse | decline => exact ⟨.asking rfl nofun hitems, nofun, nofun⟩
  | begin =>
    cases hl with
    | asking hstage ht =>
      cases hstage
      exact absurd rfl ht
    | refused hstage => cases hstage
  | perform | send | finish =>
    cases hl with
    | asking hstage | refused hstage => cases hstage
  | @report w s c c' p failure heard he hsend =>
    refine ⟨?_, nofun, nofun⟩
    cases hl with
    | refused hstage =>
      cases hstage
      cases he
    | @asking t hstage _ hitems =>
      cases hstage
      dsimp only at hitems
      cases t <;> cases he
      cases hopen : c.isOpen with
      | true =>
        obtain ⟨rfl, rfl⟩ := Channel.send?_of_open hsend hopen
        exact .refused rfl (by simp [hitems]) fun _ => .inr (by simp)
      | false =>
        obtain ⟨rfl, rfl⟩ := Channel.send?_of_gone hsend hopen
        exact .refused rfl (by simp [hitems]) fun h => absurd (hopen.symm.trans h) nofun
  | @receive w s c c' p item hopen hreceive =>
    obtain ⟨hcons, -, -⟩ := Channel.receive?_eq_some hreceive
    cases hl with
    | asking _ _ hitems => exact absurd (hitems.symm.trans hcons) nofun
    | refused hstage hitems htold =>
      dsimp only at hitems htold
      rw [hcons] at hitems
      obtain ⟨rfl, hrest⟩ := List.forall_mem_cons.mp hitems
      refine ⟨.refused hstage hrest fun _ => .inl (.inr rfl), nofun, ?_⟩
      rintro _ ⟨⟩
      rfl
  | seeEnd =>
    refine ⟨?_, nofun, nofun⟩
    cases hl with
    | asking hstage => cases hstage
    | refused hstage hitems htold => exact .refused hstage hitems fun h => (htold h).imp_left .inl
  | leave =>
    refine ⟨?_, nofun, nofun⟩
    cases hl with
    | asking hstage ht => exact .asking hstage ht rfl
    | refused hstage => exact .refused hstage nofun nofun

/-- A consumer that stays is told. -/
theorem TurnedAway.told (hl : l.TurnedAway got) (hclosed : p.isClosed = true)
    (hopen : l.channel.isOpen = true) (hpos : 0 < l.channel.capacity) :
    got ∨ ∃ events l' p', l.Steps p events l' p' ∧ .received (.error .closed) ∈ events := by
  obtain ⟨w, s, capacity, items, isOpen⟩ := l
  cases hl with
  | refused hstage hitems htold =>
    refine (htold hopen).imp_right fun hmem => ?_
    cases items with
    | nil => cases hmem
    | cons item items =>
      obtain rfl := hitems item List.mem_cons_self
      exact ⟨_, _, _, .step .refl (.receive hopen rfl), by simp⟩
  | @asking t hstage ht hitems =>
    dsimp only at hstage hitems hopen hpos
    subst hstage hitems hopen
    have hsend : (⟨capacity, [], true⟩ : Channel ε).send? (.error .closed)
        = some (true, ⟨capacity, [.error .closed], true⟩) := by simp [Channel.send?, hpos]
    -- Once the permit is refused, the refusal is sent and can be received.
    have hrefused : ∀ p₁, ∃ l' p', Steps ⟨w, .acquiring .refused, ⟨capacity, [], true⟩⟩ p₁
        ([] ++ [.reported .closed true] ++ [.received (.error .closed)]) l' p' := fun p₁ =>
      ⟨_, _, .step (.step .refl (.report rfl hsend)) (.receive rfl rfl)⟩
    have hasked : ∀ {t' p₁}, Step ⟨w, .acquiring t', ⟨capacity, [], true⟩⟩ p (.asked .refused)
        ⟨w, .acquiring .refused, ⟨capacity, [], true⟩⟩ p₁ → ∃ events l' p',
          Steps ⟨w, .acquiring t', ⟨capacity, [], true⟩⟩ p events l' p' ∧
            .received (.error .closed) ∈ events := by
      intro t' p₁ hstep
      obtain ⟨l', p', hsteps⟩ := hrefused p₁
      exact ⟨_, l', p', (Steps.step .refl hstep).trans hsteps, by simp⟩
    right
    cases t with
    | waiting => exact hasked (.ask (.refuse hclosed))
    | offered => exact hasked (.ask (.decline hclosed))
    | granted => exact absurd rfl ht
    | refused =>
      obtain ⟨l', p', hsteps⟩ := hrefused p
      exact ⟨_, l', p', hsteps, by simp⟩

/-- Nothing is sent before there is a permit, or none. -/
theorem Runs.items_of_acquiring {capacity : Nat} {w : Work ε Unit} {events : List (Event ε)}
    (h : (start capacity w).Runs events l) {t : Ticket} (hstage : l.stage = .acquiring t) :
    l.channel.items = [] := by
  induction h generalizing t with
  | refl => rfl
  | step _ hstep ih =>
    cases hstep with
    | ask => exact ih rfl
    | leave => rfl
    | receive _ hreceive =>
      exact absurd ((ih hstage).symm.trans (Channel.receive?_eq_some hreceive).1) nofun
    | @finish _ _ _ r => cases r <;> cases hstage
    | _ => cases hstage

end Pipe

namespace Office

variable {α ε : Type} {o o' : Office α ε} {e : Event α ε} {events later : List (Event α ε)}
  {name : String} {maxOps maxScans i : Nat}

/-- A closed pool stays closed. -/
theorem Runs.isClosed (h : o.Runs later o') (hclosed : o.pool.isClosed = true) :
    o'.pool.isClosed = true := by
  induction h with
  | refl => exact hclosed
  | step _ hstep ih => exact hstep.isClosed_eq.elim (fun hsame => hsame.trans ih) id

/-- An operation that has no permit when the pool is closed never begins. -/
theorem Runs.turnsAway_operation (h : o.Runs later o') (hclosed : o.pool.isClosed = true)
    (hi : ∀ x, o.operations[i]? = some x → x.IsTurnedAway) :
    (∀ x, o'.operations[i]? = some x → x.IsTurnedAway) ∧ .operation i .began ∉ later := by
  induction h with
  | refl => exact ⟨hi, nofun⟩
  | @step o₁ o₂ later e h hstep ih =>
    obtain ⟨hx, hbegan⟩ := ih
    rcases hstep.at_operation i with ⟨y, x, x', p, rfl, hx₁, hop, hx₂⟩ | ⟨hother, hplace⟩
    · obtain ⟨haway, hy⟩ := hop.isTurnedAway (h.isClosed hclosed) (hx x hx₁)
      refine ⟨fun x₂ hx₂' => ?_, by simpa [hbegan] using Ne.symm hy⟩
      rwa [← Option.some.inj (hx₂.symm.trans hx₂')]
    · refine ⟨fun x hx₂ => ?_, by simpa [hbegan] using Ne.symm (hother .began)⟩
      rcases hplace with hsame | ⟨-, work, hnew⟩
      · exact hx x (hsame.symm.trans hx₂)
      · rw [← Option.some.inj (hnew.symm.trans hx₂)]
        exact .inr ⟨.waiting, rfl, nofun⟩

/-- So it is with pipes, and nothing but the refusal reaches their consumers. -/
theorem Runs.turnsAway_pipe (h : o.Runs later o') (hclosed : o.pool.isClosed = true)
    (hi : ∀ l, o.pipes[i]? = some l → l.TurnedAway False) :
    (∀ l, o'.pipes[i]? = some l →
        l.TurnedAway (.pipe i (.received (.error .closed)) ∈ later)) ∧
      .pipe i .began ∉ later ∧
      ∀ item, .pipe i (.received item) ∈ later → item = .error .closed := by
  induction h with
  | refl => exact ⟨fun l hl => (hi l hl).mono False.elim, nofun, nofun⟩
  | @step o₁ o₂ later e h hstep ih =>
    obtain ⟨hl, hbegan, hreceived⟩ := ih
    -- The step is one of this pipe, or it leaves the pipe as it is, or it opens it.
    rcases hstep.at_pipe i with ⟨y, l, l', p, rfl, hl₁, hpipe, hl₂⟩ | ⟨hother, hplace⟩
    · obtain ⟨haway, hy, hitem⟩ := hpipe.turnedAway (h.isClosed hclosed) (hl l hl₁)
      refine ⟨fun l₂ hl₂' => ?_, by simpa [hbegan] using Ne.symm hy, fun item hmem => ?_⟩
      · rw [← Option.some.inj (hl₂.symm.trans hl₂')]
        refine haway.mono fun hgot => List.mem_append.mpr (hgot.imp_right fun hy => ?_)
        rw [hy]
        exact List.mem_singleton_self _
      · rcases List.mem_append.mp hmem with hmem | hmem
        · exact hreceived item hmem
        · have heq := List.mem_singleton.mp hmem
          simp only [Event.pipe.injEq, true_and] at heq
          exact hitem item heq.symm
    · refine ⟨fun l hl₂ => ?_, by simpa [hbegan] using Ne.symm (hother .began), fun item hmem => ?_⟩
      · rcases hplace with hsame | ⟨-, capacity, work, hnew⟩
        · exact (hl l (hsame.symm.trans hl₂)).mono (List.mem_append_left _)
        · rw [← Option.some.inj (hnew.symm.trans hl₂)]
          exact .asking rfl nofun rfl
      · rcases List.mem_append.mp hmem with hmem | hmem
        · exact hreceived item hmem
        · exact absurd (List.mem_singleton.mp hmem).symm (hother _)

/-- The work of an operation with a permit goes on. -/
theorem Runs.isAdmitted (h : o.Runs later o') {x : Operation α} (hi : o.operations[i]? = some x)
    (hx : x.IsAdmitted) :
    ∃ x', o'.operations[i]? = some x' ∧ x'.IsAdmitted ∧ x'.work = x.work := by
  induction h with
  | refl => exact ⟨x, hi, hx, rfl⟩
  | step _ hstep ih =>
    obtain ⟨x₁, hx₁, hadmitted, hwork⟩ := ih
    rcases hstep.at_operation i with ⟨y, x₁', x₂, p, rfl, hx₁', hop, hx₂⟩ |
      ⟨-, hsame | ⟨hnone, -⟩⟩
    · obtain rfl := Option.some.inj (hx₁'.symm.trans hx₁)
      obtain ⟨hadmitted₂, hwork₂⟩ := hop.isAdmitted hadmitted
      exact ⟨x₂, hx₂, hadmitted₂, hwork₂.trans hwork⟩
    · exact ⟨x₁, hsame.trans hx₁, hadmitted, hwork⟩
    · exact absurd (hnone.symm.trans hx₁) nofun

/-- The operation at a place can come to an answer. -/
def CanAnswer (o : Office α ε) (i : Nat) : Prop :=
  ∃ more o' x a, o.Runs more o' ∧ o'.operations[i]? = some x ∧ x.answer? = some a

/-- It can if it can after a step of its own. -/
theorem CanAnswer.of_step {x x' : Operation α} {y : Operation.Event α} {p : Pool}
    (hi : o.operations[i]? = some x) (hstep : x.Step o.pool y x' p)
    (h : ∀ o' : Office α ε, o'.operations[i]? = some x' → o'.CanAnswer i) : o.CanAnswer i := by
  obtain ⟨more, o₂, x₂, a, hruns, hx₂, ha⟩ :=
    h { o with pool := p, operations := o.operations.set i x' }
      (List.getElem?_set_self (List.getElem?_eq_some_iff.mp hi).1)
  exact ⟨_, o₂, x₂, a, (Runs.refl.step (.operation hi hstep)).trans hruns, hx₂, ha⟩

/-- Work that runs can come to its answer. -/
theorem canAnswer_of_running {w rest : Work Empty α} {a : Bool}
    (hi : o.operations[i]? = some ⟨w, .running rest, a⟩) : o.CanAnswer i := by
  induction rest generalizing o with
  | finish r => exact .of_step hi .finish fun o' hi' => ⟨[], o', _, _, .refl, hi', rfl⟩
  | perform q next ih =>
    obtain ⟨y⟩ := q.nonempty_answer
    exact .of_step hi (.perform y) fun o' hi' => ih y hi'
  | send item next ih => exact .of_step hi .send fun o' hi' => ih false hi'

/-- What has a permit can come to an answer, whether its pool is closed or not. -/
theorem canAnswer_of_isAdmitted {x : Operation α} (hi : o.operations[i]? = some x)
    (hx : x.IsAdmitted) : o.CanAnswer i := by
  obtain ⟨w, s, a⟩ := x
  rcases hx with hstage | ⟨rest, hstage⟩ | ⟨r, hstage⟩ <;> obtain rfl := hstage
  · exact .of_step hi .begin fun o' hi' => canAnswer_of_running hi'
  · exact canAnswer_of_running hi
  · exact ⟨[], o, _, _, .refl, hi, rfl⟩

end Office

end SnapshotStore
