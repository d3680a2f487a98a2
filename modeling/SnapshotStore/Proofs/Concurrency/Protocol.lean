import SnapshotStore.Proofs.Concurrency.Calls

/-!
# How a call uses the stripe of its key

Seen from the others, a call is where it stands with the stripe of its key: outside, announced as a
writer, inside with the value that its key holds meanwhile, inside behind its write, or gone with
its result (`Call.Place`).  `Call.Rule` lists the effects that a call may perform where it stands,
and what it then relies on: it reads only inside, it is answered the value that its key holds, and
it writes only when it has the stripe alone and has shown that value to its updater.  That others
keep these promises is not said here.

`Work.Serves` says of some work that it keeps to the rules, whatever it is answered within them.
All calls do (`Call.serves_work`): each ends behind its stripe with the result that belongs to the
value it saw there, and it runs its updater at most twice.
-/

namespace SnapshotStore

namespace Call

/-! ## Rules -/

/-- Where a call stands with the stripe of its key. -/
inductive Place where
  /-- It has no part in the stripe, and no result yet. -/
  | outside
  /-- It announced itself as a writer. -/
  | announced
  /-- It holds the stripe, and its key holds a value. -/
  | inside (hold : Hold) (value : Option Bytes)
  /-- It wrote its value and still holds the stripe alone. -/
  | written (r : Outcome Answer)
  /-- It has its result and no part in the stripe. -/
  | left (r : Outcome Answer)

/-- Where a call stands, and which values its updater was shown so far, newest first. -/
structure Standing where
  /-- Its place at the stripe. -/
  place : Place
  /-- What the updater was shown. -/
  shown : List (Option Bytes)

/-- The place of a call that goes out of its stripe without a write.  If it has nothing to write,
that was it; if it has, it could not, and comes back. -/
def departed (c : Call) (v : Option Bytes) : Place :=
  match c.writes? v with
  | none => .left (c.answer v)
  | some _ => .outside

/-- A call that writes nothing has its answer when it leaves. -/
theorem departed_of_keeps {c : Call} {v : Option Bytes} (h : c.writes? v = none) :
    c.departed v = .left (c.answer v) := by rw [departed, h]

/-- A call that writes but has not written yet is outside again. -/
theorem departed_of_writes {c : Call} {v current : Option Bytes}
    (h : c.writes? v = some current) : c.departed v = .outside := by rw [departed, h]

/-- The updater of a call, if it has one, was shown a value last. -/
def HasConsulted : Call → Option Bytes → List (Option Bytes) → Prop
  | update .., v, shown => shown.head? = some v
  | _, _, _ => True

/-- The effects that a call on a column and a stripe may perform where it stands, and what each may
answer and lead to. -/
inductive Rule (n i : Nat) (c : Call) :
    Standing → (q : Effect) → (q.Answer → Standing → Prop) → Prop
  /-- The view of no snapshot is the newest state. -/
  | resolve (t : Standing) : Rule n i c t (.resolve none) fun a t' => a = .ok .latest ∧ t' = t
  /-- Inside, the filter says no only if the key has no value. -/
  | probe {hold : Hold} {v : Option Bytes} {shown : List (Option Bytes)} :
    Rule n i c ⟨.inside hold v, shown⟩ (.ask (.mayContain n c.key)) fun a t' =>
      (∃ possible, a = .ok possible ∧ (possible = false → v = none)) ∧ t' = ⟨.inside hold v, shown⟩
  /-- Inside, the engine answers what the key holds. -/
  | fetch {hold : Hold} {v : Option Bytes} {shown : List (Option Bytes)} :
    Rule n i c ⟨.inside hold v, shown⟩ (.ask (.get n .latest c.key)) fun a t' =>
      a = .ok v ∧ t' = ⟨.inside hold v, shown⟩
  /-- An updater runs at most twice. -/
  | consult {key : Bytes} {f : Updater} {sure : Bool} (hc : c = update key f sure) (t : Standing)
      (hlt : t.shown.length < 2) (current : Option Bytes) :
    Rule n i c t (.consult f current) fun a t' => a = f current ∧ t' = ⟨t.place, current :: t.shown⟩
  /-- A value is written by a call that has its stripe alone and has nothing else to write. -/
  | put {v : Option Bytes} {value : Bytes} {shown : List (Option Bytes)}
      (hwrites : c.writes? v = some (some value)) (hshown : c.HasConsulted v shown) :
    Rule n i c ⟨.inside .exclusive v, shown⟩ (.ask (.put n c.key value)) fun a t' =>
      a = .ok () ∧ t' = ⟨.written (c.answer v), shown⟩
  /-- So is a deletion. -/
  | delete {v : Option Bytes} {shown : List (Option Bytes)}
      (hwrites : c.writes? v = some none) (hshown : c.HasConsulted v shown) :
    Rule n i c ⟨.inside .exclusive v, shown⟩ (.ask (.delete n c.key)) fun a t' =>
      a = .ok () ∧ t' = ⟨.written (c.answer v), shown⟩
  /-- A writer announces itself. -/
  | announce {shown : List (Option Bytes)} :
    Rule n i c ⟨.outside, shown⟩ (.announce i) fun _ t' => t' = ⟨.announced, shown⟩
  /-- A reader goes in and finds some value. -/
  | share {shown : List (Option Bytes)} :
    Rule n i c ⟨.outside, shown⟩ (.enter .shared i) fun _ t' =>
      ∃ v, t' = ⟨.inside .shared v, shown⟩
  /-- An announced writer goes in and finds some value. -/
  | own {shown : List (Option Bytes)} :
    Rule n i c ⟨.announced, shown⟩ (.enter .exclusive i) fun _ t' =>
      ∃ v, t' = ⟨.inside .exclusive v, shown⟩
  /-- A reader becomes the writer, or stays a reader; either way the value is the same. -/
  | upgrade {v : Option Bytes} {shown : List (Option Bytes)} :
    Rule n i c ⟨.inside .shared v, shown⟩ (.upgrade i) fun a t' =>
      t' = ⟨.inside (if a then .exclusive else .shared) v, shown⟩
  /-- A call goes out without a write. -/
  | leave {hold : Hold} {v : Option Bytes} {shown : List (Option Bytes)} :
    Rule n i c ⟨.inside hold v, shown⟩ (.leave hold i) fun _ t' => t' = ⟨c.departed v, shown⟩
  /-- A call goes out behind its write. -/
  | leaveWritten {r : Outcome Answer} {shown : List (Option Bytes)} :
    Rule n i c ⟨.written r, shown⟩ (.leave .exclusive i) fun _ t' => t' = ⟨.left r, shown⟩

/-- A call asks the engine for its key alone: it reads it, or it writes what it has to, for the
value that its updater was shown last. -/
theorem Rule.asks {n i : Nat} {c : Call} {t : Standing} {call : EngineCall}
    {R : Except EngineError call.Answer → Standing → Prop} (hrule : Rule n i c t (.ask call) R) :
    call = .mayContain n c.key ∨ call = .get n .latest c.key ∨
      ∃ v current, call = .assign n c.key current ∧ t.place = .inside .exclusive v ∧
        c.writes? v = some current ∧ c.HasConsulted v t.shown := by
  cases hrule with
  | probe => exact .inl rfl
  | fetch => exact .inr (.inl rfl)
  | @put v value shown hwrites hshown =>
    exact .inr (.inr ⟨v, some value, rfl, rfl, hwrites, hshown⟩)
  | @delete v shown hwrites hshown => exact .inr (.inr ⟨v, none, rfl, rfl, hwrites, hshown⟩)

end Call

open Call

/-! ## Work that keeps to the rules -/

namespace Work

variable {ε α β : Type} {n i : Nat} {c : Call} {w : Work ε α} {t : Standing}
  {P : Outcome α → Standing → Prop}

/-- Work of a call that starts where the call stands keeps to the rules; how it ends, and where the
call stands then, have a property. -/
def Serves (n i : Nat) (c : Call) (Q : Outcome α → Standing → Prop) : Work ε α → Standing → Prop
  | finish r, t => Q r t
  | perform q next, t => ∃ R, Rule n i c t q R ∧ ∀ a t', R a t' → (next a).Serves n i c Q t'
  | send .., _ => False

/-- What is put behind some work goes on where the work ended. -/
private theorem Serves.behind {Q : Outcome β → Standing → Prop} (g : Work ε α → Work ε β)
    (hperform : ∀ q next, g (perform q next) = perform q fun a => g (next a))
    (h : w.Serves n i c P t) (hfinish : ∀ r t, P r t → (g (finish r)).Serves n i c Q t) :
    (g w).Serves n i c Q t := by
  induction w generalizing t with
  | finish r => exact hfinish r t h
  | perform q next ih =>
    obtain ⟨R, hrule, hnext⟩ := h
    rw [hperform]
    exact ⟨R, hrule, fun a t' ha => ih a (hnext a t' ha)⟩
  | send item next ih => exact h.elim

/-- Work that follows the rules may go on with work that does. -/
theorem Serves.bind {Q : Outcome β → Standing → Prop} {f : α → Work ε β}
    (h : w.Serves n i c P t)
    (hf : ∀ r t, P r t → (finish r >>= f : Work ε β).Serves n i c Q t) :
    (w >>= f).Serves n i c Q t :=
  h.behind (fun w => w >>= f) (fun _ _ => rfl) hf

/-- What is done at the end has to follow the rules wherever the work may end. -/
theorem Serves.ensuring {Q : Outcome α → Standing → Prop} {last : Work ε Unit}
    (h : w.Serves n i c P t)
    (hlast : ∀ r t, P r t → ((finish r : Work ε α).ensuring last).Serves n i c Q t) :
    (w.ensuring last).Serves n i c Q t :=
  h.behind (fun w => w.ensuring last) (fun _ _ => rfl) hlast

/-- What is done after a failure has to follow the rules after each of them. -/
theorem Serves.onFailure {Q : Outcome α → Standing → Prop} {last : Work ε Unit}
    (h : w.Serves n i c P t)
    (hlast : ∀ r t, P r t → ((finish r : Work ε α).onFailure last).Serves n i c Q t) :
    (w.onFailure last).Serves n i c Q t :=
  h.behind (fun w => w.onFailure last) (fun _ _ => rfl) hlast

/-- Less may be promised about the end. -/
theorem Serves.mono {Q : Outcome α → Standing → Prop} (h : w.Serves n i c P t)
    (hPQ : ∀ r t, P r t → Q r t) : w.Serves n i c Q t :=
  h.behind id (fun _ _ => rfl) hPQ

/-- An effect by the rules is work by the rules. -/
theorem serves_effect {q : Effect} {R : q.Answer → Standing → Prop}
    {Q : Outcome q.Answer → Standing → Prop} (hrule : Rule n i c t q R)
    (hQ : ∀ a t', R a t' → Q (.done a) t') : (effect q : Work ε _).Serves n i c Q t :=
  ⟨R, hrule, hQ⟩

/-- A call of the engine that does not fail. -/
theorem serves_call {call : EngineCall} {R : Except EngineError call.Answer → Standing → Prop}
    {Q : Outcome call.Answer → Standing → Prop} (hrule : Rule n i c t (.ask call) R)
    (hQ : ∀ r t', R r t' → ∃ a, r = .ok a ∧ Q (.done a) t') (operation context : String) :
    (Work.call operation context call : Work ε _).Serves n i c Q t := by
  refine ⟨R, hrule, fun r t' hr => ?_⟩
  obtain ⟨a, rfl, ha⟩ := hQ r t' hr
  exact ha

/-- Without a snapshot the view is the newest state. -/
theorem serves_view :
    (Work.view none : Work ε _).Serves n i c (fun r t' => r = .done .latest ∧ t' = t) t := by
  refine ⟨_, .resolve t, ?_⟩
  rintro _ _ ⟨rfl, rfl⟩
  exact ⟨rfl, rfl⟩

/-- Going in as a reader, or announced as a writer. -/
theorem serves_lock (hold : Hold) {shown : List (Option Bytes)} :
    (lock hold i : Work ε Unit).Serves n i c
      (fun r t => r = .done () ∧ ∃ v, t = ⟨.inside hold v, shown⟩) ⟨.outside, shown⟩ := by
  cases hold with
  | shared => exact ⟨_, .share, fun _ _ ht => ⟨rfl, ht⟩⟩
  | exclusive =>
    refine ⟨_, .announce, fun _ t' ht => ?_⟩
    subst ht
    exact ⟨_, .own, fun _ _ ht => ⟨rfl, ht⟩⟩

end Work

/-! ## The parts of calls -/

namespace Dictionary

/-- A read of one key takes the stripe of the key. -/
theorem readStripes_singleton (d : Dictionary) {s : Striping} (h : d.striping = some s)
    (key : Bytes) : d.readStripes .latest [key] = [s.index key] := by
  rw [← s.indices_singleton]
  simp only [readStripes, h]

/-- So does a write. -/
theorem writeStripes_singleton (d : Dictionary) {s : Striping} (h : d.striping = some s)
    (key : Bytes) : d.writeStripes [key] = [s.index key] := by
  rw [← s.indices_singleton]
  simp only [writeStripes, h]

variable {ε : Type} {d : Dictionary} {i : Nat} {c : Call} {hold : Hold} {v : Option Bytes}
  {shown : List (Option Bytes)}

/-- Inside, a read answers what the key holds. -/
theorem serves_read (sure : Bool) :
    (d.read .latest c.key sure : Work ε _).Serves d.column i c
      (fun r t => r = .done v ∧ t = ⟨.inside hold v, shown⟩) ⟨.inside hold v, shown⟩ := by
  have hfetch : (Work.call "read" c.key.label (.get d.column .latest c.key) : Work ε _).Serves
      d.column i c (fun r t => r = .done v ∧ t = ⟨.inside hold v, shown⟩) ⟨.inside hold v, shown⟩ :=
    Work.serves_call .fetch (fun r t' hr => ⟨v, hr.1, rfl, hr.2⟩) _ _
  cases sure with
  | true => exact hfetch
  | false =>
    refine (Work.serves_call (Q := fun r t => ∃ possible, r = .done possible ∧
      (possible = false → v = none) ∧ t = ⟨.inside hold v, shown⟩) .probe ?_ _ _).bind ?_
    · rintro r t' ⟨⟨possible, rfl, hpossible⟩, rfl⟩
      exact ⟨possible, rfl, possible, rfl, hpossible, rfl⟩
    · rintro r t' ⟨possible, rfl, hpossible, rfl⟩
      cases possible with
      | true => exact hfetch
      | false => exact ⟨congrArg _ (hpossible rfl).symm, rfl⟩

/-- Inside its stripe, a call reads the value before its write if that is asked for. -/
theorem serves_previousFor (result : ResultType) :
    (d.previousFor result c.key : Work ε _).Serves d.column i c
      (fun r t => r = .done (if result.needsPrevious then v else none) ∧ t = ⟨.inside hold v, shown⟩)
      ⟨.inside hold v, shown⟩ := by
  unfold previousFor
  split
  · exact serves_read false
  · exact ⟨rfl, rfl⟩

/-- To store the value that the call writes is to have written. -/
theorem serves_store {value : Bytes} (hwrites : c.writes? v = some (some value))
    (hshown : c.HasConsulted v shown) :
    (d.store c.key value : Work ε _).Serves d.column i c
      (fun r t => r = .done () ∧ t = ⟨.written (c.answer v), shown⟩)
      ⟨.inside .exclusive v, shown⟩ :=
  Work.serves_call (.put hwrites hshown) (fun _ _ hr => ⟨(), hr.1, rfl, hr.2⟩) _ _

/-- To delete the key that the call deletes is to have written as well. -/
theorem serves_drop (hwrites : c.writes? v = some none) (hshown : c.HasConsulted v shown) :
    (d.drop c.key : Work ε _).Serves d.column i c
      (fun r t => r = .done () ∧ t = ⟨.written (c.answer v), shown⟩)
      ⟨.inside .exclusive v, shown⟩ :=
  Work.serves_call (.delete hwrites hshown) (fun _ _ hr => ⟨(), hr.1, rfl, hr.2⟩) _ _

end Dictionary

namespace Call

variable {d : Dictionary} {s : Striping} {n i : Nat} {c : Call} {hold : Hold} {v : Option Bytes}

/-- A call that has read its key and written what it had to, and is on its way out. -/
def Place.IsSettled (c : Call) (hold : Hold) (v : Option Bytes) (p : Place) : Prop :=
  p = .inside hold v ∧ c.writes? v = none ∨ p = .written (c.answer v) ∧ hold = .exclusive

/-- Such a call leaves with its result. -/
theorem serves_leave {t : Standing} (ht : t.place.IsSettled c hold v) :
    (Work.unlock hold i : Work Empty Unit).Serves n i c
      (fun r t => r = .done () ∧ t.place = .left (c.answer v)) t := by
  obtain ⟨place, shown⟩ := t
  obtain ⟨rfl, hkeeps⟩ | ⟨rfl, rfl⟩ := ht
  · refine Work.serves_effect .leave fun _ t' ht' => ⟨rfl, ?_⟩
    rw [ht', departed_of_keeps hkeeps]
  · exact Work.serves_effect .leaveWritten fun _ t' ht' => ⟨rfl, ht' ▸ rfl⟩

variable {β : Type} {x : Work Empty β} {shown : List (Option Bytes)}

/-- Work that ends settled and leaves however it ends. -/
theorem serves_leaving {r : Outcome β} {t : Standing}
    (h : x.Serves n i c (fun r' t => r' = r ∧ t.place.IsSettled c hold v) t) :
    (x.ensuring (Work.unlock hold i)).Serves n i c
      (fun r' t => r' = r ∧ t.place = .left (c.answer v)) t := by
  refine h.ensuring ?_
  rintro r' t' ⟨rfl, ht'⟩
  refine (serves_leave ht').bind ?_
  rintro _ t'' ⟨rfl, ht''⟩
  exact ⟨rfl, ht''⟩

/-- Work under the stripe of the key. -/
theorem serves_holding {r : Option Bytes → Outcome β}
    (h : ∀ v, x.Serves n i c (fun r' t => r' = r v ∧ t.place.IsSettled c hold v)
      ⟨.inside hold v, shown⟩) :
    (Work.holding hold [i] x).Serves n i c
      (fun r' t => ∃ v, r' = r v ∧ t.place = .left (c.answer v)) ⟨.outside, shown⟩ := by
  refine (Work.serves_lock hold).bind ?_
  rintro _ _ ⟨rfl, v, rfl⟩
  refine (serves_leaving (h v)).mono ?_
  rintro r' t ⟨rfl, ht⟩
  exact ⟨v, rfl, ht⟩

/-- The result of a call is what it has when it is gone. -/
theorem serves_map {g : β → Answer} {r : Option Bytes → Outcome β} {t : Standing}
    (hr : ∀ v, (g <$> (Work.finish (r v) : Work Empty β)) = Work.finish (c.answer v))
    (h : x.Serves n i c (fun r' t => ∃ v, r' = r v ∧ t.place = .left (c.answer v)) t) :
    (g <$> x).Serves n i c (fun r t => t.place = .left r) t := by
  refine h.bind ?_
  rintro r' t' ⟨v, rfl, ht'⟩
  show (g <$> (Work.finish (r v) : Work Empty β)).Serves n i c _ t'
  rw [hr]
  exact ht'

/-! ## The calls -/

/-- A read goes into its stripe, reads and leaves. -/
theorem serves_get (hstriping : d.striping = some s) (key : Bytes) (sure : Bool) :
    ((get key sure).work d).Serves d.column (s.index key) (get key sure)
      (fun r t => t.place = .left r) ⟨.outside, shown⟩ := by
  refine serves_map (r := .done) (fun _ => rfl) (Work.serves_view.bind ?_)
  rintro _ _ ⟨rfl, rfl⟩
  show (Work.holding .shared (d.readStripes .latest [key]) (d.read .latest key sure)).Serves
    d.column (s.index key) (get key sure) _ _
  rw [d.readStripes_singleton hstriping]
  refine serves_holding fun v => (Dictionary.serves_read sure).mono ?_
  rintro _ _ ⟨rfl, rfl⟩
  exact ⟨rfl, .inl ⟨rfl, rfl⟩⟩

/-- A call that always writes first reads what it is to answer about. -/
theorem serves_writing (hstriping : d.striping = some s) {result : ResultType}
    {write : Work Empty Unit} (hanswer : ∀ v, c.answer v = .done (.value (result.project v)))
    (hwrite : ∀ v, write.Serves d.column (s.index c.key) c
      (fun r t => r = .done () ∧ t = ⟨.written (c.answer v), shown⟩) ⟨.inside .exclusive v, shown⟩) :
    (Answer.value <$> Work.holding .exclusive (d.writeStripes [c.key]) (do
      let previous ← d.previousFor result c.key
      write
      return result.project previous)).Serves d.column (s.index c.key) c
      (fun r t => t.place = .left r) ⟨.outside, shown⟩ := by
  rw [d.writeStripes_singleton hstriping]
  refine serves_map (r := fun v => .done (result.project v)) (fun v => by rw [hanswer]; rfl)
    (serves_holding fun v => (Dictionary.serves_previousFor result).bind ?_)
  rintro _ _ ⟨rfl, rfl⟩
  refine (hwrite v).bind ?_
  rintro _ _ ⟨rfl, rfl⟩
  exact ⟨congrArg _ (result.project_needed v), .inr ⟨rfl, rfl⟩⟩

/-! ## Updates -/

/-- What an update proposes if its key holds a value. -/
def proposal (f : Updater) (v : Option Bytes) : Outcome (Delta Bytes) :=
  match f v with
  | some current => .done ⟨v, current⟩
  | none => .panicked

variable {key : Bytes} {f : Updater} {sure : Bool}

/-- The updater is shown what the key holds. -/
theorem serves_propose (hlt : shown.length < 2) :
    (d.propose key f sure : Work Empty _).Serves d.column i (update key f sure)
      (fun r t => r = proposal f v ∧ t = ⟨.inside hold v, v :: shown⟩) ⟨.inside hold v, shown⟩ := by
  refine (Dictionary.serves_read (c := update key f sure) sure).bind ?_
  rintro _ _ ⟨rfl, rfl⟩
  refine ⟨_, .consult rfl _ hlt v, ?_⟩
  rintro a _ ⟨ha, rfl⟩
  unfold proposal
  rw [← show a = f v from ha]
  cases a with
  | none => exact ⟨rfl, rfl⟩
  | some current => exact ⟨rfl, rfl⟩

/-- The action of an update writes what it has to, if anything. -/
theorem serves_carryOut {current : Option Bytes} (hf : f v = some current) :
    (d.carryOut key (.ofDelta ⟨v, current⟩) : Work Empty _).Serves d.column i (update key f sure)
      (fun r t => r = .done () ∧ t.place.IsSettled (update key f sure) .exclusive v)
      ⟨.inside .exclusive v, v :: shown⟩ := by
  have hwrites := writes?_update key sure hf
  -- If the updater kept the value, nothing is written.
  by_cases hsame : v = current
  · rw [(UpdateAction.ofDelta_eq_noOp_iff _ _).mpr hsame]
    exact ⟨rfl, .inl ⟨rfl, hwrites.trans (if_pos hsame)⟩⟩
  · rw [if_neg hsame] at hwrites
    rw [UpdateAction.ofDelta_of_ne hsame]
    have hwrite : (d.carryOut key (current.elim .delete .write) : Work Empty _).Serves d.column i
        (update key f sure)
        (fun r t => r = .done () ∧ t = ⟨.written ((update key f sure).answer v), v :: shown⟩)
        ⟨.inside .exclusive v, v :: shown⟩ := by
      cases current with
      | none => exact Dictionary.serves_drop hwrites rfl
      | some new => exact Dictionary.serves_store hwrites rfl
    refine hwrite.mono ?_
    rintro _ _ ⟨rfl, rfl⟩
    exact ⟨rfl, .inr ⟨rfl, rfl⟩⟩

/-- So a proposal is carried out under the exclusive hold. -/
theorem serves_apply {current : Option Bytes} (hf : f v = some current) :
    (do
      d.carryOut key (.ofDelta ⟨v, current⟩)
      return ⟨v, current⟩ : Work Empty (Delta Bytes)).Serves d.column i (update key f sure)
      (fun r t => r = proposal f v ∧ t.place.IsSettled (update key f sure) .exclusive v)
      ⟨.inside .exclusive v, v :: shown⟩ := by
  refine (serves_carryOut hf).bind ?_
  rintro _ _ ⟨rfl, ht⟩
  exact ⟨by rw [proposal, hf], ht⟩

/-- The second attempt holds the stripe alone, so it comes to an end. -/
theorem serves_restart (hlt : shown.length < 2) :
    (Dictionary.conclude i (do
      let delta ← d.propose key f sure
      d.carryOut key (.ofDelta delta)
      return delta) : Work Empty _).Serves d.column i (update key f sure)
      (fun r t => r = proposal f v ∧ t.place = .left ((update key f sure).answer v))
      ⟨.inside .exclusive v, shown⟩ := by
  refine serves_leaving ((serves_propose hlt).bind ?_)
  rintro _ _ ⟨rfl, rfl⟩
  unfold proposal
  cases hf : f v with
  | none => exact ⟨rfl, .inl ⟨rfl, writes?_update_of_panicked key sure hf⟩⟩
  | some current =>
    refine (serves_apply hf).mono ?_
    rintro _ _ ⟨rfl, ht⟩
    exact ⟨by rw [proposal, hf], ht⟩

/-- The first attempt shares the stripe, and gives it back if the updater breaks down. -/
theorem serves_attempt (hlt : shown.length < 2) :
    ((d.propose key f sure).onFailure (Work.unlock .shared i) : Work Empty _).Serves d.column i
      (update key f sure) (fun r t => r = proposal f v ∧
        (f v = none → t.place = .left ((update key f sure).answer v)) ∧
        (f v ≠ none → t = ⟨.inside .shared v, v :: shown⟩)) ⟨.inside .shared v, shown⟩ := by
  refine (serves_propose hlt).onFailure ?_
  rintro _ _ ⟨rfl, rfl⟩
  unfold proposal
  cases hf : f v with
  | none =>
    refine (serves_leave (.inl ⟨rfl, writes?_update_of_panicked key sure hf⟩)).bind ?_
    rintro _ _ ⟨rfl, ht⟩
    exact ⟨rfl, fun _ => ht, fun h => absurd rfl h⟩
  | some current => exact ⟨rfl, nofun, fun _ => rfl⟩

/-- An update ends behind its stripe with what it proposed for the value that it saw there last. -/
theorem serves_updateAt :
    (d.updateAt i key f sure : Work Empty _).Serves d.column i (update key f sure)
      (fun r t => ∃ v, r = proposal f v ∧ t.place = .left ((update key f sure).answer v))
      ⟨.outside, []⟩ := by
  refine (Work.serves_lock .shared).bind ?_
  rintro _ _ ⟨rfl, v, rfl⟩
  refine (serves_attempt (by decide)).bind ?_
  rintro _ t ⟨rfl, hbroken, hproposed⟩
  cases hf : f v with
  | none =>
    have hproposal : proposal f v = .panicked := by rw [proposal, hf]
    rw [hproposal]
    exact ⟨v, hproposal.symm, hbroken hf⟩
  | some current =>
    have hproposal : proposal f v = .done ⟨v, current⟩ := by rw [proposal, hf]
    obtain rfl := hproposed (by simp [hf])
    rw [hproposal]
    have hwrites := writes?_update key sure hf
    show Work.Serves d.column i _ _ (ite _ _ _) _
    by_cases hsame : v = current
    · rw [if_pos ((UpdateAction.ofDelta_eq_noOp_iff _ _).mpr hsame)]
      refine (serves_leave (.inl ⟨rfl, hwrites.trans (if_pos hsame)⟩)).bind ?_
      rintro _ t ⟨rfl, ht⟩
      exact ⟨v, hproposal.symm, ht⟩
    · rw [if_neg fun h => hsame ((UpdateAction.ofDelta_eq_noOp_iff _ _).mp h)]
      rw [if_neg hsame] at hwrites
      refine ⟨_, .upgrade, ?_⟩
      rintro upgraded _ rfl
      cases upgraded with
      | true =>
        exact (serves_leaving (serves_apply hf)).mono fun _ _ hr => ⟨v, hr⟩
      | false =>
        -- Others read the stripe; what was proposed is forgotten.
        refine ⟨_, .leave, ?_⟩
        rintro _ _ rfl
        rw [departed_of_writes hwrites]
        refine (Work.serves_lock .exclusive).bind ?_
        rintro _ _ ⟨rfl, v', rfl⟩
        exact (serves_restart (by exact Nat.one_lt_two)).mono fun _ _ hr => ⟨v', hr⟩

/-- **Every call keeps to the rules**, and is gone with its result when its work ends. -/
theorem serves_work (hmode : d.mode = .allow) (hstriping : d.striping = some s) (c : Call) :
    (c.work d).Serves d.column (s.index c.key) c (fun r t => t.place = .left r) ⟨.outside, []⟩ := by
  cases c with
  | get key sure => exact serves_get hstriping key sure
  | put key value result =>
    exact serves_writing hstriping (fun _ => rfl) fun _ => Dictionary.serves_store rfl trivial
  | remove key result =>
    exact serves_writing hstriping (fun _ => rfl) fun _ => Dictionary.serves_drop rfl trivial
  | update key f sure =>
    rw [work_update hmode hstriping]
    refine serves_map (r := proposal f) (fun v => ?_) serves_updateAt
    cases hf : f v with
    | none =>
      rw [answer_update_of_panicked key sure hf, proposal, hf]
      rfl
    | some current =>
      rw [answer_update key sure hf, proposal, hf]
      rfl

end Call

end SnapshotStore
