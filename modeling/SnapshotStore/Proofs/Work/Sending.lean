import SnapshotStore.Proofs.Work.World
import SnapshotStore.Stream

/-!
# Work that sends items

All that a producer learns of its consumer is whether a send is accepted, and once a send is refused
all later ones are.  So a run depends on one number, how many sends are accepted: `Work.Runs` is a
run with such a budget, and lists the items that were accepted.  Work that sends nothing runs the
same under every budget, and ends as `Work.EndsIn` says.

`Work.Emits` is the specification of work that sends, as `Work.Takes` is of work that does not.
-/

namespace SnapshotStore

/-- What a producer sends after its last item. -/
def Outcome.report {ε : Type} : Outcome Unit → List (Except StoreError ε)
  | done _ => []
  | failed e => [.error e]
  | panicked => [.error (.internal "range producer failed:")]

namespace Work

variable {ε α β : Type} {x : Work ε α} {k : Nat} {b b₁ b₂ : Backend} {w w₁ w₂ : World}
  {items items' : List (Except StoreError ε)} {r : Outcome α}

/-- Run alone for a consumer that accepts a number of sends, the work sends some items and ends. -/
inductive Runs :
    Work ε α → Nat → Backend → List (Except StoreError ε) → Outcome α → Backend → Prop
  /-- The work ended. -/
  | finish (r : Outcome α) (k : Nat) (b : Backend) : Runs (finish r) k b [] r b
  /-- An effect does not have to wait. -/
  | perform {q : Effect} {next : q.Answer → Work ε α} {a : q.Answer} {k : Nat} {b b₁ b' : Backend}
      {items : List (Except StoreError ε)} {r : Outcome α} (ha : b.answer? q = some (a, b₁))
      (h : Runs (next a) k b₁ items r b') : Runs (perform q next) k b items r b'
  /-- A send is accepted. -/
  | accept {item : Except StoreError ε} {next : Bool → Work ε α} {k : Nat} {b b' : Backend}
      {items : List (Except StoreError ε)} {r : Outcome α} (h : Runs (next true) k b items r b') :
      Runs (send item next) (k + 1) b (item :: items) r b'
  /-- A send is refused. -/
  | refuse {item : Except StoreError ε} {next : Bool → Work ε α} {b b' : Backend}
      {items : List (Except StoreError ε)} {r : Outcome α} (h : Runs (next false) 0 b items r b') :
      Runs (send item next) 0 b items r b'

/-- Work that sends nothing runs under every budget. -/
theorem EndsIn.runs (h : x.EndsIn b r b₁) (k : Nat) : x.Runs k b [] r b₁ := by
  -- A channel without any room shows that there was no send.
  have hfull := h ⟨0, [], true⟩
  clear h
  induction x generalizing b with
  | finish r' =>
    obtain ⟨rfl, rfl⟩ : r' = r ∧ b = b₁ := by simpa [advance, advanceTo] using hfull
    exact .finish r' k b
  | perform q next ih =>
    simp only [advance, advanceTo, Bool.false_eq_true, if_false] at hfull ih
    cases ha : b.answer? q with
    | none => simp [ha] at hfull
    | some y =>
      simp only [ha] at hfull
      exact .perform ha (ih _ hfull)
  | send item next ih => simp [advance, advanceTo, Channel.send?] at hfull

/-- Work that sends nothing although something would be accepted ends. -/
theorem Runs.endsIn (h : x.Runs (k + 1) b [] r b₁) : x.EndsIn b r b₁ := by
  generalize hk : k + 1 = n at h
  generalize hitems : ([] : List (Except StoreError ε)) = items at h
  induction h with
  | finish r n b => exact endsIn_finish r b
  | perform ha h ih => exact endsIn_perform ha (ih hk hitems)
  | accept h ih => cases hitems
  | refuse h ih => cases hk

/-- No more is accepted than the budget allows. -/
theorem Runs.length_le (h : x.Runs k b items r b₁) : items.length ≤ k := by
  induction h with
  | finish r k b => exact Nat.zero_le k
  | perform _ _ ih => exact ih
  | accept _ ih => exact Nat.succ_le_succ ih
  | refuse _ ih => exact ih

/-- A run is determined by the work, the budget and the backend. -/
theorem Runs.unique {r' : Outcome α} (h : x.Runs k b items r b₁) (h' : x.Runs k b items' r' b₂) :
    items = items' ∧ r = r' ∧ b₁ = b₂ := by
  -- Effects and channels answer in one way only, so both runs take the same step each time.
  induction h generalizing items' r' b₂ with
  | finish r k b =>
    cases h'
    exact ⟨rfl, rfl, rfl⟩
  | perform ha _ ih =>
    cases h' with
    | perform ha' h' =>
      obtain ⟨rfl, rfl⟩ := Prod.mk.inj (Option.some.inj (ha.symm.trans ha'))
      exact ih h'
  | accept _ ih =>
    cases h' with
    | accept h' =>
      obtain ⟨rfl, rfl, rfl⟩ := ih h'
      exact ⟨rfl, rfl, rfl⟩
  | refuse _ ih =>
    cases h' with
    | refuse h' => exact ih h'

/-! ## Putting work together -/

/-- What is put behind some work goes on where the work ended, with what is left of the budget. -/
private theorem runs_behind (g : Work ε α → Work ε β) (after : Outcome α → Work ε β)
    (hfinish : ∀ r, g (finish r) = after r)
    (hperform : ∀ q next, g (perform q next) = perform q fun a => g (next a))
    (hsend : ∀ item next, g (send item next) = send item fun y => g (next y))
    (h : x.Runs k b items r b₁) {r' : Outcome β}
    (hafter : (after r).Runs (k - items.length) b₁ items' r' b₂) :
    (g x).Runs k b (items ++ items') r' b₂ := by
  induction h with
  | finish r k b =>
    rw [hfinish]
    exact hafter
  | perform ha h ih =>
    rw [hperform]
    exact .perform ha (ih hafter)
  | accept h ih =>
    -- An accepted item leaves room for one less, in the first part and so behind it.
    rw [hsend]
    rw [List.length_cons, Nat.add_sub_add_right] at hafter
    exact .accept (ih hafter)
  | refuse h ih =>
    rw [hsend]
    exact .refuse (ih hafter)

/-- Work goes on with the value of its first part, or ends as that does. -/
theorem Runs.bind_finish {f : α → Work ε β} {r' : Outcome β} (h : x.Runs k b items r b₁)
    (hf : (Work.finish r >>= f).Runs (k - items.length) b₁ items' r' b₂) :
    (x >>= f).Runs k b (items ++ items') r' b₂ :=
  runs_behind (fun x => x.bind f) (fun r => (Work.finish r).bind f) (fun _ => rfl) (fun _ _ => rfl)
    (fun _ _ => rfl) h hf

/-- Two parts of work send their items one after the other, the second to what room the first
left. -/
theorem Runs.bind {f : α → Work ε β} {a : α} {r : Outcome β} (h : x.Runs k b items (.done a) b₁)
    (hf : (f a).Runs (k - items.length) b₁ items' r b₂) :
    (x >>= f).Runs k b (items ++ items') r b₂ := h.bind_finish hf

/-- Work that sends nothing at first. -/
theorem EndsIn.bind_runs {f : α → Work ε β} {a : α} {r : Outcome β} (h : x.EndsIn b (.done a) b₁)
    (hf : (f a).Runs k b₁ items r b₂) : (x >>= f).Runs k b items r b₂ := (h.runs k).bind hf

/-- Work that sends nothing in the end. -/
theorem Runs.bind_endsIn {f : α → Work ε β} {a : α} {r : Outcome β}
    (h : x.Runs k b items (.done a) b₁) (hf : (f a).EndsIn b₁ r b₂) :
    (x >>= f).Runs k b items r b₂ := by
  have hbind := h.bind (hf.runs _)
  rwa [List.append_nil] at hbind

/-- A last part that sends nothing leaves the items and the end as they are. -/
theorem Runs.ensuring {last : Work ε Unit} (h : x.Runs k b items r b₁)
    (hlast : last.EndsIn b₁ (.done ()) b₂) : (x.ensuring last).Runs k b items r b₂ := by
  have hruns := runs_behind (fun x => x.ensuring last)
    (fun r => last.bind fun _ => Work.finish r) (fun _ => rfl) (fun _ _ => rfl) (fun _ _ => rfl) h
    ((hlast.bind (endsIn_finish r b₂)).runs (k - items.length))
  rwa [List.append_nil] at hruns

/-- A supervised producer reports its end, as far as somebody listens. -/
theorem Runs.supervised {x : Work ε Unit} {r : Outcome Unit} (h : x.Runs k b items r b₁) :
    x.supervised.Runs k b (items ++ r.report.take (k - items.length)) (.done ()) b₁ := by
  refine runs_behind Work.supervised (fun r => (Work.finish r).supervised) (fun _ => rfl)
    (fun _ _ => rfl) (fun _ _ => rfl) h ?_
  -- Only an end that is a failure or a panic is told, and it needs room like an item.
  cases r with
  | done u =>
    rw [Outcome.report, List.take_nil]
    exact .finish _ _ _
  | failed e =>
    cases k - items.length with
    | zero => exact .refuse (.finish _ _ _)
    | succ n =>
      rw [Outcome.report, List.take_succ_cons, List.take_nil]
      exact .accept (.finish _ _ _)
  | panicked =>
    cases k - items.length with
    | zero => exact .refuse (.finish _ _ _)
    | succ n =>
      rw [Outcome.report, List.take_succ_cons, List.take_nil]
      exact .accept (.finish _ _ _)

/-- Items that are changed on their way are the items of the work, changed. -/
theorem Runs.mapItems {ζ : Type} (f : ε → ζ) (h : x.Runs k b items r b₁) :
    (x.mapItems f).Runs k b (items.map (·.map f)) r b₁ := by
  induction h with
  | finish r k b => exact .finish r k b
  | perform ha h ih => exact .perform ha ih
  | accept h ih => exact .accept ih
  | refuse h ih => exact .refuse ih

/-- A failure that is reported is not changed on its way. -/
theorem supervised_mapItems {ζ : Type} (f : ε → ζ) (x : Work ε Unit) :
    (x.mapItems f).supervised = x.supervised.mapItems f := by
  induction x with
  | finish r => cases r <;> rfl
  | perform q next ih => exact congrArg (perform q) (funext ih)
  | send item next ih => exact congrArg (send _) (funext ih)

/-! ## Worlds -/

/-- Run alone in one world for a consumer that accepts a number of sends, the work sends some items
and ends in a given way and in a given world. -/
def Emits (x : Work ε α) (k : Nat) (w : World) (items : List (Except StoreError ε)) (r : Outcome α)
    (w' : World) : Prop :=
  ∀ b : Backend, b.IsIn w → ∃ b', x.Runs k b items r b' ∧ b'.IsIn w'

/-- Work that sends nothing does not mind how many items are accepted. -/
theorem Takes.emits (h : x.Takes w r w₁) (k : Nat) : x.Emits k w [] r w₁ := fun b hb =>
  let ⟨b₁, hx, hb₁⟩ := h b hb
  ⟨b₁, hx.runs k, hb₁⟩

/-- Work that sends nothing while there is room takes the same course without a receiver. -/
theorem Emits.takes (h : x.Emits (k + 1) w [] r w₁) : x.Takes w r w₁ := fun b hb =>
  let ⟨b₁, hx, hb₁⟩ := h b hb
  ⟨b₁, hx.endsIn, hb₁⟩

/-- While there is room, an item is accepted. -/
theorem emits_emit (item : ε) (k : Nat) (w : World) :
    (emit item).Emits (k + 1) w [.ok item] (.done true) w :=
  fun b hb => ⟨b, .accept (.finish _ _ _), hb⟩

/-- Without room, the receiver is gone, and work hears of it. -/
theorem emits_emit_refused (item : ε) (w : World) : (emit item).Emits 0 w [] (.done false) w :=
  fun b hb => ⟨b, .refuse (.finish _ _ _), hb⟩

/-- Two parts of work send their items one after the other. -/
theorem Emits.bind {f : α → Work ε β} {a : α} {r : Outcome β}
    (h : x.Emits k w items (.done a) w₁)
    (hf : (f a).Emits (k - items.length) w₁ items' r w₂) :
    (x >>= f).Emits k w (items ++ items') r w₂ := by
  intro b hb
  obtain ⟨b₁, hx, hb₁⟩ := h b hb
  obtain ⟨b₂, hfa, hb₂⟩ := hf b₁ hb₁
  exact ⟨b₂, hx.bind hfa, hb₂⟩

/-- A first part without items leaves the room to the second. -/
theorem Takes.bind_emits {f : α → Work ε β} {a : α} {r : Outcome β} (h : x.Takes w (.done a) w₁)
    (hf : (f a).Emits k w₁ items r w₂) : (x >>= f).Emits k w items r w₂ :=
  (h.emits k).bind hf

/-- A second part without items adds none. -/
theorem Emits.bind_takes {f : α → Work ε β} {a : α} {r : Outcome β}
    (h : x.Emits k w items (.done a) w₁) (hf : (f a).Takes w₁ r w₂) :
    (x >>= f).Emits k w items r w₂ := by
  have hbind := h.bind (hf.emits _)
  rwa [List.append_nil] at hbind

/-- A last part that sends nothing follows in every case. -/
theorem Emits.ensuring {last : Work ε Unit} (h : x.Emits k w items r w₁)
    (hlast : last.Takes w₁ (.done ()) w₂) : (x.ensuring last).Emits k w items r w₂ := by
  intro b hb
  obtain ⟨b₁, hx, hb₁⟩ := h b hb
  obtain ⟨b₂, hl, hb₂⟩ := hlast b₁ hb₁
  exact ⟨b₂, hx.ensuring hl, hb₂⟩

/-- Under supervision, a failure or a panic is one last item, if there is room for it. -/
theorem Emits.supervised {x : Work ε Unit} {r : Outcome Unit} (h : x.Emits k w items r w₁) :
    x.supervised.Emits k w (items ++ r.report.take (k - items.length)) (.done ()) w₁ := by
  intro b hb
  obtain ⟨b₁, hx, hb₁⟩ := h b hb
  exact ⟨b₁, hx.supervised, hb₁⟩

end Work

end SnapshotStore
