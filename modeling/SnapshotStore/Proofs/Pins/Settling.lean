import SnapshotStore.Dictionary.Update
import SnapshotStore.Proofs.Engine.FilterSound
import SnapshotStore.Stream

/-!
# Work that accounts for its pins

Work pins sequences when it calls the engine, and it has to take every one of these pins away again,
however it ends.  `Work.Settles` says so without running anything: whatever its effects answer, the
work only takes away pins that it holds, never waits for a stripe while it holds any, and ends
holding what it is to hold at the end.

The same walk through the work tracks which old states it may read.  These are the ones that it was
told of when it looked a snapshot up; as soon as it may have to wait, somebody else may release
them.  So work that settles its pins reads no state that nothing pins, and does not fail that way.

Some failures of the engine may be taken for impossible (`bad`): an answer of an effect is assumed
not to be one of these, and the work may not pass one on.

* `Work.Settles` — the statement, with a rule for every way to put work together.
* `Backend.Accounts` — what is pinned, is pinned by somebody who is known.
* `Work.Settles.advance` — running such work keeps the accounts.
-/

namespace SnapshotStore

variable {bad : EngineError → Prop} {held held' seen : List Nat}

/-! ## What is read and passed on -/

/-- The state that a call reads. -/
def EngineCall.view : EngineCall → ReadView
  | .get _ view _ => view
  | .scan _ view _ => view
  | _ => .latest

/-- The view is the newest state or one of some sequences. -/
def ReadView.IsAmong (seen : List Nat) : ReadView → Prop
  | .latest => True
  | .at s => s ∈ seen

/-- The newest state may always be read. -/
theorem ReadView.IsAmong.latest (seen : List Nat) : ReadView.latest.IsAmong seen := trivial

/-- No failure of the engine behind it is a bad one. -/
def StoreError.Spares (bad : EngineError → Prop) (e : StoreError) : Prop :=
  ∀ source, e.source? = some source → ¬ bad source

/-- A failure of the engine may be passed on if it is none of the impossible ones. -/
theorem StoreError.spares_ofEngine {failure : EngineError} (h : ¬ bad failure)
    (operation context : String) : (StoreError.ofEngine operation context failure).Spares bad := by
  cases failure <;> simp [StoreError.ofEngine, Spares, source?, h]

/-- What is not a bad failure: an answer, or an item of a stream. -/
def Except.Spares {ε : Type} (bad : EngineError → Prop) (item : Except StoreError ε) : Prop :=
  ∀ e, item = .error e → e.Spares bad

/-- A failure that does not come from the engine is not a bad one. -/
theorem Except.spares_error {ε : Type} {e : StoreError} (h : e.source? = none) :
    Except.Spares (ε := ε) bad (.error e) := by
  intro e' he'
  obtain rfl := Except.error.inj he'
  simp [StoreError.Spares, h]

namespace Effect

/-- Whether work may perform the effect when it holds some pins and may read some sequences. -/
def Fits (held seen : List Nat) : Effect → Prop
  | ask c => c.view.IsAmong seen
  | unpin s => s ∈ held
  | register _ | forget _ => False
  | enter .. => held = []
  | _ => True

/-- The pins that are held after the effect. -/
def heldAfter : (q : Effect) → q.Answer → List Nat → List Nat
  | ask c, a, held => Engine.pinnedBy c a ++ held
  | unpin s, _, held => held.erase s
  | _, _, held => held

/-- The sequences that may be read after the effect. -/
def seenAfter : (q : Effect) → q.Answer → List Nat → List Nat
  | resolve _, .ok (.at s), seen => s :: seen
  | enter .., _, _ => []
  | _, _, seen => seen

/-- The answer is not a bad failure. -/
def Spares (bad : EngineError → Prop) : (q : Effect) → q.Answer → Prop
  | ask _, .error failure => ¬ bad failure
  | resolve _, .error e => e.Spares bad
  | _, _ => True

end Effect

namespace Work

variable {ε ζ α β : Type} {w : Work ε α} {P Q : α → List Nat → Prop}

/-- Work that starts with the pins `held` and may read the sequences `seen` ends with the pins
`held'`, and if it ends with a value, it and the sequences that may then be read have a property. -/
def Settles (bad : EngineError → Prop) (held' : List Nat) (Q : α → List Nat → Prop) :
    Work ε α → List Nat → List Nat → Prop
  | finish (.done a), held, seen => held = held' ∧ Q a seen
  | finish (.failed e), held, _ => held = held' ∧ e.Spares bad
  | finish .panicked, held, _ => held = held'
  | perform q next, held, seen =>
    q.Fits held seen ∧ ∀ a, q.Spares bad a →
      (next a).Settles bad held' Q (q.heldAfter a held) (q.seenAfter a seen)
  | send item next, held, _ => Except.Spares bad item ∧ ∀ b, (next b).Settles bad held' Q held []

/-! ## Putting work together -/

/-- A value settles what it holds by going on to hold it. -/
theorem settles_pure {a : α} (h : Q a seen) :
    (pure a : Work ε α).Settles bad held Q held seen := ⟨rfl, h⟩

/-- A failure that may be passed on settles the same. -/
theorem settles_fail {e : StoreError} (h : e.Spares bad) :
    (fail e : Work ε α).Settles bad held Q held seen := ⟨rfl, h⟩

/-- So does a panic, which tells no failure. -/
theorem settles_panic : (panic : Work ε α).Settles bad held Q held seen := rfl

/-- Less may be known of the value. -/
theorem Settles.mono (h : w.Settles bad held' P held seen) (hPQ : ∀ a seen, P a seen → Q a seen) :
    w.Settles bad held' Q held seen := by
  induction w generalizing held seen with
  | finish r =>
    cases r with
    | done a => exact ⟨h.1, hPQ _ _ h.2⟩
    | failed e => exact h
    | panicked => exact h
  | perform q next ih => exact ⟨h.1, fun a ha => ih a (h.2 a ha)⟩
  | send item next ih => exact ⟨h.1, fun b => ih b (h.2 b)⟩

/-- Work goes on with the value of its first part. -/
theorem Settles.bind {f : α → Work ε β} {Q : β → List Nat → Prop}
    (h : w.Settles bad held' P held seen)
    (hf : ∀ a seen, P a seen → (f a).Settles bad held' Q held' seen) :
    (w >>= f).Settles bad held' Q held seen := by
  induction w generalizing held seen with
  | finish r =>
    cases r with
    | done a =>
      obtain ⟨rfl, ha⟩ := h
      exact hf a _ ha
    | failed e => exact h
    | panicked => exact h
  | perform q next ih => exact ⟨h.1, fun a ha => ih a (h.2 a ha)⟩
  | send item next ih => exact ⟨h.1, fun b => ih b (h.2 b)⟩

/-- One effect settles what it says of the pins before and after it. -/
theorem settles_effect {q : Effect} {Q : q.Answer → List Nat → Prop} (hfits : q.Fits held seen)
    (hheld : ∀ a, q.heldAfter a held = held')
    (hQ : ∀ a, q.Spares bad a → Q a (q.seenAfter a seen)) :
    (effect q : Work ε q.Answer).Settles bad held' Q held seen :=
  ⟨hfits, fun a ha => ⟨hheld a, hQ a ha⟩⟩

/-- A last part runs however the work ends. -/
theorem Settles.ensuring {mid : List Nat} {last : Work ε Unit} (h : w.Settles bad mid Q held seen)
    (hlast : ∀ seen, last.Settles bad held' (fun _ s => s = seen) mid seen) :
    (w.ensuring last).Settles bad held' Q held seen := by
  induction w generalizing held seen with
  | finish r =>
    obtain rfl : held = mid := by
      cases r with
      | done a => exact h.1
      | failed e => exact h.1
      | panicked => exact h
    refine Settles.bind (hlast seen) fun _ _ hseen => ?_
    cases r with
    | done a => exact ⟨rfl, hseen ▸ h.2⟩
    | failed e => exact ⟨rfl, h.2⟩
    | panicked => exact rfl
  | perform q next ih => exact ⟨h.1, fun a ha => ih a (h.2 a ha)⟩
  | send item next ih => exact ⟨h.1, fun b => ih b (h.2 b)⟩

/-- A last part that runs unless the work ends with a value. -/
theorem Settles.onFailure {last : Work ε Unit} (h : w.Settles bad held' Q held seen)
    (hlast : ∀ seen, last.Settles bad held' (fun _ s => s = seen) held' seen) :
    (w.onFailure last).Settles bad held' Q held seen := by
  induction w generalizing held seen with
  | finish r =>
    cases r with
    | done a => exact h
    | failed e =>
      obtain ⟨rfl, he⟩ := h
      exact Settles.bind (hlast seen) fun _ _ _ => ⟨rfl, he⟩
    | panicked =>
      obtain rfl : held = held' := h
      exact Settles.bind (hlast seen) fun _ _ _ => rfl
  | perform q next ih => exact ⟨h.1, fun a ha => ih a (h.2 a ha)⟩
  | send item next ih => exact ⟨h.1, fun b => ih b (h.2 b)⟩

/-- Items that are changed on their way are the same failures. -/
theorem Settles.mapItems (f : ε → ζ) (h : w.Settles bad held' Q held seen) :
    (w.mapItems f).Settles bad held' Q held seen := by
  induction w generalizing held seen with
  | finish r => cases r <;> exact h
  | perform q next ih => exact ⟨h.1, fun a ha => ih a (h.2 a ha)⟩
  | send item next ih =>
    refine ⟨fun e he => h.1 e ?_, fun b => ih b (h.2 b)⟩
    cases item with
    | ok x => cases he
    | error e' => exact congrArg Except.error (Except.error.inj he)

/-- The work of a producer, which sends a failure as its last item. -/
theorem Settles.supervised {w : Work ε Unit} {Q : Unit → List Nat → Prop}
    (h : w.Settles bad held' Q held seen) :
    w.supervised.Settles bad held' (fun _ _ => True) held seen := by
  induction w generalizing held seen with
  | finish r =>
    cases r with
    | done a => exact ⟨h.1, trivial⟩
    | failed e =>
      refine ⟨fun e' he' => ?_, fun _ => ⟨h.1, trivial⟩⟩
      obtain rfl := Except.error.inj he'
      exact h.2
    | panicked =>
      exact ⟨Except.spares_error rfl, fun _ => ⟨h, trivial⟩⟩
  | perform q next ih => exact ⟨h.1, fun a ha => ih a (h.2 a ha)⟩
  | send item next ih => exact ⟨h.1, fun b => ih b (h.2 b)⟩

/-! ## Parts of work -/

/-- To send an item may be to wait, so what was seen is forgotten. -/
theorem settles_emit {item : ε} :
    (emit item : Work ε Bool).Settles bad held (fun _ _ => True) held seen :=
  ⟨nofun, fun _ => ⟨rfl, trivial⟩⟩

/-- A call that pins nothing. -/
theorem settles_attempt {c : EngineCall} (hview : c.view.IsAmong seen)
    (hpins : ∀ r, Engine.pinnedBy c r = []) :
    (attempt c : Work ε (Except EngineError c.Answer)).Settles bad held
      (fun r s => s = seen ∧ ∀ failure, r = .error failure → ¬ bad failure) held seen := by
  refine settles_effect hview (fun r => by rw [Effect.heldAfter, hpins, List.nil_append])
    fun r hr => ⟨rfl, fun failure hfailure => ?_⟩
  subst hfailure
  exact hr

/-- Work that goes on after an answer passes on its failure, which may be passed on. -/
theorem settles_orFail {r : Except EngineError α} (hr : ∀ failure, r = .error failure → ¬ bad failure)
    (operation context : String) :
    (orFail operation context r : Work ε α).Settles bad held (fun _ s => s = seen) held seen := by
  cases r with
  | ok a => exact settles_pure rfl
  | error failure => exact settles_fail (StoreError.spares_ofEngine (hr failure rfl) operation context)

/-- A call that pins nothing settles what is held. -/
theorem settles_call {c : EngineCall} (hview : c.view.IsAmong seen)
    (hpins : ∀ r, Engine.pinnedBy c r = []) (operation context : String) :
    (call operation context c : Work ε c.Answer).Settles bad held (fun _ s => s = seen) held seen := by
  refine (settles_attempt hview hpins).bind fun r s hr => ?_
  obtain ⟨rfl, hr⟩ := hr
  exact settles_orFail hr operation context

/-- Behind a scan the cursor is held. -/
theorem settles_scan {view : ReadView} (hview : view.IsAmong seen) {n : Nat} {range : KeyRange}
    {operation context : String} {f : Cursor → Work ε α}
    (hf : ∀ cursor, (f cursor).Settles bad held Q (cursor.sequence :: held) seen) :
    (call operation context (.scan n view range) >>= f).Settles bad held Q held seen := by
  refine ⟨hview, fun r hr => ?_⟩
  cases r with
  | ok cursor => exact hf cursor
  | error failure => exact ⟨rfl, StoreError.spares_ofEngine hr operation context⟩

/-- A pin that is held is taken away. -/
theorem settles_unpin {s : Nat} :
    (effect (.unpin s) : Work ε Unit).Settles bad held (fun _ t => t = seen) (s :: held) seen :=
  settles_effect List.mem_cons_self (fun _ => List.erase_cons_head ..) fun _ _ => rfl

/-- The view of a snapshot may be read. -/
theorem settles_view {token : Option Token} {f : ReadView → Work ε α}
    (hf : ∀ view seen, view.IsAmong seen → (f view).Settles bad held Q held seen) :
    (Work.view token >>= f).Settles bad held Q held seen := by
  refine ⟨trivial, fun r hr => ?_⟩
  cases r with
  | ok view =>
    refine hf view _ ?_
    cases view with
    | latest => trivial
    | «at» s => exact List.mem_cons_self
  | error e => exact ⟨rfl, hr⟩

/-- A stripe is given back without waiting. -/
theorem settles_unlock (hold : Hold) (i : Nat) :
    (unlock hold i : Work ε Unit).Settles bad held (fun _ s => s = seen) held seen :=
  settles_effect trivial (fun _ => rfl) fun _ _ => rfl

/-- A stripe is waited for without a pin. -/
theorem settles_lock (hold : Hold) (i : Nat) :
    (lock hold i : Work ε Unit).Settles bad [] (fun _ _ => True) [] seen := by
  unfold lock
  have henter : ∀ seen, (effect (.enter hold i) : Work ε Unit).Settles bad [] (fun _ _ => True) []
      seen := fun _ => settles_effect (q := .enter hold i) rfl (fun _ => rfl) fun _ _ => trivial
  split
  · exact (settles_effect (q := .announce i) (Q := fun _ _ => True) trivial (fun _ => rfl)
      fun _ _ => trivial).bind fun _ seen _ => henter seen
  · exact henter seen

/-- Work under stripes, which may have to wait for them. -/
theorem settles_holding {hold : Hold} {is : List Nat}
    (h : ∀ seen, w.Settles bad [] Q [] seen) : (holding hold is w).Settles bad [] Q [] seen := by
  induction is generalizing seen with
  | nil => exact h seen
  | cons i is ih =>
    exact (settles_lock hold i).bind fun _ _ _ => ih.ensuring fun _ => settles_unlock hold i

end Work

end SnapshotStore
