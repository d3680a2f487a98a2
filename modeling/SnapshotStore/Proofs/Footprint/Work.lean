import SnapshotStore.Dictionary.Update
import SnapshotStore.Proofs.Engine.CursorExact
import SnapshotStore.Proofs.Work.Locks
import SnapshotStore.Stream

/-!
# What work may write, and the stripes it gives back

Work is confined (`Work.Confined`) if it asks an engine to write nothing but what it may and gives
back the stripes that it takes, whatever its effects answer, failures included.  It may rely on
nothing but that a cursor hands out keys of the range that it was opened with, and that nobody else
is at the stripes.  The history of an engine then grows by batches of permitted operations alone,
however the work ends and whichever calls failed (`Work.ConfinedFrom.advance`).
-/

namespace SnapshotStore

/-! ## Calls and their answers -/

/-- The operations that a call asks to have written, each with its column. -/
def EngineCall.writes : EngineCall → List (Nat × WriteOp)
  | put n key value => [(n, .put key value)]
  | delete n key => [(n, .delete key)]
  | write n batch => batch.map (n, ·)
  | _ => []

/-- A cursor hands out entries of a range. -/
structure Cursor.StaysIn (cursor : Cursor) (range : KeyRange) : Prop where
  /-- What it holds lies in the range. -/
  buffer : ∀ e ∈ cursor.buffer, range.contains e.1 = true
  /-- What it still has to visit lies in the range. -/
  ahead : ∀ key, cursor.resume.admitsAbove key = true → cursor.upper.admitsBelow key = true →
    range.contains key = true

/-- A cursor stays in its range. -/
def EngineCall.MayAnswer : (c : EngineCall) → Except EngineError c.Answer → Prop
  | scan _ _ range, .ok cursor => cursor.StaysIn range
  | next cursor, .ok answer => ∀ range, cursor.StaysIn range →
    (∀ e, answer.1 = some e → range.contains e.1 = true) ∧ answer.2.StaysIn range
  | _, _ => True

namespace Cursor.StaysIn

variable {e : Engine} {cursor cursor' : Cursor} {range : KeyRange}

/-- A new cursor stays in the range that it is opened with. -/
theorem cursorAt (n : Nat) (c : Column) (range : KeyRange) (s : Nat) :
    (Engine.cursorAt n c range s).StaysIn range :=
  ⟨by simp [Engine.cursorAt],
    fun key hlower hupper => (range.admits_bounds key).mp ⟨hlower, hupper⟩⟩

/-- A chunk consists of what was to be visited, and what is left to be visited lies behind it. -/
theorem refill (h : cursor.StaysIn range) (hr : e.refill cursor = .ok cursor') :
    cursor'.StaysIn range := by
  -- What is held already lies in the range, and the chunk is taken from what was to be visited.
  have hchunk : ∀ x ∈ cursor.buffer ++
      KeyMap.visibleEntries ((e.unread cursor).take e.chunkSize) (.at cursor.sequence),
      range.contains x.1 = true := by
    intro x hx
    rcases List.mem_append.mp hx with hx | hx
    · exact h.buffer x hx
    · obtain ⟨chain, hmem, -⟩ :=
        (@KeyMap.mem_filterMap _ _ _ (Chain.valueAt · (.at cursor.sequence)) x.1 x.2).mp hx
      obtain ⟨-, hlower, hupper⟩ := KeyMap.mem_within.mp (List.mem_of_mem_take hmem)
      exact h.ahead x.1 hlower hupper
  obtain ⟨chunk, rfl, visited, rfl, ⟨last, hlast, rfl⟩ | ⟨-, rfl⟩⟩ := Engine.refill_eq_ok hr
  · -- Behind the last key of the chunk there are only keys that were ahead before.
    have hmem : last ∈ e.unread cursor := List.mem_of_mem_take (List.mem_of_getLast? hlast)
    refine ⟨hchunk, fun key hlower hupper => h.ahead key ?_ hupper⟩
    rw [Bound.admitsAbove_excluded, decide_eq_true_eq] at hlower
    exact Bound.admitsAbove_of_lt (Engine.admitsAbove_of_mem_unread hmem) hlower
  · exact ⟨hchunk, h.ahead⟩

/-- A cursor answers an entry of its range and stays in it. -/
theorem next (h : cursor.StaysIn range) {answer : Option Entry × Cursor}
    (hn : e.next cursor = .ok answer) :
    (∀ x, answer.1 = some x → range.contains x.1 = true) ∧ answer.2.StaysIn range := by
  fun_induction Engine.next e cursor with
  | case1 cursor entry rest hbuffer =>
    cases hn
    refine ⟨fun x hx => ?_, fun x hx => ?_, h.ahead⟩
    · obtain rfl := Option.some.inj hx
      exact h.buffer _ (by simp [hbuffer])
    · exact h.buffer x (hbuffer ▸ List.mem_cons_of_mem _ hx)
  | case2 cursor hbuffer hx =>
    cases hn
    exact ⟨fun x hx => (by cases hx), h⟩
  | case3 cursor hbuffer hx cursor' hr ih => exact ih (h.refill hr) hn
  | case4 cursor hbuffer hx failure hr => cases hn

end Cursor.StaysIn

/-- An engine answers plausibly. -/
theorem Engine.Agrees.mayAnswer {e : Engine} {l : Ledger} (h : e.Agrees l) (c : EngineCall) :
    c.MayAnswer (e.answer c).1 := by
  cases c with
  | scan n view range =>
    cases hscan : e.scan n view range with
    | error failure =>
      rw [answer, hscan]
      trivial
    | ok opened =>
      obtain ⟨c, -, rfl, -⟩ := h.scan_eq_ok hscan
      rw [answer, hscan]
      exact .cursorAt n c range _
  | next cursor =>
    cases hnext : e.next cursor with
    | error failure =>
      rw [answer, hnext]
      trivial
    | ok answer =>
      rw [Engine.answer, hnext]
      exact fun range hcursor => hcursor.next hnext
  | _ => trivial

/-! ## Ledgers that go on -/

/-- What may be written, and to which column. -/
abbrev Permit := Nat → WriteOp → Prop

/-- A ledger that goes on with permitted operations. -/
structure Ledger.GoesOn (may : Permit) (l l' : Ledger) : Prop where
  /-- The batches that were added are permitted. -/
  history : ∃ more, l'.history = l.history ++ more ∧ ∀ b ∈ more, ∀ op ∈ b.2, may b.1 op
  /-- Columns were added at the end. -/
  names : l.names <+: l'.names
  /-- The engine was neither closed nor opened. -/
  isOpen_eq : l'.isOpen = l.isOpen

/-- An engine goes on with permitted operations. -/
def Engine.GoesOn (may : Permit) (e e' : Engine) : Prop :=
  ∀ l, e.Agrees l → ∃ l', l.GoesOn may l' ∧ e'.Agrees l'

variable {may : Permit}

namespace Ledger

variable {l l' l'' : Ledger}

/-- A ledger goes on if nothing happens. -/
theorem goesOn_refl (may : Permit) (l : Ledger) : l.GoesOn may l :=
  ⟨⟨[], by simp⟩, List.prefix_rfl, rfl⟩

/-- What goes on twice goes on. -/
theorem GoesOn.trans (h : l.GoesOn may l') (h' : l'.GoesOn may l'') : l.GoesOn may l'' := by
  obtain ⟨more, hmore, hmay⟩ := h.history
  obtain ⟨more', hmore', hmay'⟩ := h'.history
  refine ⟨⟨more ++ more', by rw [hmore', hmore, List.append_assoc], fun b hb => ?_⟩,
    h.names.trans h'.names, h'.isOpen_eq.trans h.isOpen_eq⟩
  rcases List.mem_append.mp hb with hb | hb
  · exact hmay b hb
  · exact hmay' b hb

/-- More may be permitted. -/
theorem GoesOn.mono {may' : Permit} (h : l.GoesOn may l')
    (hmay : ∀ n op, may n op → may' n op) : l.GoesOn may' l' := by
  obtain ⟨more, hmore, hpermitted⟩ := h.history
  exact ⟨⟨more, hmore, fun b hb op hop => hmay b.1 op (hpermitted b hb op hop)⟩, h.names,
    h.isOpen_eq⟩

/-- A column keeps its name. -/
theorem GoesOn.names_getElem? (h : l.GoesOn may l') {n : Nat} (hn : n < l.names.length) :
    l'.names[n]? = l.names[n]? := by
  obtain ⟨rest, hrest⟩ := h.names
  rw [← hrest, List.getElem?_append_left hn]

/-- A ledger goes on with a batch of permitted operations, or without it if it is not open. -/
theorem goesOn_commit (l : Ledger) {n : Nat} {batch : WriteBatch} (h : ∀ op ∈ batch, may n op) :
    l.GoesOn may (l.commit n batch) := by
  unfold commit
  split
  · refine ⟨⟨[(n, batch)], rfl, fun b hb => ?_⟩, List.prefix_rfl, rfl⟩
    rw [List.mem_singleton.mp hb]
    exact h
  · exact l.goesOn_refl may

/-- A call adds what it asks to have written. -/
theorem goesOn_call (l : Ledger) {c : EngineCall} (h : ∀ x ∈ c.writes, may x.1 x.2) :
    l.GoesOn may (l.call c) := by
  cases c with
  | createColumn name =>
    rw [call]
    split
    · exact ⟨⟨[], by simp⟩, List.prefix_append _ _, rfl⟩
    · exact l.goesOn_refl may
  | put n key value =>
    exact l.goesOn_commit fun op hop => List.mem_singleton.mp hop ▸ h (n, .put key value) (by
      simp [EngineCall.writes])
  | delete n key =>
    exact l.goesOn_commit fun op hop => List.mem_singleton.mp hop ▸ h (n, .delete key) (by
      simp [EngineCall.writes])
  | write n batch =>
    exact l.goesOn_commit fun op hop => h (n, op) (List.mem_map.mpr ⟨op, hop, rfl⟩)
  -- The other calls leave the ledger as it is.
  | _ => exact l.goesOn_refl may

end Ledger

namespace Engine

variable {e e' e'' : Engine}

/-- An engine goes on if nothing happens. -/
theorem goesOn_refl (may : Permit) (e : Engine) : e.GoesOn may e :=
  fun l h => ⟨l, l.goesOn_refl may, h⟩

/-- What goes on twice goes on, from every ledger that agrees at the beginning. -/
theorem GoesOn.trans (h : e.GoesOn may e') (h' : e'.GoesOn may e'') : e.GoesOn may e'' := by
  intro l ha
  obtain ⟨l', hl', ha'⟩ := h l ha
  obtain ⟨l'', hl'', ha''⟩ := h' l' ha'
  exact ⟨l'', hl'.trans hl'', ha''⟩

/-- A pin that is given back is not seen in the ledger. -/
theorem goesOn_unpin (may : Permit) (e : Engine) (s : Nat) : e.GoesOn may (e.unpin s) :=
  fun l h => ⟨l, l.goesOn_refl may, h.unpin s⟩

end Engine

/-- Whether a call fails or not, the engine goes on with what the call asks to have written. -/
theorem FaultyEngine.goesOn_answer (f : FaultyEngine) {c : EngineCall}
    (h : ∀ x ∈ c.writes, may x.1 x.2) : f.engine.GoesOn may (f.answer c).2.engine := by
  unfold answer
  cases Fault.strike c.method f.faults with
  | mk struck faults =>
    cases struck with
    | some failure => exact f.engine.goesOn_refl may
    | none => exact fun l ha => ⟨l.call c, l.goesOn_call h, ha.call c⟩

/-- A cursor stays in its range whether or not a call is struck. -/
theorem FaultyEngine.mayAnswer (f : FaultyEngine) {l : Ledger} (h : f.engine.Agrees l)
    (c : EngineCall) : c.MayAnswer (f.answer c).1 := by
  unfold answer
  cases Fault.strike c.method f.faults with
  | mk struck faults =>
    cases struck with
    | some failure => cases c <;> trivial
    | none => exact h.mayAnswer c

/-! ## Effects -/

namespace Effect

/-- The effect asks to have nothing written but what may be. -/
def Keeps (may : Permit) : Effect → Prop
  | ask c => ∀ x ∈ c.writes, may x.1 x.2
  | _ => True

/-- The stripe lets the work in at once. -/
def IsReady (l : Stripes) : Effect → Prop
  | enter hold i => ((l.lock i).enter? hold).isSome
  | _ => True

/-- The answer is one that there can be, and leaves these stripes behind. -/
def Leads (l : Stripes) : (q : Effect) → q.Answer → Stripes → Prop
  | ask c, a, l' => c.MayAnswer a ∧ l' = l
  | announce i, _, l' => l' = List.set l i (l.lock i).announce
  | enter hold i, _, l' => ∃ x, (l.lock i).enter? hold = some x ∧ l' = List.set l i x
  | upgrade i, a, l' => a = (l.lock i).upgrade?.isSome ∧
      l' = List.set l i ((l.lock i).upgrade?.getD (l.lock i))
  | leave hold i, _, l' => l' = List.set l i ((l.lock i).release hold)
  | _, _, l' => l' = l

end Effect

/-- A step of work lets the engine go on with what it may write, and is answered plausibly. -/
theorem Backend.goesOn_answer {b b' : Backend} {q : Effect} (hq : q.Keeps may) {a : q.Answer}
    (ha : b.answer? q = some (a, b')) :
    b.engine.engine.GoesOn may b'.engine.engine ∧
      ∀ l, b.engine.engine.Agrees l → q.Leads b.stripes a b'.stripes := by
  have hrefl := b.engine.engine.goesOn_refl may
  cases q with
  | ask c =>
    obtain ⟨rfl, rfl⟩ := Prod.mk.inj (Option.some.inj ha)
    exact ⟨b.engine.goesOn_answer hq, fun l hl => ⟨b.engine.mayAnswer hl c, rfl⟩⟩
  | unpin s =>
    obtain ⟨rfl, rfl⟩ := Prod.mk.inj (Option.some.inj ha)
    exact ⟨b.engine.engine.goesOn_unpin may s, fun _ _ => rfl⟩
  | enter hold i =>
    obtain ⟨x, hx, heq⟩ := Option.map_eq_some_iff.mp ha
    obtain ⟨rfl, rfl⟩ := Prod.mk.inj heq
    exact ⟨hrefl, fun _ _ => ⟨x, hx, rfl⟩⟩
  | upgrade i =>
    cases hup : (b.stripes.lock i).upgrade? with
    | some x =>
      simp only [answer?, hup] at ha
      obtain ⟨rfl, rfl⟩ := Prod.mk.inj (Option.some.inj ha)
      exact ⟨hrefl, fun _ _ => by simp [Effect.Leads, hup, setLock]⟩
    | none =>
      simp only [answer?, hup] at ha
      obtain ⟨rfl, rfl⟩ := Prod.mk.inj (Option.some.inj ha)
      exact ⟨hrefl, fun _ _ => by simp [Effect.Leads, hup, Stripes.set_lock]⟩
  | _ =>
    obtain ⟨rfl, rfl⟩ := Prod.mk.inj (Option.some.inj ha)
    exact ⟨hrefl, fun _ _ => rfl⟩

/-- An effect for which the stripes are ready is answered. -/
theorem Backend.answer?_of_isReady {b : Backend} {q : Effect} (hq : q.IsReady b.stripes) :
    ∃ a b', b.answer? q = some (a, b') := by
  cases q with
  | enter hold i =>
    obtain ⟨x, hx⟩ := Option.isSome_iff_exists.mp hq
    exact ⟨(), b.setLock i x, by simp [answer?, hx]⟩
  | upgrade i => cases hup : (b.stripes.lock i).upgrade? <;> simp [answer?, hup]
  | _ => exact ⟨_, _, rfl⟩

/-! ## Work -/

namespace Work

variable {ε ζ α β : Type} {w : Work ε α} {P Q : α → Prop} {l l' now : Stripes}

/-- From some stripes on, the work writes nothing but what it may and never waits at a stripe;
however it ends, it leaves other stripes behind, and a value that it ends with has a property. -/
def ConfinedFrom (may : Permit) (l : Stripes) (Q : α → Prop) : Work ε α → Stripes → Prop
  | finish r, now => now = l ∧ ∀ a, r = .done a → Q a
  | perform q next, now => q.Keeps may ∧ q.IsReady now ∧
      ∀ a now', q.Leads now a now' → (next a).ConfinedFrom may l Q now'
  | send _ next, now => ∀ heard, (next heard).ConfinedFrom may l Q now

/-- The work writes nothing but what it may and gives back the stripes that it takes. -/
abbrev Confined (may : Permit) (l : Stripes) (Q : α → Prop) (w : Work ε α) : Prop :=
  w.ConfinedFrom may l Q l

end Work

/-- How far confined work came: it is at its end, or what is left of it is confined. -/
def Progress.ConfinedFrom {ε α : Type} (may : Permit) (l : Stripes) (Q : α → Prop) :
    Progress ε α → Stripes → Prop
  | ended r, now => now = l ∧ ∀ a, r = .done a → Q a
  | waits rest, now => rest.ConfinedFrom may l Q now

namespace Work

variable {ε ζ α β : Type} {w : Work ε α} {P Q : α → Prop} {l l' now : Stripes} {b : Backend}
  {ledger : Ledger}

/-- **Confined work lets the engine go on with what it may write**, however far it comes. -/
theorem ConfinedFrom.advance (h : w.ConfinedFrom may l Q b.stripes)
    (ha : b.engine.engine.Agrees ledger) (c : Channel ε) :
    b.engine.engine.GoesOn may (w.advance b c).2.1.engine.engine ∧
      (w.advance b c).1.ConfinedFrom may l Q (w.advance b c).2.1.stripes := by
  induction w generalizing b ledger c with
  | finish r => exact ⟨b.engine.engine.goesOn_refl may, h⟩
  | perform q next ih =>
    obtain ⟨hkeeps, hready, hnext⟩ := h
    obtain ⟨a, b', hanswer⟩ := Backend.answer?_of_isReady hready
    obtain ⟨hgoes, hleads⟩ := Backend.goesOn_answer hkeeps hanswer
    obtain ⟨ledger', -, ha'⟩ := hgoes ledger ha
    obtain ⟨hgoes', hcame⟩ := ih a (hnext a _ (hleads ledger ha)) ha' c
    unfold Work.advance at hgoes' hcame ⊢
    rw [advanceTo, if_neg Bool.false_ne_true, hanswer]
    exact ⟨hgoes.trans hgoes', hcame⟩
  | send item next ih =>
    -- Sending is no effect on the backend; the work goes on if the channel takes the item, and
    -- waits if not.
    unfold Work.advance at ih ⊢
    rw [advanceTo]
    cases c.send? item with
    | none => exact ⟨b.engine.engine.goesOn_refl may, h⟩
    | some x => exact ih x.1 (h x.1) ha x.2

/-- Confined work comes to its end if nobody listens. -/
theorem ConfinedFrom.ends (h : w.ConfinedFrom may l Q b.stripes)
    (ha : b.engine.engine.Agrees ledger) {c : Channel ε} (hc : c.isOpen = false) :
    ∃ r, (w.advance b c).1 = .ended r := by
  induction w generalizing b ledger with
  | finish r => exact ⟨r, rfl⟩
  | perform q next ih =>
    obtain ⟨hkeeps, hready, hnext⟩ := h
    obtain ⟨a, b', hanswer⟩ := Backend.answer?_of_isReady hready
    obtain ⟨hgoes, hleads⟩ := Backend.goesOn_answer hkeeps hanswer
    obtain ⟨ledger', -, ha'⟩ := hgoes ledger ha
    obtain ⟨r, hr⟩ := ih a (hnext a _ (hleads ledger ha)) ha'
    unfold Work.advance at hr ⊢
    rw [advanceTo, if_neg Bool.false_ne_true, hanswer]
    exact ⟨r, hr⟩
  | send item next ih =>
    -- A closed channel answers at once that nobody listens.
    have hsend : c.send? item = some (false, c) := by simp [Channel.send?, hc]
    obtain ⟨r, hr⟩ := ih false (h false) ha
    unfold Work.advance at hr ⊢
    rw [advanceTo, hsend]
    exact ⟨r, hr⟩

/-- Confined work that is run alone. -/
theorem ConfinedFrom.run (h : w.ConfinedFrom may l Q b.stripes)
    (ha : b.engine.engine.Agrees ledger) :
    b.engine.engine.GoesOn may (w.run b).2.engine.engine ∧ (w.run b).2.stripes = l := by
  obtain ⟨r, hr⟩ := h.ends ha (c := .deserted) rfl
  have hadvance := h.advance ha .deserted
  unfold Work.run
  revert hadvance hr
  obtain ⟨progress, b', c'⟩ := w.advance b .deserted
  rintro rfl ⟨hgoes, hstripes, -⟩
  exact ⟨hgoes, hstripes⟩

/-! ## Putting work together -/

/-- A value is confined work. -/
theorem confined_pure {a : α} (h : Q a) : (pure a : Work ε α).Confined may l Q :=
  ⟨rfl, fun _ heq => Outcome.done.inj heq ▸ h⟩

/-- So is a failure. -/
theorem confined_fail (e : StoreError) : (fail e : Work ε α).Confined may l Q :=
  ⟨rfl, fun _ heq => by cases heq⟩

/-- So is a panic. -/
theorem confined_panic : (panic : Work ε α).Confined may l Q := ⟨rfl, fun _ heq => by cases heq⟩

/-- Less may be known of the value. -/
theorem ConfinedFrom.weaken (h : w.ConfinedFrom may l P now) (hPQ : ∀ a, P a → Q a) :
    w.ConfinedFrom may l Q now := by
  induction w generalizing now with
  | finish r => exact ⟨h.1, fun a ha => hPQ a (h.2 a ha)⟩
  | perform q next ih => exact ⟨h.1, h.2.1, fun a now' ha => ih a (h.2.2 a now' ha)⟩
  | send item next ih => exact fun heard => ih heard (h heard)

/-- Work goes on with the value of its first part. -/
theorem ConfinedFrom.bind {f : α → Work ε β} {Q : β → Prop} (h : w.ConfinedFrom may l P now)
    (hf : ∀ a, P a → (f a).Confined may l Q) : (w >>= f).ConfinedFrom may l Q now := by
  induction w generalizing now with
  | finish r =>
    obtain ⟨rfl, hvalue⟩ := h
    cases r with
    | done a => exact hf a (hvalue a rfl)
    | failed e => exact confined_fail e
    | panicked => exact confined_panic
  | perform q next ih => exact ⟨h.1, h.2.1, fun a now' ha => ih a (h.2.2 a now' ha)⟩
  | send item next ih => exact fun heard => ih heard (h heard)

/-- A last part runs however the work ends. -/
theorem ConfinedFrom.ensuring {last : Work ε Unit} (h : w.ConfinedFrom may l Q now)
    (hlast : last.ConfinedFrom may l' (fun _ => True) l) :
    (w.ensuring last).ConfinedFrom may l' Q now := by
  induction w generalizing now with
  | finish r =>
    obtain ⟨rfl, hvalue⟩ := h
    exact hlast.bind fun _ _ => ⟨rfl, hvalue⟩
  | perform q next ih => exact ⟨h.1, h.2.1, fun a now' ha => ih a (h.2.2 a now' ha)⟩
  | send item next ih => exact fun heard => ih heard (h heard)

/-- A last part runs unless the work ends with a value, and the work goes on with that value. -/
theorem ConfinedFrom.onFailure_bind {last : Work ε Unit} {f : α → Work ε β} {Q : β → Prop}
    (h : w.ConfinedFrom may l P now) (hlast : last.ConfinedFrom may l' (fun _ => True) l)
    (hf : ∀ a, P a → (f a).ConfinedFrom may l' Q l) :
    (w.onFailure last >>= f).ConfinedFrom may l' Q now := by
  induction w generalizing now with
  | finish r =>
    obtain ⟨rfl, hvalue⟩ := h
    cases r with
    | done a => exact hf a (hvalue a rfl)
    | failed e =>
      -- The cleaning up ends in the failure again, so no value reaches the second part.
      refine ConfinedFrom.bind (P := fun _ => False) (hlast.bind fun _ _ => ?_) fun _ => False.elim
      exact confined_fail e
    | panicked =>
      refine ConfinedFrom.bind (P := fun _ => False) (hlast.bind fun _ _ => ?_) fun _ => False.elim
      exact confined_panic
  | perform q next ih => exact ⟨h.1, h.2.1, fun a now' ha => ih a (h.2.2 a now' ha)⟩
  | send item next ih => exact fun heard => ih heard (h heard)

/-- Items may be changed on their way. -/
theorem ConfinedFrom.mapItems (f : ε → ζ) (h : w.ConfinedFrom may l Q now) :
    (w.mapItems f).ConfinedFrom may l Q now := by
  induction w generalizing now with
  | finish r => exact h
  | perform q next ih => exact ⟨h.1, h.2.1, fun a now' ha => ih a (h.2.2 a now' ha)⟩
  | send item next ih => exact fun heard => ih heard (h heard)

/-- The work of a producer. -/
theorem ConfinedFrom.supervised {w : Work ε Unit} {Q : Unit → Prop}
    (h : w.ConfinedFrom may l Q now) : w.supervised.ConfinedFrom may l (fun _ => True) now := by
  induction w generalizing now with
  | finish r =>
    obtain ⟨rfl, -⟩ := h
    cases r with
    | done a => exact confined_pure trivial
    | failed e => exact fun _ => confined_pure trivial
    | panicked => exact fun _ => confined_pure trivial
  | perform q next ih => exact ⟨h.1, h.2.1, fun a now' ha => ih a (h.2.2 a now' ha)⟩
  | send item next ih => exact fun heard => ih heard (h heard)

/-! ## Parts of work -/

/-- To send an item is no write, be it accepted or not. -/
theorem confined_emit (item : ε) : (emit item : Work ε Bool).Confined may l fun _ => True :=
  fun _ => confined_pure trivial

/-- An effect that is not about stripes. -/
theorem confined_effect {q : Effect} {Q : q.Answer → Prop} (hkeeps : q.Keeps may)
    (hready : q.IsReady l) (hleads : ∀ a l', q.Leads l a l' → l' = l ∧ Q a) :
    (effect q : Work ε q.Answer).Confined may l Q :=
  ⟨hkeeps, hready, fun a l' ha => ⟨(hleads a l' ha).1, fun _ heq =>
    Outcome.done.inj heq ▸ (hleads a l' ha).2⟩⟩

/-- A call that writes what it may. -/
theorem confined_attempt {c : EngineCall} (h : ∀ x ∈ c.writes, may x.1 x.2) :
    (attempt c : Work ε (Except EngineError c.Answer)).Confined may l c.MayAnswer :=
  confined_effect h trivial fun _ _ ha => ⟨ha.2, ha.1⟩

/-- Work that goes on after an answer knows that it was a success. -/
theorem confined_orFail (operation context : String) (r : Except EngineError α) :
    (orFail operation context r : Work ε α).Confined may l fun a => r = .ok a := by
  cases r with
  | ok a => exact confined_pure rfl
  | error failure => exact confined_fail _

/-- A call writes what it asks to have written. -/
theorem confined_call {c : EngineCall} (h : ∀ x ∈ c.writes, may x.1 x.2)
    (operation context : String) :
    (call operation context c : Work ε c.Answer).Confined may l fun a => c.MayAnswer (.ok a) :=
  (confined_attempt h).bind fun _ hr =>
    (confined_orFail operation context _).weaken fun _ heq => heq ▸ hr

/-- A call that writes nothing. -/
theorem confined_reading {c : EngineCall} (h : c.writes = []) (operation context : String) :
    (call operation context c : Work ε c.Answer).Confined may l fun a => c.MayAnswer (.ok a) :=
  confined_call (by simp [h]) operation context

/-- To give a pin back is no write. -/
theorem confined_unpin (s : Nat) :
    (effect (.unpin s) : Work ε Unit).Confined may l fun _ => True :=
  confined_effect trivial trivial fun _ _ heq => ⟨heq, trivial⟩

/-- To resolve a token is no write. -/
theorem confined_view (token : Option Token) :
    (Work.view token : Work ε ReadView).Confined may l fun _ => True := by
  have hresolve : (effect (.resolve token) : Work ε _).Confined may l fun _ => True :=
    confined_effect trivial trivial fun _ _ heq => ⟨heq, trivial⟩
  refine hresolve.bind fun r _ => ?_
  cases r with
  | ok view => exact confined_pure trivial
  | error e => exact confined_fail e

/-! ## Stripes -/

section Stripes

variable {hold : Hold} {i : Nat}

/-- An idle stripe is taken at once. -/
theorem confined_lock_bind (hidle : l.lock i = .idle) {f : Unit → Work ε α}
    (hf : (f ()).ConfinedFrom may l' Q (List.set l i hold.held)) :
    (lock hold i >>= f).ConfinedFrom may l' Q l := by
  cases hold with
  | shared =>
    have henter : (l.lock i).enter? .shared = some Hold.shared.held := by
      rw [hidle]
      rfl
    refine ⟨trivial, by simp [Effect.IsReady, henter], ?_⟩
    rintro a now' ⟨x, hx, rfl⟩
    obtain rfl := Option.some.inj (henter.symm.trans hx)
    exact hf
  | exclusive =>
    -- The announcement is taken back when the writer goes in.
    have henter : (Stripes.lock (List.set l i (l.lock i).announce) i).enter? .exclusive
        = some Hold.exclusive.held := by
      rw [Stripes.lock_set, hidle]
      split <;> rfl
    refine ⟨trivial, trivial, ?_⟩
    rintro a now' rfl
    refine ⟨trivial, by simp [Effect.IsReady, henter], ?_⟩
    rintro a now' ⟨x, hx, rfl⟩
    obtain rfl := Option.some.inj (henter.symm.trans hx)
    rwa [List.set_set]

/-- A stripe that was taken idle is given back. -/
theorem confined_unlock (hidle : l.lock i = .idle) (hold : Hold) :
    (unlock hold i : Work ε Unit).ConfinedFrom may l (fun _ => True)
      (List.set l i hold.held) := by
  refine ⟨trivial, trivial, ?_⟩
  rintro a now' rfl
  refine ⟨?_, fun _ _ => trivial⟩
  rw [release_lock_set hidle, List.set_set, ← hidle, Stripes.set_lock]

/-- The only reader of a stripe becomes its writer, or it stays its reader. -/
theorem confined_upgrade_bind (hidle : l.lock i = .idle) {f : Bool → Work ε α}
    (htrue : (f true).ConfinedFrom may l' Q (List.set l i Hold.exclusive.held))
    (hfalse : (f false).ConfinedFrom may l' Q (List.set l i Hold.shared.held)) :
    (effect (.upgrade i) >>= f).ConfinedFrom may l' Q (List.set l i Hold.shared.held) := by
  refine ⟨trivial, trivial, ?_⟩
  rintro a now' ⟨ha, rfl⟩
  rw [Stripes.lock_set, hidle] at ha ⊢
  split at ha
  · rename_i hi
    rw [if_pos hi, List.set_set]
    obtain rfl : a = true := ha
    exact htrue
  · rename_i hi
    obtain rfl : a = false := ha
    -- A stripe that does not exist cannot be upgraded, and nothing was taken of it.
    have hbeyond : l.length ≤ i := Nat.not_lt.mp fun hlt => hi ⟨rfl, hlt⟩
    rw [List.set_eq_of_length_le (by simpa using hbeyond)]
    exact hfalse

/-- Work under idle stripes that does not touch stripes itself. -/
theorem confined_holding {is : List Nat} (hnodup : is.Nodup) (hidle : ∀ i ∈ is, l.lock i = .idle)
    (h : ∀ l, w.Confined may l Q) : (Work.holding hold is w).Confined may l Q := by
  induction is generalizing l with
  | nil => exact h l
  | cons i is ih =>
    obtain ⟨hi, hnodup⟩ := List.nodup_cons.mp hnodup
    have hfree := hidle i List.mem_cons_self
    have hothers : ∀ j ∈ is, Stripes.lock (List.set l i hold.held) j = .idle := by
      intro j hj
      have hne : i ≠ j := fun heq => hi (heq ▸ hj)
      rw [Stripes.lock_set, if_neg fun hand => hne hand.1]
      exact hidle j (List.mem_cons_of_mem _ hj)
    exact confined_lock_bind hfree ((ih hnodup hothers).ensuring (confined_unlock hfree hold))

end Stripes

end Work

end SnapshotStore
