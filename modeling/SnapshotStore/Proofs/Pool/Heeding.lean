import SnapshotStore.Dictionary.Streams
import SnapshotStore.Proofs.Pool.Order

/-!
# Producers that heed their consumer

A consumer goes away without a word, and a producer learns of it from its next send.
`Work.Quits` bounds the entries that work reads when nobody listens any more, and work that
`Work.Heeds` its consumer reads at most one more from wherever it is then.  There is one rule for
each way to put work together, and by them the streams over a range heed (`heeds_streamEntries`).
-/

namespace SnapshotStore

/-- How many entries an effect brings. -/
def Effect.entries : (q : Effect) → q.Answer → Nat
  | .ask (.next _), .ok (some _, _) => 1
  | .ask (.get ..), .ok (some _) => 1
  | _, _ => 0

/-- An effect asks for one entry at most. -/
theorem Effect.entries_le (q : Effect) (a : q.Answer) : q.entries a ≤ 1 := by
  unfold entries
  split <;> decide

namespace Work

variable {ε α β : Type} {w rest : Work ε α} {n m : Nat} {items : List (Except StoreError ε)}

/-- When nobody listens, the work reads at most a number of entries before it ends. -/
def Quits : Work ε α → Nat → Prop
  | finish _, _ => True
  | perform q next, n => ∀ a, q.entries a ≤ n ∧ (next a).Quits (n - q.entries a)
  | send _ next, n => (next false).Quits n

/-- The work sends items, no failures, and wherever it is when the consumer goes away, it reads at
most one more entry. -/
def Heeds : Work ε α → Prop
  | finish _ => True
  | perform q next => (perform q next).Quits 1 ∧ ∀ a, (next a).Heeds
  | send item next => item.isOk ∧ (next false).Quits 1 ∧ (next true).Heeds

/-- Who stops after few entries stops after more. -/
theorem Quits.mono (h : w.Quits n) (hle : n ≤ m) : w.Quits m := by
  induction w generalizing n m with
  | finish r => trivial
  | perform q next ih =>
    intro a
    obtain ⟨hentries, hnext⟩ := h a
    exact ⟨Nat.le_trans hentries hle, ih a hnext (Nat.sub_le_sub_right hle _)⟩
  | send item next ih => exact ih false h hle

/-- Who heeds a consumer that left asks for one entry more at most. -/
theorem Heeds.quits (h : w.Heeds) : w.Quits 1 := by
  cases w with
  | finish r => trivial
  | perform q next => exact h.1
  | send item next => exact h.2.1

/-- On its way work that heeds sends items, and what is left of it heeds. -/
theorem Heeds.comesTo (h : w.Heeds) (hrest : w.ComesTo items rest) :
    (∃ sent : List ε, items = sent.map .ok) ∧ rest.Heeds := by
  induction hrest with
  | refl => exact ⟨⟨[], rfl⟩, h⟩
  | perform _ a ih => exact ⟨ih.1, ih.2.2 a⟩
  | @send items item next _ ih =>
    obtain ⟨⟨sent, rfl⟩, hok, -, hnext⟩ := ih
    refine ⟨?_, hnext⟩
    cases item with
    | ok x => exact ⟨sent ++ [x], by rw [List.map_append]; rfl⟩
    | error e => simp [Except.isOk, Except.toBool] at hok

/-- Who heeds its consumer sends items only. -/
theorem Heeds.sendsItems (h : w.Heeds) : w.SendsItems := fun hrest => (h.comesTo hrest).1

/-! ## Putting work together -/

/-- What comes afterwards must not ask for entries. -/
theorem Quits.bind {f : α → Work ε β} (h : w.Quits n) (hf : ∀ a, (f a).Quits 0) :
    (w >>= f).Quits n := by
  induction w generalizing n with
  | finish r =>
    cases r with
    | done a => exact (hf a).mono (Nat.zero_le n)
    | failed e => trivial
    | panicked => trivial
  | perform q next ih => exact fun a => ⟨(h a).1, ih a (h a).2⟩
  | send item next ih => exact ih false h

/-- Behind a part that may have read an entry nothing more is read. -/
theorem Heeds.bind {f : α → Work ε β} (h : w.Heeds) (hquits : ∀ a, (f a).Quits 0)
    (hheeds : ∀ a, (f a).Heeds) : (w >>= f).Heeds := by
  induction w with
  | finish r =>
    cases r with
    | done a => exact hheeds a
    | failed e => trivial
    | panicked => trivial
  | perform q next ih => exact ⟨Quits.bind h.1 hquits, fun a => ih a (h.2 a)⟩
  | send item next ih => exact ⟨h.1, h.2.1.bind hquits, ih true h.2.2⟩

/-- An effect that brings no entry. -/
theorem heeds_perform {q : Effect} {next : q.Answer → Work ε α} (hq : ∀ a, q.entries a = 0)
    (hnext : ∀ a, (next a).Heeds) : (perform q next).Heeds := by
  refine ⟨fun a => ?_, hnext⟩
  rw [hq a]
  exact ⟨Nat.zero_le 1, (hnext a).quits⟩

/-- An effect that brings no entry, before some other work. -/
theorem heeds_effect_bind {q : Effect} {f : q.Answer → Work ε α} (hq : ∀ a, q.entries a = 0)
    (hf : ∀ a, (f a).Heeds) : (effect q >>= f).Heeds := heeds_perform hq hf

/-- A call that asks for no entry may come first. -/
theorem heeds_call_bind {c : EngineCall} (hc : ∀ a, (Effect.ask c).entries a = 0)
    {operation context : String} {f : c.Answer → Work ε α} (hf : ∀ a, (f a).Heeds) :
    (call operation context c >>= f).Heeds := by
  refine heeds_perform hc fun r => ?_
  cases r with
  | ok a => exact hf a
  | error failure => trivial

/-- So may a look at the register. -/
theorem heeds_view_bind {token : Option Token} {f : ReadView → Work ε α}
    (hf : ∀ view, (f view).Heeds) : (view token >>= f).Heeds := by
  refine heeds_perform (fun _ => rfl) fun r => ?_
  cases r with
  | ok view => exact hf view
  | error e => trivial

/-- What is done at the end must not ask for entries. -/
theorem Quits.ensuring {last : Work ε Unit} (h : w.Quits n) (hlast : last.Quits 0) :
    (w.ensuring last).Quits n := by
  induction w generalizing n with
  | finish r => exact (hlast.mono (Nat.zero_le n)).bind fun _ => trivial
  | perform q next ih => exact fun a => ⟨(h a).1, ih a (h a).2⟩
  | send item next ih => exact ih false h

/-- A last part that brings no entry and sends nothing but items. -/
theorem Heeds.ensuring {last : Work ε Unit} (h : w.Heeds) (hquits : last.Quits 0)
    (hlast : last.Heeds) : (w.ensuring last).Heeds := by
  induction w with
  | finish r => exact hlast.bind (fun _ => trivial) fun _ => trivial
  | perform q next ih => exact ⟨h.1.ensuring hquits, fun a => ih a (h.2 a)⟩
  | send item next ih => exact ⟨h.1, h.2.1.ensuring hquits, ih true h.2.2⟩

theorem quits_effect {q : Effect} (hq : ∀ a, q.entries a = 0) :
    (effect q : Work ε q.Answer).Quits 0 := fun a => ⟨(hq a).le, trivial⟩

theorem heeds_effect {q : Effect} (hq : ∀ a, q.entries a = 0) :
    (effect q : Work ε q.Answer).Heeds := heeds_perform hq fun _ => trivial

/-- A lock may come before work that heeds. -/
theorem heeds_lock_bind {f : Unit → Work ε α} (hf : ∀ a, (f a).Heeds) (hold : Hold) (i : Nat) :
    (lock hold i >>= f).Heeds := by
  have henter : (effect (.enter hold i) >>= f).Heeds := heeds_effect_bind (fun _ => rfl) hf
  cases hold with
  | shared => exact henter
  | exclusive => exact heeds_perform (fun _ => rfl) fun _ => henter

/-- Work under stripes heeds as it would without them. -/
theorem Heeds.holding (h : w.Heeds) (hold : Hold) (is : List Nat) : (holding hold is w).Heeds := by
  induction is with
  | nil => exact h
  | cons i is ih =>
    have hunlock : ∀ a, (Effect.leave hold i).entries a = 0 := fun _ => rfl
    have hrest := ih.ensuring (quits_effect hunlock) (heeds_effect hunlock)
    exact heeds_lock_bind (fun _ => hrest) hold i

end Work

namespace Dictionary

variable {ε γ : Type} {d : Dictionary}

/-- A read brings one value at most. -/
theorem heeds_read (view : ReadView) (key : Bytes) (sure : Bool) :
    (d.read view key sure : Work ε (Option Bytes)).Heeds := by
  have hget : Work.Heeds
      (Work.call "read" key.label (.get d.column view key) : Work ε (Option Bytes)) := by
    refine ⟨fun r => ⟨Effect.entries_le _ r, ?_⟩, fun r => ?_⟩ <;> cases r <;> trivial
  cases sure with
  | true => exact hget
  | false =>
    refine Work.heeds_call_bind (c := .mayContain d.column key) (fun _ => rfl) fun possible => ?_
    cases possible with
    | true => exact hget
    | false => trivial

/-- A walk that sends each of its entries stops at the first send that is refused. -/
theorem heeds_walk (part : Entry → ε) (context : String) (fuel : Nat) (cursor : Cursor) :
    Work.Heeds
      (walk context (fun _ entry => do return (← Work.emit (part entry), ())) fuel cursor ()) := by
  induction fuel generalizing cursor with
  | zero => trivial
  | succ fuel ih =>
    refine ⟨fun r => ⟨Effect.entries_le _ r, ?_⟩, fun r => ?_⟩
    · rcases r with _ | ⟨_ | entry, cursor⟩ <;> trivial
    · rcases r with _ | ⟨_ | entry, cursor⟩
      · trivial
      · trivial
      · exact ⟨rfl, trivial, ih cursor⟩

/-- A stream of entries heeds its consumer. -/
theorem heeds_streamEntries (part : Entry → γ) (token : Option Token) (range : KeyRange) :
    (d.streamEntries part token range).Heeds := by
  refine Work.heeds_view_bind fun view => ?_
  unfold visit
  split
  · rename_i key _
    refine Work.Heeds.holding ?_ .shared _
    refine (heeds_read view key false).bind ?_ ?_ <;> rintro (_ | value) <;> trivial
  · refine Work.heeds_call_bind (fun _ => rfl) fun cursor => ?_
    have hunpin : ∀ a, (Effect.unpin cursor.sequence).entries a = 0 := fun _ => rfl
    exact (heeds_walk part range.display cursor.budget cursor).ensuring (Work.quits_effect hunpin)
      (Work.heeds_effect hunpin)

/-- So a scan fails only by how it ends, and a pipe delivers it. -/
theorem sendsItems_streamEntries (part : Entry → γ) (token : Option Token) (range : KeyRange) :
    (d.streamEntries part token range).SendsItems :=
  (heeds_streamEntries part token range).sendsItems

end Dictionary

end SnapshotStore
