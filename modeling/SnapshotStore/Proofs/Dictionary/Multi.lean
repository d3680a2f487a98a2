import SnapshotStore.Dictionary.Multi
import SnapshotStore.Proofs.Batching
import SnapshotStore.Proofs.Dictionary.Points

/-!
# What a window of keys reads and writes

A window of keys answers the values of one state.  A window of entries is written in as many batches
as the caps ask for; together they make of the column what the puts make of it one after the other
(`Dictionary.makes_putWindow`), and the answer tells for every entry what its key held just before
that entry (`Contents.previous`).
-/

namespace SnapshotStore

namespace Contents

/-- The operations that write some entries. -/
def puts (entries : List Entry) : WriteBatch := entries.map fun e => .put e.1 e.2

/-- What the keys of some entries hold just before each entry is written. -/
def previous (m : Contents) : List Entry → List (Option Bytes)
  | [] => []
  | (key, value) :: rest => m key :: (m.apply (.put key value)).previous rest

/-- There is an old value for each entry. -/
theorem length_previous (m : Contents) (entries : List Entry) :
    (m.previous entries).length = entries.length := by
  induction entries generalizing m with
  | nil => rfl
  | cons e rest ih => simp [previous, ih]

/-- The old values of a later part are those after the earlier part was put. -/
theorem previous_append (m : Contents) (entries entries' : List Entry) :
    m.previous (entries ++ entries')
      = m.previous entries ++ (m.applyAll (puts entries)).previous entries' := by
  induction entries generalizing m with
  | nil => rfl
  | cons e rest ih =>
    rw [List.cons_append, previous, ih]
    rfl

/-- What writing some entries answers: what their keys held, if that is wanted. -/
def answers (m : Contents) (wantsPrevious : Bool) (entries : List Entry) : List (Option Bytes) :=
  if wantsPrevious then m.previous entries else entries.map fun _ => none

/-- There is an answer for each entry. -/
theorem length_answers (m : Contents) (wantsPrevious : Bool) (entries : List Entry) :
    (m.answers wantsPrevious entries).length = entries.length := by
  cases wantsPrevious with
  | true => exact m.length_previous entries
  | false => exact List.length_map _

/-- The answers of a later part are those after the earlier part was put. -/
theorem answers_append (m : Contents) (wantsPrevious : Bool) (entries entries' : List Entry) :
    m.answers wantsPrevious (entries ++ entries')
      = m.answers wantsPrevious entries
        ++ (m.applyAll (puts entries)).answers wantsPrevious entries' := by
  cases wantsPrevious with
  | true => exact m.previous_append entries entries'
  | false => exact List.map_append

/-- What a window wrote so far, newest first, stands before what was stored. -/
def IsShadowed (c : Contents) (written : List Entry) (m : Contents) : Prop :=
  ∀ key, m key = (written.lookup key).or (c key)

namespace IsShadowed

variable {c m : Contents} {written : List Entry} {key : Bytes}

/-- Before anything is written the contents are those that were found. -/
theorem nil (c : Contents) : c.IsShadowed [] c := fun _ => rfl

/-- What is put shadows what was stored. -/
theorem put (h : c.IsShadowed written m) (key value : Bytes) :
    c.IsShadowed ((key, value) :: written) (m.apply (.put key value)) := by
  intro k
  by_cases hk : k = key
  · simp [apply, hk]
  · have hne : (k == key) = false := by simpa using hk
    simp [apply, hk, List.lookup_cons, hne, h k]

/-- A key that was written has what was written last. -/
theorem of_lookup_eq_some (h : c.IsShadowed written m) {shadow : Bytes}
    (hlookup : written.lookup key = some shadow) : m key = some shadow := by
  rw [h key, hlookup]
  rfl

/-- A key that was not written has what was found. -/
theorem of_lookup_eq_none (h : c.IsShadowed written m) (hlookup : written.lookup key = none) :
    m key = c key := by
  rw [h key, hlookup]
  rfl

end IsShadowed

end Contents

namespace Dictionary

variable {ε : Type} {d : Dictionary} {w : World}

/-! ## Reading a window -/

/-- Keys are read one after the other, all from the same state. -/
theorem takes_readEach (hn : w.HasColumn d.column) {view : ReadView} (hview : w.CanRead view)
    (sure : Bool) (keys : List Bytes) :
    (d.readEach view sure keys : Work ε _).Takes w
      (.done (keys.map fun key => (key, w.seen d.column view key))) w := by
  induction keys with
  | nil => exact Work.takes_pure _ _
  | cons key rest ih =>
    exact (takes_read hn hview key sure).bind (ih.bind (Work.takes_pure _ _))

/-- A window of reads answers each key with its value. -/
theorem takes_getWindow (h : d.AtRest w) {token : Option Token} {view : ReadView}
    (htoken : w.snapshots.resolve token = .ok view) (hview : w.CanRead view) (keys : List Bytes)
    (sure : Bool) :
    (d.getWindow token keys sure : Work ε _).Takes w
      (.done (keys.map fun key => (key, w.seen d.column view key))) w :=
  (Work.takes_view htoken).bind
    (Work.Takes.holding_uniform h.areIdle (d.nodup_readStripes view keys) rfl
      fun l => takes_readEach (w := { w with stripes := l }) h.column hview sure keys)

/-- A token that is not known fails the window. -/
theorem takes_getWindow_failed {token : Option Token} {e : StoreError}
    (htoken : w.snapshots.resolve token = .error e) (keys : List Bytes) (sure : Bool) :
    (d.getWindow token keys sure : Work ε _).Takes w (.failed e) w :=
  (Work.takes_view_failed htoken).bind_failed

/-! ## Writing a window -/

/-- Reading what the keys of entries hold answers it, or is struck.  An earlier entry of the window
shadows the value that is stored. -/
theorem endures_previousValues (hn : w.HasColumn d.column) {m : Contents} {written : List Entry}
    (hm : (w.now d.column).IsShadowed written m) (entries : List Entry) (k : Nat) :
    (d.previousValues written entries : Work ε _).Endures k w
      (Work.AllOrNothing (m.previous entries) w w) := by
  induction entries generalizing m written with
  | nil => exact Work.endures_finish .all
  | cons e rest ih =>
    obtain ⟨key, value⟩ := e
    have hrest : ∀ previous, (do
        return previous :: (← d.previousValues ((key, value) :: written) rest)
          : Work ε _).Endures k w
            (Work.AllOrNothing (previous :: (m.apply (.put key value)).previous rest) w w) :=
      fun previous => (ih (hm.put key value)).bind_allOrNothing (Work.endures_finish .all)
    unfold previousValues Contents.previous
    -- A key that an earlier entry wrote is not read from the engine, which does not have it yet.
    cases hlookup : written.lookup key with
    | some shadow =>
      rw [hm.of_lookup_eq_some hlookup]
      exact hrest (some shadow)
    | none =>
      rw [hm.of_lookup_eq_none hlookup]
      exact (endures_read hn (show w.CanRead .latest from trivial) key k).bind_allOrNothing
        (hrest _)

/-- Queueing operations applies them to what the column will hold. -/
theorem makes_pushAll (context : String) {b : CappedBatch} (hn : w.HasColumn b.column)
    (ops : WriteBatch) :
    ∃ b' m, (pushAll context b ops : Work ε _).Makes w (.done b') b.column m ∧
      b'.column = b.column ∧
      m.applyAll b'.pending = ((w.now b.column).applyAll b.pending).applyAll ops := by
  induction ops generalizing b w with
  | nil => exact ⟨b, _, (Work.takes_pure _ _).makes _, rfl, rfl⟩
  | cons op rest ih =>
    obtain ⟨b₁, m₁, ⟨w₁, hpush, hw₁⟩, hcolumn, hm₁⟩ := CappedBatch.makes_push (ε := ε) hn op
    obtain ⟨b', m', ⟨w', hrest, hw'⟩, hcolumn', hm'⟩ :=
      ih (b := b₁) (w := w₁) (hcolumn ▸ hw₁.hasColumn hn)
    rw [hcolumn] at hw' hm'
    refine ⟨b', m', ⟨w', ?_, hw₁.trans hw'⟩, hcolumn'.trans hcolumn, ?_⟩
    · exact hpush.bind ((Work.takes_pure () _).bind hrest)
    · rw [hm', hw₁.now, hm₁]
      rfl

/-- Queues operations in a batch, completes it, and answers a value. -/
def writeAll {α : Type} (context : String) (b : CappedBatch) (ops : WriteBatch) (a : α) :
    Work ε α := do
  let b ← pushAll context b ops
  discard <| Work.orFail "write" context (← b.complete)
  return a

/-- Queueing operations and completing the batch writes them. -/
private theorem makes_writeAll {α : Type} (hn : w.HasColumn d.column) (context : String)
    (ops : WriteBatch) (a : α) :
    (writeAll context d.batch ops a : Work ε α).Makes w (.done a) d.column
      ((w.now d.column).applyAll ops) := by
  obtain ⟨b, m, hpush, hcolumn, hm⟩ := makes_pushAll (ε := ε) context (b := d.batch) hn ops
  refine hpush.bind fun w' hw' => ?_
  obtain ⟨k, hcomplete⟩ := CappedBatch.makes_complete (ε := ε) (b := b) (w := w')
    (hcolumn ▸ hw'.hasColumn hn)
  have hmade : (w'.now d.column).applyAll b.pending = (w.now d.column).applyAll ops :=
    (congrArg (·.applyAll b.pending) hw'.now).trans hm
  rw [show b.column = d.column from hcolumn, hmade] at hcomplete
  refine hcomplete.bind fun w'' hw'' => ?_
  rw [← hw''.now]
  exact ((Work.takes_pure k w'').map.bind (Work.takes_pure a w'')).makes _

/-- A window is written as if its entries were put one after the other. -/
theorem makes_putWindow (h : d.AtRest w) (entries : List Entry) (wantsPrevious : Bool) :
    (d.putWindow entries wantsPrevious : Work ε _).Makes w
      (.done ((w.now d.column).answers wantsPrevious entries)) d.column
      ((w.now d.column).applyAll (Contents.puts entries)) := by
  refine Work.Makes.holding h.areIdle (d.nodup_writeStripes _) fun l => ?_
  have hwrite : ∀ (context : String) (previous : List (Option Bytes)), _ := fun context previous =>
    makes_writeAll (ε := ε) (w := { w with stripes := l }) h.column context
      (Contents.puts entries) previous
  cases wantsPrevious with
  | true =>
    exact (endures_previousValues (w := { w with stripes := l }) h.column (.nil _)
      entries 1).takes.bind_makes (hwrite _ _)
  | false => exact (Work.takes_pure _ _).bind_makes (hwrite _ _)

end Dictionary

end SnapshotStore
