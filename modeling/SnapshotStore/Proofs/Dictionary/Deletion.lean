import SnapshotStore.Proofs.Dictionary.Walk

/-!
# What deletions leave

Deleting a range leaves the contents without the keys of the range, on each of the three ways that a
dictionary has for it: one deletion for a range of one key, one range deletion, or one deletion for
every entry along a walk.  The last way writes while it walks, in batches that the caps cut; the
walk does not see them.
-/

namespace SnapshotStore

variable {ε : Type} {d : Dictionary} {w : World} {range : KeyRange} {entries : List Entry}

namespace Contents

variable {m : Contents}

/-- The operations that delete the keys of some entries. -/
def deletions (entries : List Entry) : WriteBatch := entries.map fun e => .delete e.1

/-- After deletions, exactly their keys are gone. -/
theorem applyAll_deletions (m : Contents) (entries : List Entry) (k : Bytes) :
    m.applyAll (deletions entries) k = if k ∈ entries.map (·.1) then none else m k := by
  induction entries generalizing m with
  | nil => simp [deletions]
  | cons e rest ih =>
    refine (ih (m.apply (.delete e.1))).trans ?_
    by_cases hk : k = e.1 <;> by_cases hmem : k ∈ rest.map (·.1) <;> simp [apply, hk, hmem]

/-- Deleting the entries of a range is deleting the range. -/
theorem Lists.applyAll_deletions (h : m.Lists range entries) :
    m.applyAll (deletions entries) = m.apply (.deleteRange range) := by
  funext k
  rw [Contents.applyAll_deletions, apply]
  -- The keys that are listed are those in the range that are stored.
  have hmem : k ∈ entries.map (·.1) ↔ range.contains k ∧ (m k).isSome := by
    constructor
    · intro hk
      obtain ⟨⟨key, value⟩, he, rfl⟩ := List.mem_map.mp hk
      obtain ⟨hrange, hvalue⟩ := (h.mem_iff key value).mp he
      exact ⟨hrange, by simp [hvalue]⟩
    · rintro ⟨hrange, hsome⟩
      obtain ⟨value, hvalue⟩ := Option.isSome_iff_exists.mp hsome
      exact List.mem_map.mpr ⟨(k, value), (h.mem_iff k value).mpr ⟨hrange, hvalue⟩, rfl⟩
  by_cases hrange : range.contains k
  · cases hvalue : m k with
    | none => simp [hrange]
    | some value =>
      have hk : k ∈ entries.map (·.1) := hmem.mpr ⟨hrange, by simp [hvalue]⟩
      simp [hrange, hk]
  · have hk : k ∉ entries.map (·.1) := fun hand => hrange (hmem.mp hand).1
    simp [hrange, hk]

/-- Deleting the key of a range of one key is deleting the range. -/
theorem apply_delete_of_single (m : Contents) {key : Bytes}
    (hsingle : range.singleKey? = some key) :
    m.apply (.delete key) = m.apply (.deleteRange range) := by
  funext k
  simp [apply, KeyRange.contains, hsingle]

end Contents

namespace Dictionary

/-! ## The first entry -/

/-- The first entry is the first one that the range lists. -/
theorem takes_firstEntry (h : d.AtRest w) {view : ReadView} (hview : w.CanRead view)
    (hlists : (w.seen d.column view).Lists range entries) :
    (d.firstEntry view range : Work ε _).Takes w (.done entries.head?) w := by
  have hvisit := takes_visit_pure (ε := ε) (f := fun _ entry => (false, some entry)) h hview
    (fun _ _ => rfl) hlists none
  have hfold : foldUntil (fun _ entry => (false, some entry)) none entries = entries.head? := by
    cases entries <;> rfl
  rwa [hfold] at hvisit

/-- It is answered for any moment that can be read. -/
theorem takes_getFirst (h : d.AtRest w) {token : Option Token} {view : ReadView}
    (htoken : w.snapshots.resolve token = .ok view) (hview : w.CanRead view)
    (hlists : (w.seen d.column view).Lists range entries) :
    (d.getFirst token range : Work ε _).Takes w (.done entries.head?) w :=
  (Work.takes_view htoken).bind (takes_firstEntry h hview hlists)

/-- A token that is not known fails the read. -/
theorem takes_getFirst_failed {token : Option Token} {e : StoreError}
    (htoken : w.snapshots.resolve token = .error e) (range : KeyRange) :
    (d.getFirst token range : Work ε _).Takes w (.failed e) w :=
  (Work.takes_view_failed htoken).bind_failed

/-! ## Deleting along a walk -/

/-- Queueing the deletions of some entries applies them to what the column will hold. -/
theorem visits_queueDelete {b : CappedBatch} (hcolumn : b.column = d.column)
    (hn : w.HasColumn d.column) (entries : List Entry) (k : Nat) :
    ∃ (b' : CappedBatch) (w' : World),
      Visits (fun (s : Deletions) entry => (queueDelete s entry.1 : Work ε _)) d.column entries
        (b, .ok ()) k w [] (b', .ok ()) w' ∧ b'.column = d.column ∧
      (w'.now d.column).applyAll b'.pending
        = ((w.now d.column).applyAll b.pending).applyAll (Contents.deletions entries) := by
  induction entries generalizing b w with
  | nil => exact ⟨b, w, .nil _ _ _, hcolumn, rfl⟩
  | cons entry rest ih =>
    obtain ⟨b₁, m₁, ⟨w₁, hpush, hw₁⟩, hcolumn₁, hm₁⟩ :=
      CappedBatch.makes_push (ε := ε) (b := b) (hcolumn ▸ hn) (.delete entry.1)
    rw [hcolumn] at hw₁ hm₁
    obtain ⟨b', w', hrest, hcolumn', hm'⟩ := ih (hcolumn₁.trans hcolumn) (hw₁.hasColumn hn)
    refine ⟨b', w', .next_takes (hpush.bind (Work.takes_pure _ _)) (hw₁.now.symm ▸ hw₁) hrest,
      hcolumn', ?_⟩
    rw [hm', hw₁.now, hm₁]
    rfl

/-- Completing queued deletions makes real what the column was to hold. -/
theorem makes_completeDeletes (context : String) {b : CappedBatch} (hcolumn : b.column = d.column)
    (hn : w.HasColumn d.column) :
    (completeDeletes context (b, .ok ()) : Work ε _).Makes w (.done ()) d.column
      ((w.now d.column).applyAll b.pending) := by
  obtain ⟨k, w', hcomplete, hwrites⟩ := CappedBatch.makes_complete (ε := ε) (b := b) (hcolumn ▸ hn)
  rw [hcolumn] at hwrites
  exact ⟨w', (Work.takes_pure () w).bind (hcomplete.bind (Work.takes_pure k w').map), hwrites⟩

/-- Deleting a range leaves the other keys. -/
theorem makes_deleteRange (h : d.AtRest w) (hlists : (w.now d.column).Lists range entries) :
    (d.deleteRange range : Work ε _).Makes w (.done ()) d.column
      ((w.now d.column).apply (.deleteRange range)) := by
  unfold deleteRange
  cases hsingle : range.singleKey? with
  | some key =>
    rw [← Contents.apply_delete_of_single _ hsingle]
    refine Work.Makes.holding h.areIdle (d.nodup_writeStripes [key]) fun l => ?_
    have hwrites := World.Writes.commit { w with stripes := l } d.column [.delete key]
    exact ⟨_, Work.takes_delete (w := { w with stripes := l }) h.column key _ _, hwrites⟩
  | none =>
    have hfinish : ∀ {w' : World} {b : CappedBatch} {m : Contents}, w.Writes d.column m w' →
        b.column = d.column → m.applyAll b.pending = (w.now d.column).apply (.deleteRange range) →
        (completeDeletes range.display (b, .ok ()) : Work ε _).Makes w' (.done ()) d.column
          ((w.now d.column).apply (.deleteRange range)) := by
      intro w' b m hw' hcolumn hm
      have hcomplete := makes_completeDeletes (ε := ε) range.display hcolumn (hw'.hasColumn h.column)
      rwa [hw'.now, hm] at hcomplete
    cases hnative : d.deletesRanges with
    | true =>
      obtain ⟨b, m, hpush, hcolumn, hm⟩ :=
        CappedBatch.makes_push (ε := ε) (b := d.batch) h.column (.deleteRange range)
      exact hpush.bind fun w' hw' => (Work.takes_pure _ w').bind_makes (hfinish hw' hcolumn hm)
    | false =>
      -- While the walk goes on, its cursor pins the state that it sees.
      obtain ⟨b, w', hvisits, hcolumn, hm⟩ := visits_queueDelete (ε := ε) (d := d)
        (w := { w with pins := w.ledger.sequenceOf .latest :: w.pins }) (b := d.batch) rfl h.column
        entries 1
      have hwrites := hvisits.writes.with_pins
      have hwalk : (d.visit .latest range (fun s entry => queueDelete s entry.1) (d.batch, .ok ()) :
          Work ε _).Makes w (.done (b, .ok ())) d.column (w'.now d.column) :=
        ⟨_, (emits_visit_scan h.column (show w.CanRead .latest from trivial) hsingle hlists
          hvisits).takes, hwrites⟩
      refine hwalk.bind fun w'' hw'' => hfinish hw'' hcolumn ?_
      rw [← hlists.applyAll_deletions]
      exact hm

/-- Clearing leaves nothing; the compaction is not seen. -/
theorem makes_clear (h : d.AtRest w) (hlists : (w.now d.column).Lists .all entries) :
    (d.clear : Work ε _).Makes w (.done ()) d.column .empty := by
  have hempty : (w.now d.column).apply (.deleteRange .all) = .empty := by
    funext k
    rfl
  rw [← hempty]
  refine (makes_deleteRange h hlists).bind fun w' hw' => ?_
  have hcompact := Work.takes_compact (ε := ε) (hw'.hasColumn h.column) "compact" d.name
  rw [← hw'.now]
  exact (hcompact.bind (Work.takes_flush "flush" d.name)).makes d.column

/-! ## Removing the first entry -/

/-- Nobody overtakes work that runs alone: the first attempt succeeds. -/
theorem takes_removeFirst (h : d.AtRest w) (hlists : (w.now d.column).Lists range entries)
    (attempts : Nat) :
    (d.removeFirst range (attempts + 1) : Work ε _).Takes w (.done entries.head?)
      (match entries.head? with
      | some (key, _) => w.commit d.column [.delete key]
      | none => w) := by
  have hfirst := takes_firstEntry (ε := ε) h (show w.CanRead .latest from trivial) hlists
  unfold removeFirst
  cases entries with
  | nil => exact hfirst.bind (Work.takes_pure none w)
  | cons e rest =>
    obtain ⟨key, value⟩ := e
    refine hfirst.bind ?_
    have hvalue : w.now d.column key = some value := ((hlists.mem_iff key value).mp (by simp)).2
    have hread : ∀ l, (d.read .latest key true : Work ε _).Takes { w with stripes := l }
        (.done (some value)) { w with stripes := l } := by
      intro l
      have hread := takes_read (ε := ε) (w := { w with stripes := l }) h.column
        (show World.CanRead { w with stripes := l } .latest from trivial) key true
      rw [← hvalue]
      exact hread
    -- What the walk found is still there when the stripe is held.
    refine Work.Takes.bind (a := some (key, value)) (Work.Takes.holding_uniform h.areIdle
      (d.nodup_writeStripes [key]) (by rfl) fun l => ?_)
      (Work.takes_pure (some (key, value)) (w.commit d.column [.delete key]))
    exact (hread l).bind ((Work.takes_delete (w := { w with stripes := l }) h.column key _ _).bind
      (Work.takes_pure _ _))

end Dictionary

end SnapshotStore
