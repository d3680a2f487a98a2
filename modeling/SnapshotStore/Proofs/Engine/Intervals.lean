import SnapshotStore.Proofs.Engine.CursorExact

/-!
# Ends that make an interval

An ordered map is cut between two ends, and not every pair of ends will do: the lower one must not
stand above the upper one, and the two must not both leave out the key that they stand at
(`Bound.Spans`).  `KeyMap.cut?` is a cut that refuses all other pairs; between ends that make an
interval it finds what `KeyMap.within` finds (`KeyMap.Sorted.cut?_eq`).

* The ends of a range make an interval and say the same as the questions about its keys, although
  each of them tells a single key from a half-open range in its own way (`KeyRange.isPastEnd_eq`).
* A cursor brings a lower end of its own, behind the last chain that it visited.  That chain was
  admitted by the upper end, and this alone keeps the two ends an interval, whatever the column
  looks like by then (`Cursor.spans_refill`).
-/

namespace SnapshotStore

namespace Bound

/-- The key that an end stands at. -/
def key? : Bound → Option Bytes
  | unbounded => none
  | included key => some key
  | excluded key => some key

/-- Two ends make an interval, so that a map can be cut between them. -/
structure Spans (lo hi : Bound) : Prop where
  /-- The lower end does not stand above the upper one. -/
  ordered : ∀ key ∈ lo.key?, ∀ key' ∈ hi.key?, key ≤ key'
  /-- No key is left out by both. -/
  apart : ∀ key, ¬ (lo = excluded key ∧ hi = excluded key)

instance (lo hi : Bound) : Decidable (lo.Spans hi) :=
  decidable_of_iff
    ((∀ key ∈ lo.key?, ∀ key' ∈ hi.key?, key ≤ key') ∧
      ∀ key ∈ lo.key?, ¬ (lo = excluded key ∧ hi = excluded key))
    ⟨fun h => ⟨h.1, fun key hboth => h.2 key (by rw [hboth.1]; rfl) hboth⟩,
      fun h => ⟨h.ordered, fun key _ => h.apart key⟩⟩

variable {lo hi : Bound} {key key' : Bytes}

/-- Everything up to an admitted key is admitted by an upper end. -/
theorem admitsBelow_of_le (h : hi.admitsBelow key' = true) (hle : key ≤ key') :
    hi.admitsBelow key = true := by
  cases hi with
  | unbounded => rfl
  | included top =>
    simp only [admitsBelow, decide_eq_true_eq] at h ⊢
    exact List.le_trans hle h
  | excluded top =>
    simp only [admitsBelow, decide_eq_true_eq] at h ⊢
    exact Std.lt_of_le_of_lt hle h

/-- Behind a key that an upper end admits there is an interval up to that end, if only an empty
one. -/
theorem spans_excluded (h : hi.admitsBelow key = true) : (excluded key).Spans hi := by
  cases hi with
  | unbounded => exact ⟨by simp [key?], by simp⟩
  | included top =>
    simp only [admitsBelow, decide_eq_true_eq] at h
    exact ⟨by simpa [key?] using h, by simp⟩
  | excluded top =>
    simp only [admitsBelow, decide_eq_true_eq] at h
    refine ⟨by simpa [key?] using List.le_of_lt h, ?_⟩
    rintro k ⟨hlo, hhi⟩
    obtain rfl := Bound.excluded.inj hlo
    obtain rfl := Bound.excluded.inj hhi
    exact List.lt_irrefl _ h

/-- A key that the upper end does not admit will not do: both ends would leave it out. -/
example : ¬ (excluded [1]).Spans (excluded [1]) := by decide

end Bound

/-! ## Cutting ordered maps -/

namespace KeyMap

variable {α : Type} {m : KeyMap α}

/-- The bindings between two ends, as a walk finds them that passes over what lies before the
interval and stops at the first binding behind it.  Ends that make no interval are refused. -/
def cut? (m : KeyMap α) (lo hi : Bound) : Option (KeyMap α) :=
  if lo.Spans hi then
    some ((m.dropWhile fun e => !lo.admitsAbove e.1).takeWhile fun e => hi.admitsBelow e.1)
  else none

/-- Where everything behind an admitted binding is admitted, passing over the others leaves the
admitted ones. -/
private theorem dropWhile_eq_filter {p : Bytes × α → Bool}
    (h : m.Pairwise fun x y => p x = true → p y = true) :
    m.dropWhile (fun e => !p e) = m.filter p := by
  induction m with
  | nil => rfl
  | cons e m ih =>
    obtain ⟨hfirst, hrest⟩ := List.pairwise_cons.mp h
    cases he : p e with
    | true =>
      rw [List.dropWhile_cons_of_neg (by simp [he]), List.filter_cons_of_pos he,
        List.filter_eq_self.mpr fun x hx => hfirst x hx he]
    | false =>
      rw [List.dropWhile_cons_of_pos (by simp [he]), List.filter_cons_of_neg (by simp [he]),
        ih hrest]

/-- Where everything before an admitted binding is admitted, the admitted bindings come first. -/
private theorem takeWhile_eq_filter {p : Bytes × α → Bool}
    (h : m.Pairwise fun x y => p y = true → p x = true) : m.takeWhile p = m.filter p := by
  induction m with
  | nil => rfl
  | cons e m ih =>
    obtain ⟨hfirst, hrest⟩ := List.pairwise_cons.mp h
    cases he : p e with
    | true => rw [List.takeWhile_cons_of_pos he, List.filter_cons_of_pos he, ih hrest]
    | false =>
      have hno : ¬ p e = true := by simp [he]
      rw [List.takeWhile_cons_of_neg hno, List.filter_cons_of_neg hno,
        List.filter_eq_nil_iff.mpr fun x hx hyes => hno (hfirst x hx hyes)]

/-- Between ends that make an interval, a cut finds all bindings there. -/
theorem Sorted.cut?_eq (h : m.Sorted) {lo hi : Bound} (hspans : lo.Spans hi) :
    m.cut? lo hi = some (m.within lo hi) := by
  have hbehind : m.dropWhile (fun e => !lo.admitsAbove e.1) = m.filter (lo.admitsAbove ·.1) :=
    dropWhile_eq_filter (h.imp fun hlt hx => Bound.admitsAbove_of_lt hx hlt)
  have hbefore : (m.filter (lo.admitsAbove ·.1)).takeWhile (fun e => hi.admitsBelow e.1)
      = (m.filter (lo.admitsAbove ·.1)).filter (hi.admitsBelow ·.1) :=
    takeWhile_eq_filter ((h.filter _).imp fun hlt hy =>
      Bound.admitsBelow_of_le hy (List.le_of_lt hlt))
  rw [cut?, if_pos hspans, hbehind, hbefore, List.filter_filter, KeyMap.within]
  simp only [Bool.and_comm]

end KeyMap

/-! ## Ranges -/

namespace KeyRange

/-- The keys behind a range are those that its upper end does not admit. -/
theorem isPastEnd_eq (r : KeyRange) (key : Bytes) :
    r.isPastEnd key = !r.upperBound.admitsBelow key := by
  unfold isPastEnd upperBound
  cases r.singleKey? with
  | some k => simp [Bound.admitsBelow, ← List.not_le]
  | none => cases r.upper <;> simp [Bound.admitsBelow, ← List.not_lt]

/-- The lower end of the interval of a range is the lower end of the range. -/
theorem key?_lowerBound (r : KeyRange) : r.lowerBound.key? = r.lower := by
  unfold lowerBound
  cases r.lower <;> rfl

/-- The upper end of the interval of a range is the upper end of the range. -/
theorem key?_upperBound (r : KeyRange) : r.upperBound.key? = r.upper := by
  obtain ⟨lower, upper, -⟩ := r
  cases lower with
  | none => cases upper <;> rfl
  | some lo =>
    cases upper with
    | none => rfl
    | some hi => by_cases heq : lo = hi <;> simp [upperBound, singleKey?, heq, Bound.key?]

/-- The ends of a range make an interval, as its bounds are in order. -/
theorem spans_bounds (r : KeyRange) : r.lowerBound.Spans r.upperBound where
  ordered := by
    rw [r.key?_lowerBound, r.key?_upperBound]
    exact r.ordered
  apart := by
    -- The lower end of a range always belongs to it.
    rintro key ⟨hlo, -⟩
    unfold lowerBound at hlo
    split at hlo <;> cases hlo

/-- No key behind a range belongs to it. -/
theorem not_contains_of_isPastEnd {r : KeyRange} {key : Bytes} (h : r.isPastEnd key = true) :
    r.contains key = false := by
  rw [r.isPastEnd_eq, Bool.not_eq_true'] at h
  refine Bool.eq_false_iff.mpr fun hcontains => ?_
  rw [((r.admits_bounds key).mpr hcontains).2] at h
  cases h

/-- What lies above a key behind a range lies behind it too. -/
theorem isPastEnd_of_le {r : KeyRange} {key key' : Bytes} (h : r.isPastEnd key = true)
    (hle : key ≤ key') : r.isPastEnd key' = true := by
  rw [r.isPastEnd_eq, Bool.not_eq_true'] at h ⊢
  refine Bool.eq_false_iff.mpr fun hyes => ?_
  rw [Bound.admitsBelow_of_le hyes hle] at h
  cases h

/-- A key that is neither in a range nor behind it lies below its lower bound. -/
theorem lt_lower {r : KeyRange} {key : Bytes} (hnot : r.contains key = false)
    (hend : r.isPastEnd key = false) : ∃ lo ∈ r.lower, key < lo := by
  rw [r.isPastEnd_eq, Bool.not_eq_false'] at hend
  have hlower : ¬ r.lowerBound.admitsAbove key = true := fun hyes => by
    have := (r.admits_bounds key).mp ⟨hyes, hend⟩
    simp [hnot] at this
  unfold lowerBound at hlower
  cases hlo : r.lower with
  | none => simp [hlo, Bound.admitsAbove] at hlower
  | some lo =>
    rw [hlo] at hlower
    exact ⟨lo, rfl, by simpa [Bound.admitsAbove] using hlower⟩

end KeyRange

/-! ## Cursors -/

/-- A refill leaves a cursor with ends that make an interval: if it moves the lower end at all, then
behind a chain that the upper end admitted. -/
theorem Cursor.spans_refill {e : Engine} {cursor cursor' : Cursor}
    (h : cursor.resume.Spans cursor.upper) (hr : e.refill cursor = .ok cursor') :
    cursor'.resume.Spans cursor'.upper := by
  obtain ⟨chunk, rfl, visited, rfl, ⟨last, hlast, rfl⟩ | ⟨-, rfl⟩⟩ := Engine.refill_eq_ok hr
  · have hmem : last ∈ e.unread cursor := List.mem_of_mem_take (List.mem_of_getLast? hlast)
    exact Bound.spans_excluded (KeyMap.mem_within.mp hmem).2.2
  · exact h

/-- A refill stays in its column. -/
theorem Cursor.column_refill {e : Engine} {cursor cursor' : Cursor}
    (hr : e.refill cursor = .ok cursor') : cursor'.column = cursor.column := by
  obtain ⟨chunk, rfl, visited, rfl, ⟨last, hlast, rfl⟩ | ⟨-, rfl⟩⟩ := Engine.refill_eq_ok hr <;> rfl

namespace Reader

/-- The cursor of a reader can cut its next chunk out of a column. -/
structure CanCut (r : Reader) (l : Ledger) : Prop where
  /-- The column exists. -/
  column_lt : r.cursor.column < l.names.length
  /-- The ends of the cursor make an interval. -/
  spans : r.cursor.resume.Spans r.cursor.upper

variable {r : Reader} {l l' : Ledger}

/-- A cursor can cut its column however the ledger grows: no column goes. -/
theorem CanCut.mono (h : r.CanCut l) (hgrows : l.Grows l') : r.CanCut l' :=
  ⟨Nat.lt_of_lt_of_le h.column_lt hgrows.names, h.spans⟩

/-- Every turn leaves the next chunk to be cut out. -/
theorem CanCut.turn (h : r.CanCut l) (e : Engine) : (r.turn e).CanCut l := by
  unfold Reader.turn
  split
  · exact ⟨h.column_lt, h.spans⟩
  · split
    · exact ⟨h.column_lt, h.spans⟩
    · split
      · rename_i cursor hr
        refine ⟨?_, Cursor.spans_refill h.spans hr⟩
        rw [Cursor.column_refill hr]
        exact h.column_lt
      · exact ⟨h.column_lt, h.spans⟩

/-- Asking for the next entry is a number of turns. -/
theorem CanCut.advance (h : r.CanCut l) (e : Engine) : (r.advance e).CanCut l := by
  obtain ⟨k, -, hturns⟩ := r.advance_eq_turns e
  rw [hturns]
  exact Function.Iterate.rec (CanCut · l) h (fun _ hr => hr.turn e) (k + 1)

end Reader

namespace Session

variable {s : Session}

/-- A new reader starts with the ends of its range. -/
private theorem canCut_openedBy (h : s.engine.Agrees s.ledger) (c : EngineCall) :
    ∀ r ∈ openedBy s.ledger c (s.engine.answer c).1, r.CanCut s.ledger := by
  intro r hr
  obtain ⟨n, c, range, q, hc, -, -, rfl⟩ := eq_of_mem_openedBy h hr
  refine ⟨?_, range.spans_bounds⟩
  rw [h.length_names]
  exact (List.getElem?_eq_some_iff.mp hc).1

/-- Whatever the clients do, every reader can cut out its next chunk. -/
theorem canCut_step (s : Session) (a : Act) (hagrees : s.engine.Agrees s.ledger)
    (h : ∀ r ∈ s.readers, r.CanCut s.ledger) :
    ∀ r ∈ (s.step a).readers, r.CanCut (s.step a).ledger :=
  forall_readers_step s a (fun _ _ hr => hr.mono) (canCut_openedBy hagrees)
    (fun _ _ _ hr => ⟨hr.advance s.engine, hr.turn s.engine⟩)
    (fun _ hr => ⟨hr.column_lt, hr.spans⟩) h

/-- After any acts, every reader can cut out its next chunk. -/
theorem canCut_run (options : Engine.Options) (acts : List Act) :
    ∀ r ∈ (run options acts).readers, r.CanCut (run options acts).ledger := by
  have hboth := run_induction
    (P := fun s => s.engine.Agrees s.ledger ∧ ∀ r ∈ s.readers, r.CanCut s.ledger)
    ⟨Engine.agrees_new options, by simp [start]⟩
    (fun s a h => ⟨agrees_step s a h.1, canCut_step s a h.1 h.2⟩) acts
  exact hboth.2

/-- **The ends of a range are faithful, and no cursor asks a map for anything but an interval.**  The
keys between the ends of a range are its keys; none of them lies behind it; what lies above a key
behind it lies behind it too; and what is neither in it nor behind it lies below its lower bound.

The ends of a range make an interval, which is all that range deletions ask for.  So do the ends of
every cursor, with chunks of any size and after any acts of any clients: a map that refuses other
ends answers what the cursor reads.  A call for the next entry is made of turns, so every chunk is
read from such a state. -/
theorem bounds_faithful :
    (∀ range : KeyRange, range.lowerBound.Spans range.upperBound ∧ ∀ key : Bytes,
      (range.lowerBound.admitsAbove key ∧ range.upperBound.admitsBelow key ↔ range.contains key) ∧
      ¬ (range.isPastEnd key ∧ range.contains key) ∧
      (range.isPastEnd key → ∀ key', key ≤ key' → range.isPastEnd key') ∧
      (¬ range.contains key → ¬ range.isPastEnd key → ∃ lo ∈ range.lower, key < lo)) ∧
    ∀ (options : Engine.Options) (acts : List Act), ∀ r ∈ (run options acts).readers,
      r.cursor.resume.Spans r.cursor.upper ∧
      ∃ c, (run options acts).engine.columns[r.cursor.column]? = some c ∧
        c.chains.cut? r.cursor.resume r.cursor.upper
          = some ((run options acts).engine.unread r.cursor) := by
  refine ⟨fun range => ⟨range.spans_bounds, fun key => ?keys⟩, fun options acts r hr => ?cursor⟩
  case keys =>
    refine ⟨range.admits_bounds key, ?_, fun hend key' hle => KeyRange.isPastEnd_of_le hend hle,
      fun hnot hend => KeyRange.lt_lower (by simpa using hnot) (by simpa using hend)⟩
    rintro ⟨hend, hcontains⟩
    simp [KeyRange.not_contains_of_isPastEnd hend] at hcontains
  case cursor =>
    have hcut := canCut_run options acts r hr
    have hagrees := agrees_run options acts
    -- Columns are never removed, so the column of the cursor is still there.
    have hlt : r.cursor.column < (run options acts).engine.columns.length :=
      hagrees.length_names ▸ hcut.column_lt
    have hc := List.getElem?_eq_getElem hlt
    refine ⟨hcut.spans, _, hc, ?_⟩
    rw [(hagrees.represents.shows _ _ hc).sorted.cut?_eq hcut.spans, Engine.unread, hc]
    rfl

/-- A cursor over the single key `1` that reads one chain at a time goes on behind that very key,
and ends with it.  Its ends stand at one key and still make an interval, which is empty. -/
theorem bounds_faithful_behind_single :
    let scheme : Filter.Scheme :=
      ⟨fun key => (key.length.toUInt64, 0), fun _ => ⟨64, 1, by decide, by decide⟩⟩
    let acts : List Act := [.call (.createColumn "a"), .call (.put 0 [1] [10]),
      .call (.scan 0 .latest (.single [1])), .turn 0]
    let s := run { cursorChunk := 1, scheme } acts
    ∃ r c, s.readers[0]? = some r ∧ s.engine.columns[r.cursor.column]? = some c ∧
      r.cursor.resume = .excluded [1] ∧ r.cursor.upper = .included [1] ∧
      r.cursor.isExhausted = false ∧ r.cursor.resume.Spans r.cursor.upper ∧
      c.chains.cut? r.cursor.resume r.cursor.upper = some (s.engine.unread r.cursor) := by
  intro scheme acts s
  obtain ⟨r, hr, hcursor⟩ := Option.map_eq_some_iff.mp
    (by decide +kernel : s.readers[0]?.map
      (fun r => (r.cursor.resume, r.cursor.upper, r.cursor.isExhausted))
        = some (.excluded [1], .included [1], false))
  obtain ⟨hspans, c, hc, hcut⟩ :=
    bounds_faithful.2 { cursorChunk := 1, scheme } acts r (List.mem_of_getElem? hr)
  simp only [Prod.mk.injEq] at hcursor
  exact ⟨r, c, hr, hc, hcursor.1, hcursor.2.1, hcursor.2.2, hspans, hcut⟩

end Session

end SnapshotStore
