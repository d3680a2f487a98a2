import Mathlib.Data.List.Sort
import SnapshotStore.Proofs.Engine.Calls
import SnapshotStore.Proofs.Engine.Representation

/-!
# What a cursor still has to yield

A cursor over the entries of a range still has to yield its buffer and, unless it is exhausted, the
entries behind its resume bound (`Cursor.rest`).  A refill moves entries from the second part to the
first and changes nothing else (`Cursor.Walks.refill`), so the next answer of a cursor is the first
of them, and what is left are the others (`Cursor.Walks.next`).

All this needs of the engine is that the column shows the same state at the sequence of the cursor
(`Engine.ShowsAt`), however its chains were changed since the last chunk.
-/

namespace SnapshotStore

namespace KeyMap

variable {α : Type}

/-- Ordered maps with the same bindings are equal. -/
theorem Sorted.eq_of_mem_iff {m m' : KeyMap α} (h : m.Sorted) (h' : m'.Sorted)
    (hmem : ∀ e, e ∈ m ↔ e ∈ m') : m = m' := by
  have hirrefl : Std.Irrefl fun x y : Bytes × α => x.1 < y.1 := ⟨fun x => List.lt_irrefl x.1⟩
  have hantisymm : Std.Antisymm fun x y : Bytes × α => x.1 < y.1 :=
    ⟨fun x y hxy hyx => absurd (List.lt_trans hxy hyx) (List.lt_irrefl x.1)⟩
  exact List.Pairwise.eq_of_mem_iff h h' hmem

/-- Behind the last of the first bindings are the remaining ones. -/
theorem Sorted.filter_behind {m : KeyMap α} (h : m.Sorted) {n : Nat} {last : Bytes × α}
    (hlast : last ∈ (m.take n).getLast?) : m.filter (fun x => last.1 < x.1) = m.drop n := by
  obtain ⟨front, hfront⟩ := List.getLast?_eq_some_iff.mp hlast
  have hsplit : m = (front ++ [last]) ++ m.drop n := by rw [← hfront, List.take_append_drop]
  have hsorted : List.Pairwise (fun x y => x.1 < y.1) ((front ++ [last]) ++ m.drop n) :=
    hsplit ▸ h
  obtain ⟨hfirst, -, hcross⟩ := List.pairwise_append.mp hsorted
  -- The first `n` entries end with the last one, and no key among them is above its key.
  have hnone : (front ++ [last]).filter (fun x => decide (last.1 < x.1)) = [] := by
    refine List.filter_eq_nil_iff.mpr fun x hx => ?_
    rcases List.mem_append.mp hx with hx | hx
    · have hlt : x.1 < last.1 := (List.pairwise_append.mp hfirst).2.2 x hx last (by simp)
      simpa using List.le_of_lt hlt
    · simp [List.mem_singleton.mp hx]
  -- All entries behind them are above it.
  have hall : (m.drop n).filter (fun x => decide (last.1 < x.1)) = m.drop n :=
    List.filter_eq_self.mpr fun x hx => by simpa using hcross last (by simp) x hx
  conv_lhs => rw [hsplit]
  rw [List.filter_append, hnone, hall, List.nil_append]

/-- Entries that a view sees come in the order of the keys. -/
theorem Sorted.visibleEntries {chains : KeyMap Chain} (h : chains.Sorted) (view : ReadView) :
    (chains.visibleEntries view).Pairwise fun x y => x.1 < y.1 :=
  h.filterMap (Chain.valueAt · view)

end KeyMap

/-- The visible entries of an interval of a column. -/
theorem Column.mem_visibleEntries {c : Column} (h : c.chains.Sorted) {lo hi : Bound}
    {view : ReadView} {key value : Bytes} :
    (key, value) ∈ (c.chains.within lo hi).visibleEntries view
      ↔ c.valueAt view key = some value ∧ lo.admitsAbove key ∧ hi.admitsBelow key := by
  have hmem : (key, value) ∈ (c.chains.within lo hi).visibleEntries view
      ↔ ∃ chain, (key, chain) ∈ c.chains.within lo hi ∧ Chain.valueAt chain view = some value :=
    KeyMap.mem_filterMap (f := (Chain.valueAt · view))
  rw [hmem]
  unfold valueAt chain
  constructor
  · rintro ⟨chain, hmem, hvalue⟩
    obtain ⟨hmem, hbounds⟩ := KeyMap.mem_within.mp hmem
    rw [(KeyMap.get?_eq_some_iff h).mpr hmem]
    exact ⟨hvalue, hbounds⟩
  · rintro ⟨hvalue, hbounds⟩
    cases hget : c.chains.get? key with
    | none =>
      rw [hget, Option.getD_none, Chain.valueAt_nil] at hvalue
      simp at hvalue
    | some chain =>
      rw [hget] at hvalue
      exact ⟨chain, KeyMap.mem_within.mpr ⟨KeyMap.mem_of_get? hget, hbounds⟩, hvalue⟩

namespace Engine

/-- A column shows some contents at a sequence. -/
def ShowsAt (e : Engine) (n s : Nat) (m : Contents) : Prop :=
  ∃ c, e.columns[n]? = some c ∧ c.chains.Sorted ∧ ∀ key, c.valueAt (.at s) key = m key

variable {e : Engine} {n s : Nat}

/-- An engine shows the state of every sequence that it has to answer readers at. -/
theorem Represents.showsAt {h : History} {c : Column} (hr : e.Represents h)
    (hc : e.columns[n]? = some c) (hs : e.pruneThreshold ≤ s) (hle : s ≤ e.sequence) :
    e.ShowsAt n s (h.contents s n) :=
  ⟨c, hc, (hr.shows n c hc).sorted, hr.valueAt_at hc hs hle⟩

/-- What a column shows of a range can be listed. -/
theorem ShowsAt.exists_lists {m : Contents} (h : e.ShowsAt n s m) (range : KeyRange) :
    ∃ entries, m.Lists range entries := by
  obtain ⟨c, -, hsorted, hvalue⟩ := h
  refine ⟨(c.chains.within range.lowerBound range.upperBound).visibleEntries (.at s),
    (hsorted.within _ _).visibleEntries _, fun key value => ?_⟩
  rw [Column.mem_visibleEntries hsorted, hvalue, range.admits_bounds, and_comm]

end Engine

namespace Cursor

/-- The entries that a cursor over some entries still has to yield. -/
def rest (cursor : Cursor) (entries : List Entry) : List Entry :=
  cursor.buffer ++
    if cursor.isExhausted then [] else entries.filter (cursor.resume.admitsAbove ·.1)

/-- A cursor walks through a range of a column at a sequence. -/
structure Walks (cursor : Cursor) (n s : Nat) (range : KeyRange) : Prop where
  /-- The column. -/
  column_eq : cursor.column = n
  /-- The sequence. -/
  sequence_eq : cursor.sequence = s
  /-- The walk ends where the range ends. -/
  upper_eq : cursor.upper = range.upperBound
  /-- The walk never goes back before the range. -/
  lower : ∀ key, cursor.resume.admitsAbove key → range.lowerBound.admitsAbove key

variable {e : Engine} {cursor cursor' : Cursor} {n s : Nat} {range : KeyRange} {m : Contents}
  {entries : List Entry}

/-- A new cursor has its whole range before it. -/
theorem walks_cursorAt (n : Nat) (c : Column) (range : KeyRange) (s : Nat) :
    (Engine.cursorAt n c range s).Walks n s range := ⟨rfl, rfl, rfl, fun _ h => h⟩

/-- A new cursor has to yield all entries of its range. -/
theorem rest_cursorAt (c : Column) (hentries : m.Lists range entries) :
    (Engine.cursorAt n c range s).rest entries = entries := by
  refine List.filter_eq_self.mpr fun entry hentry => ?_
  have hmem := (hentries.mem_iff entry.1 entry.2).mp hentry
  exact (range.admits_bounds entry.1).mpr hmem.1 |>.1

/-- What is visible in the chains that were not read yet are the entries behind the resume bound. -/
theorem Walks.visibleEntries_unread (hw : cursor.Walks n s range) (he : e.ShowsAt n s m)
    (hentries : m.Lists range entries) :
    (e.unread cursor).visibleEntries (.at s)
      = entries.filter (cursor.resume.admitsAbove ·.1) := by
  obtain ⟨c, hc, hsorted, hvalue⟩ := he
  have hunread : e.unread cursor = c.chains.within cursor.resume cursor.upper := by
    rw [Engine.unread, hw.column_eq, hc]
    rfl
  rw [hunread]
  -- Both sides are sorted, so it is enough that they have the same members.
  refine KeyMap.Sorted.eq_of_mem_iff ((hsorted.within _ _).visibleEntries _)
    (List.Pairwise.filter _ hentries.sorted) fun entry => ?_
  obtain ⟨key, value⟩ := entry
  rw [Column.mem_visibleEntries hsorted, hvalue, List.mem_filter, hentries.mem_iff,
    ← range.admits_bounds, hw.upper_eq]
  constructor
  · rintro ⟨hm, hresume, hupper⟩
    exact ⟨⟨⟨hw.lower key hresume, hupper⟩, hm⟩, hresume⟩
  · rintro ⟨⟨⟨-, hupper⟩, hm⟩, hresume⟩
    exact ⟨hm, hresume, hupper⟩

/-- A cursor that resumes behind a chain that it read never goes back. -/
private theorem Walks.resume_behind (hw : cursor.Walks n s range) {last : Bytes × Chain}
    (hlast : last ∈ e.unread cursor) (buffer : List Entry) :
    ({ cursor with buffer, resume := .excluded last.1 } : Cursor).Walks n s range := by
  refine ⟨hw.column_eq, hw.sequence_eq, hw.upper_eq, fun key hkey => hw.lower key ?_⟩
  have hadmits : cursor.resume.admitsAbove last.1 = true := Engine.admitsAbove_of_mem_unread hlast
  rw [Bound.admitsAbove_excluded] at hkey
  exact Bound.admitsAbove_of_lt hadmits (by simpa using hkey)

/-- Behind the last chain of a chunk are the chains that the chunk left. -/
private theorem Walks.unread_behind (hw : cursor.Walks n s range) (he : e.ShowsAt n s m)
    {last : Bytes × Chain} (hlast : ((e.unread cursor).take e.chunkSize).getLast? = some last)
    (buffer : List Entry) :
    e.unread { cursor with buffer, resume := .excluded last.1 }
      = (e.unread cursor).drop e.chunkSize := by
  obtain ⟨c, hc, hsorted, -⟩ := he
  have hunread : (e.unread cursor).Sorted := by
    rw [Engine.unread, hw.column_eq, hc]
    exact hsorted.within _ _
  rw [← hunread.filter_behind hlast]
  exact Engine.unread_resume (List.mem_of_mem_take (List.mem_of_getLast? hlast))

/-- A refill changes nothing of what a cursor has to yield. -/
theorem Walks.refill (hw : cursor.Walks n s range) (he : e.ShowsAt n s m)
    (hentries : m.Lists range entries) (hx : cursor.isExhausted = false)
    (hr : e.refill cursor = .ok cursor') :
    cursor'.Walks n s range ∧ cursor'.rest entries = cursor.rest entries := by
  have hvisible := hw.visibleEntries_unread he hentries
  obtain ⟨chunk, hchunk, visited, rfl, ⟨last, hlast, rfl⟩ | ⟨hshort, rfl⟩⟩ := Engine.refill_eq_ok hr
  · -- A full chunk: the resume bound moves behind its last chain.
    rw [hchunk] at hlast
    have hmem : last ∈ e.unread cursor := List.mem_of_mem_take (List.mem_of_getLast? hlast)
    have hw' := hw.resume_behind hmem
      (cursor.buffer ++ KeyMap.visibleEntries chunk (.at cursor.sequence))
    have hbehind := hw'.visibleEntries_unread he hentries
    rw [hw.unread_behind he hlast] at hbehind
    refine ⟨hw', ?_⟩
    -- What the chunk put into the buffer and what is behind it make up what was to be read.
    simp only [rest, hx, Bool.false_eq_true, if_false]
    rw [← hbehind, ← hvisible, List.append_assoc, hw.sequence_eq, hchunk]
    unfold KeyMap.visibleEntries
    rw [← List.filterMap_append, List.take_append_drop]
  · -- A chunk that is not full holds all that was to be read.
    have hall : chunk = e.unread cursor := by
      rw [hchunk] at hshort ⊢
      refine List.take_of_length_le ?_
      simp only [List.length_take] at hshort
      omega
    refine ⟨⟨hw.column_eq, hw.sequence_eq, hw.upper_eq, hw.lower⟩, ?_⟩
    simp only [rest, hx, Bool.false_eq_true, if_false, if_true, List.append_nil]
    rw [hall, hw.sequence_eq, hvisible]

/-- An engine refuses to refill a cursor only when it is closed. -/
theorem refill_eq_error {failure : EngineError} (hr : e.refill cursor = .error failure) :
    failure = .closed ∧ e.isClosed = true := by
  cases hclosed : e.isClosed with
  | true =>
    rw [Engine.refill, Engine.checkOpen_of_closed hclosed] at hr
    exact ⟨(Except.error.inj hr).symm, rfl⟩
  | false =>
    simp only [Engine.refill, Engine.checkOpen_of_open hclosed, bind, Except.bind, pure,
      Except.pure] at hr
    repeat' split at hr
    all_goals simp at hr

/-- Only an open engine refills a cursor. -/
theorem isClosed_of_refill (hr : e.refill cursor = .ok cursor') : e.isClosed = false := by
  cases hclosed : e.isClosed with
  | true => simp [Engine.refill, Engine.checkOpen_of_closed hclosed, bind, Except.bind] at hr
  | false => rfl

/-- An open engine always has an answer. -/
theorem exists_next_eq_ok (hopen : e.isClosed = false) (cursor : Cursor) :
    ∃ answer, e.next cursor = .ok answer := by
  fun_induction Engine.next e cursor with
  | case1 cursor entry buffer hbuffer => exact ⟨_, rfl⟩
  | case2 cursor hbuffer hx => exact ⟨_, rfl⟩
  | case3 cursor hbuffer hx cursor' hr ih => exact ih
  | case4 cursor hbuffer hx failure hr => exact absurd (refill_eq_error hr).2 (by simp [hopen])

/-- An entry in the buffer is the first one that the cursor still has to yield. -/
theorem rest_of_buffer {entry : Entry} {buffer : List Entry}
    (hbuffer : cursor.buffer = entry :: buffer) (entries : List Entry) :
    cursor.rest entries = entry :: ({ cursor with buffer } : Cursor).rest entries := by
  unfold rest
  rw [hbuffer, List.cons_append]

/-- At the end of the walk nothing is left. -/
theorem rest_of_exhausted (hbuffer : cursor.buffer = []) (hx : cursor.isExhausted = true)
    (entries : List Entry) : cursor.rest entries = [] := by
  simp [rest, hbuffer, hx]

/-- The next answer of a cursor is the first entry that it still has to yield, and the others are
left; only a closed engine refuses it. -/
theorem Walks.next (hw : cursor.Walks n s range) (he : e.ShowsAt n s m)
    (hentries : m.Lists range entries) :
    (e.next cursor = .error .closed ∧ e.isClosed = true) ∨
      ∃ cursor' : Cursor, e.next cursor = .ok ((cursor.rest entries).head?, cursor') ∧
        cursor'.Walks n s range ∧ cursor'.rest entries = (cursor.rest entries).tail := by
  fun_induction Engine.next e cursor with
  | case1 cursor entry buffer hbuffer =>
    rw [rest_of_buffer hbuffer]
    exact .inr ⟨_, rfl, ⟨hw.column_eq, hw.sequence_eq, hw.upper_eq, hw.lower⟩, rfl⟩
  | case2 cursor hbuffer hx =>
    have hrest := rest_of_exhausted hbuffer hx entries
    rw [hrest]
    exact .inr ⟨cursor, rfl, hw, hrest⟩
  | case3 cursor hbuffer hx cursor' hr ih =>
    -- A chunk was read without an entry in it, and the cursor asks again from where it stands then.
    obtain ⟨hw', hrest⟩ := hw.refill he hentries (by simpa using hx) hr
    rw [← hrest]
    exact ih hw'
  | case4 cursor hbuffer hx failure hr =>
    obtain ⟨rfl, hclosed⟩ := refill_eq_error hr
    exact .inl ⟨rfl, hclosed⟩

end Cursor

end SnapshotStore
