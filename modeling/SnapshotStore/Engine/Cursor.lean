import SnapshotStore.Engine.Basic

/-!
# Cursors

A cursor walks the entries of a range as they were at the sequence that it pins.  It reads the
column a chunk of chains at a time and holds the entries of the last chunk that were not asked for
yet; between chunks it only remembers where to go on.  Dropping a cursor takes its pin away
(`Engine.unpin`).

* `Engine.scan` — opens a cursor.
* `Engine.next` — its next entry.
-/

namespace SnapshotStore

/-- A walk through the entries of a range at a pinned sequence. -/
structure Cursor where
  /-- The column. -/
  column : Nat
  /-- The pinned sequence. -/
  sequence : Nat
  /-- Where the next chunk starts. -/
  resume : Bound
  /-- Where the walk ends. -/
  upper : Bound
  /-- Entries that were read and not asked for yet. -/
  buffer : List Entry
  /-- Whether there are no more chunks. -/
  isExhausted : Bool
  /-- More than the number of entries that the walk has. -/
  budget : Nat
  deriving DecidableEq

namespace Engine

/-- Opens a cursor; the newest state is pinned, an older one has to be pinned already and gets one
more pin. -/
def scan (e : Engine) (n : Nat) (view : ReadView) (range : KeyRange) :
    Except EngineError (Cursor × Engine) := do
  let c ← e.column n
  let s ← match view with
    | .latest => pure e.sequence
    | .at s => (fun _ => s) <$> e.checkPinned s
  let cursor : Cursor :=
    { column := n, sequence := s, resume := range.lowerBound, upper := range.upperBound
      buffer := [], isExhausted := false, budget := c.chains.length + 1 }
  return (cursor, e.pin s)

/-! ## Reading chunks -/

/-- The chains that a cursor has not visited yet. -/
def unread (e : Engine) (cursor : Cursor) : KeyMap Chain :=
  KeyMap.within (((e.columns[cursor.column]?).map (·.chains)).getD []) cursor.resume cursor.upper

/-- The number of chains that a cursor visits at a time, at least one. -/
def chunkSize (e : Engine) : Nat := max e.options.cursorChunk 1

/-- Reads one chunk.  The walk goes on behind the last key of a full chunk, and ends with a chunk
that is not full. -/
def refill (e : Engine) (cursor : Cursor) : Except EngineError Cursor := do
  e.checkOpen
  let chunk := (e.unread cursor).take e.chunkSize
  let cursor :=
    { cursor with
      buffer := cursor.buffer ++ KeyMap.visibleEntries chunk (.at cursor.sequence) }
  match chunk.getLast? with
  | some (key, _) =>
    if chunk.length = e.chunkSize then return { cursor with resume := .excluded key }
    else return { cursor with isExhausted := true }
  | none => return { cursor with isExhausted := true }

/-- More than the number of chunks that a cursor can still read. -/
def chunksLeft (e : Engine) (cursor : Cursor) : Nat :=
  if cursor.isExhausted then 0 else (e.unread cursor).length + 1

/-- What a refill does: it visits the next chunk, and a full chunk leaves more to be read behind its
last key. -/
theorem refill_eq_ok {e : Engine} {cursor cursor' : Cursor} (h : e.refill cursor = .ok cursor') :
    ∃ chunk, chunk = (e.unread cursor).take e.chunkSize ∧
      ∃ visited : Cursor, visited = { cursor with
          buffer := cursor.buffer ++ KeyMap.visibleEntries chunk (.at cursor.sequence) } ∧
        ((∃ last ∈ chunk.getLast?, cursor' = { visited with resume := .excluded last.1 }) ∨
          (chunk.length < e.chunkSize ∧ cursor' = { visited with isExhausted := true })) := by
  have hlen : ((e.unread cursor).take e.chunkSize).length ≤ e.chunkSize := by
    simp only [List.length_take]; omega
  refine ⟨_, rfl, _, rfl, ?_⟩
  unfold refill checkOpen at h
  generalize hc : (e.unread cursor).take e.chunkSize = chunk at h hlen ⊢
  cases hclosed : e.isClosed with
  | true => simp [hclosed, bind, Except.bind] at h
  | false =>
    simp only [hclosed, bind, Except.bind, pure, Except.pure] at h
    cases hlast : chunk.getLast? with
    | none =>
      have hnil : chunk = [] := List.getLast?_eq_none_iff.mp hlast
      have hpos : 0 < e.chunkSize := by unfold chunkSize; omega
      simp only [hlast] at h
      exact .inr ⟨by simpa [hnil] using hpos, by simpa using h.symm⟩
    | some last =>
      simp only [hlast] at h
      by_cases hfull : chunk.length = e.chunkSize
      · exact .inl ⟨last, by simp, by simpa [hfull] using h.symm⟩
      · exact .inr ⟨by omega, by simpa [hfull] using h.symm⟩

/-- What was not read yet lies behind the resume bound. -/
theorem admitsAbove_of_mem_unread {e : Engine} {cursor : Cursor} {x : Bytes × Chain}
    (hx : x ∈ e.unread cursor) : cursor.resume.admitsAbove x.1 = true :=
  ((Bool.and_eq_true _ _).mp (List.mem_filter.mp hx).2).1

/-- Behind a chain that was to be read, the walk goes on with those that were to be read and lie
behind it. -/
theorem unread_resume {e : Engine} {cursor : Cursor} {last : Bytes × Chain}
    (hlast : last ∈ e.unread cursor) :
    e.unread { cursor with resume := .excluded last.1 }
      = (e.unread cursor).filter fun x => last.1 < x.1 := by
  have hadmits := admitsAbove_of_mem_unread hlast
  unfold unread KeyMap.within
  rw [List.filter_filter]
  refine List.filter_congr fun x _ => ?_
  rw [Bound.admitsAbove_excluded]
  by_cases hlt : last.1 < x.1
  · simp [hlt, Bound.admitsAbove_of_lt hadmits hlt]
  · simp [hlt]

/-- Reading a chunk brings the end of the walk closer, since its last chain is not read again. -/
theorem chunksLeft_refill {e : Engine} {cursor cursor' : Cursor} (h : e.refill cursor = .ok cursor')
    (hx : cursor.isExhausted = false) : e.chunksLeft cursor' < e.chunksLeft cursor := by
  obtain ⟨chunk, rfl, visited, rfl, ⟨last, hlast, rfl⟩ | ⟨-, rfl⟩⟩ := refill_eq_ok h
  · have hmem : last ∈ e.unread cursor := List.mem_of_mem_take (List.mem_of_getLast? hlast)
    have hshrink : ((e.unread cursor).filter fun x => last.1 < x.1).length
        < (e.unread cursor).length :=
      List.length_filter_lt_length_iff_exists.mpr ⟨last, hmem, by simp [List.lt_irrefl]⟩
    rw [← unread_resume hmem] at hshrink
    simpa [chunksLeft, hx, unread] using hshrink
  · simp [chunksLeft, hx]

/-- The next entry of a cursor, or nothing at its end. -/
def next (e : Engine) (cursor : Cursor) : Except EngineError (Option Entry × Cursor) :=
  match cursor.buffer with
  | entry :: rest => .ok (some entry, { cursor with buffer := rest })
  | [] =>
    if _hx : cursor.isExhausted then .ok (none, cursor)
    else
      match _hr : e.refill cursor with
      | .ok cursor' => e.next cursor'
      | .error err => .error err
termination_by e.chunksLeft cursor
decreasing_by exact chunksLeft_refill _hr (by simpa using _hx)

/-- The next entries of a cursor, at most `n`, with what came in place of a further one: the end, or
a failure. -/
def nextMany (e : Engine) : Nat → Cursor → List Entry × Option (Except EngineError Unit) × Cursor
  | 0, cursor => ([], none, cursor)
  | n + 1, cursor =>
    match e.next cursor with
    | .ok (some entry, cursor) =>
      let (entries, r) := e.nextMany n cursor
      (entry :: entries, r)
    | .ok (none, cursor) => ([], some (.ok ()), cursor)
    | .error failure => ([], some (.error failure), cursor)

end Engine

end SnapshotStore
