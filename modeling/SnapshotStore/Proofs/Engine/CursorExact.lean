import SnapshotStore.Proofs.Engine.Cursor
import SnapshotStore.Proofs.Engine.Refinement

/-!
# Cursors are exact and stable

A cursor that was opened at a sequence answers the entries of that state, one after the other and
then none for ever, whatever is written, compacted, pinned and released between its answers.

The invariant of a reader (`Reader.Exact`) ties its answers so far and what its cursor still has to
yield to the list of all entries.  It is kept as long as the sequence of an open reader stays
pinned.  Pins are counted for that: an engine holds a pin for every snapshot that was not released
and for every open cursor (`Session.Paid`), and this is where releases have to be matched.
-/

namespace SnapshotStore

/-! ## Growing ledgers -/

/-- A later ledger of the same engine. -/
structure Ledger.Grows (l l' : Ledger) : Prop where
  /-- Batches were added at the end. -/
  history : ∃ more, l'.history = l.history ++ more
  /-- Columns were added at the end. -/
  names : l.names.length ≤ l'.names.length
  /-- A closed engine stays closed. -/
  isClosed : l.isOpen = false → l'.isOpen = false

namespace Ledger

variable {l l' : Ledger}

/-- A ledger grows into itself. -/
theorem grows_refl (l : Ledger) : l.Grows l := ⟨⟨[], by simp⟩, Nat.le_refl _, id⟩

/-- A commit is put behind all others. -/
theorem grows_commit (l : Ledger) (n : Nat) (batch : WriteBatch) : l.Grows (l.commit n batch) := by
  unfold commit
  split
  · exact ⟨⟨_, rfl⟩, Nat.le_refl _, id⟩
  · exact l.grows_refl

/-- No call takes a commit or a column back. -/
theorem grows_call (l : Ledger) (c : EngineCall) : l.Grows (l.call c) := by
  cases c with
  | createColumn name =>
    rw [call]
    split
    · exact ⟨⟨[], by simp⟩, by simp, id⟩
    · exact l.grows_refl
  | put n key value => exact l.grows_commit n _
  | delete n key => exact l.grows_commit n _
  | write n batch => exact l.grows_commit n batch
  | get n view key => exact l.grows_refl
  | mayContain n key => exact l.grows_refl
  | scan n view range => exact l.grows_refl
  | next cursor => exact l.grows_refl
  | estimate n => exact l.grows_refl
  | snapshot => exact l.grows_refl
  | compact n => exact l.grows_refl
  | flush => exact l.grows_refl

/-- To close a ledger changes nothing that was written. -/
theorem grows_close (l : Ledger) : l.Grows l.close :=
  ⟨⟨[], by simp [close]⟩, Nat.le_refl _, fun _ => rfl⟩

/-- A ledger that has grown has no fewer commits. -/
theorem Grows.length_le (h : l.Grows l') : l.history.length ≤ l'.history.length := by
  obtain ⟨more, hmore⟩ := h.history
  simp [hmore]

/-- What has grown twice has grown. -/
theorem Grows.trans {l'' : Ledger} (h : l.Grows l') (h' : l'.Grows l'') : l.Grows l'' := by
  obtain ⟨more, hmore⟩ := h.history
  obtain ⟨more', hmore'⟩ := h'.history
  exact ⟨⟨more ++ more', by rw [hmore', hmore, List.append_assoc]⟩, h.names.trans h'.names,
    fun hclosed => h'.isClosed (h.isClosed hclosed)⟩

/-- An old state stays as it is. -/
theorem Grows.contents_eq (h : l.Grows l') {s : Nat} (hs : s ≤ l.history.length) (n : Nat) :
    l'.history.contents s n = l.history.contents s n := by
  obtain ⟨more, hmore⟩ := h.history
  rw [hmore, History.contents_append hs]

end Ledger

/-! ## Readers -/

namespace Reader

/-- The answers of a reader that were not refused. -/
def replies (r : Reader) : List (Option Entry) := r.answers.filterMap Except.toOption

/-- The answers of a list, one after the other: its entries, and then none. -/
def Answered (entries : List Entry) (replies : List (Option Entry)) : Prop :=
  ∀ (i : Nat) (answer : Option Entry), replies[i]? = some answer → answer = entries[i]?

/-- One answer more is the next entry, or none behind the last one. -/
theorem Answered.concat {entries : List Entry} {replies : List (Option Entry)}
    (h : Answered entries replies) :
    Answered entries (replies ++ [(entries.drop replies.length).head?]) := by
  intro i answer hanswer
  rcases Nat.lt_trichotomy i replies.length with hi | rfl | hi
  · rw [List.getElem?_append_left hi] at hanswer
    exact h i answer hanswer
  · simpa using hanswer.symm
  · rw [List.getElem?_eq_none (by simp only [List.length_append, List.length_singleton]; omega)]
      at hanswer
    simp at hanswer

/-- The answers of a reader are right, and its cursor still has what is missing. -/
structure Exact (r : Reader) (l : Ledger) : Prop where
  /-- The state that is read exists. -/
  sequence_le : r.sequence ≤ l.history.length
  /-- The column exists. -/
  column_lt : r.column < l.names.length
  /-- The cursor is one for the column, the state and the range. -/
  walks : r.cursor.Walks r.column r.sequence r.range
  /-- The answers so far and what is left are the entries of the range. -/
  listed : ∃ entries, (l.history.contents r.sequence r.column).Lists r.range entries ∧
    Answered entries r.replies ∧ r.cursor.rest entries = entries.drop r.replies.length
  /-- An answer is refused only when the engine is closed. -/
  refused : ∀ failure, .error failure ∈ r.answers → failure = .closed ∧ l.isOpen = false

variable {r : Reader} {l l' : Ledger} {e : Engine}

/-- An exact reader stays exact as the ledger grows: at its sequence the contents are the same. -/
theorem Exact.mono (h : r.Exact l) (hgrows : l.Grows l') : r.Exact l' where
  sequence_le := Nat.le_trans h.sequence_le hgrows.length_le
  column_lt := Nat.lt_of_lt_of_le h.column_lt hgrows.names
  walks := h.walks
  listed := by rw [hgrows.contents_eq h.sequence_le]; exact h.listed
  refused f hf := (h.refused f hf).imp_right hgrows.isClosed

/-- A dropped reader keeps its answers. -/
theorem Exact.drop (h : r.Exact l) : Exact { r with isOpen := false } l :=
  ⟨h.sequence_le, h.column_lt, h.walks, h.listed, h.refused⟩

/-- A reader answers the first of what is left. -/
private theorem Exact.reply (h : r.Exact l) {entries : List Entry} {cursor : Cursor}
    (hlists : (l.history.contents r.sequence r.column).Lists r.range entries)
    (hanswered : Answered entries r.replies)
    (hrest : r.cursor.rest entries = entries.drop r.replies.length)
    (hw : cursor.Walks r.column r.sequence r.range)
    (hcursor : cursor.rest entries = (r.cursor.rest entries).tail) :
    (r.answered (.ok (r.cursor.rest entries).head?) cursor).Exact l := by
  -- The answer is the first of the entries that were left, and one entry less is left behind it.
  have hreplies : (r.answered (.ok (r.cursor.rest entries).head?) cursor).replies
      = r.replies ++ [(r.cursor.rest entries).head?] := by
    simp [replies, answered, Except.toOption]
  refine ⟨h.sequence_le, h.column_lt, hw, ⟨entries, hlists, ?_, ?_⟩, fun failure hfailure => ?_⟩
  · rw [hreplies, hrest]
    exact hanswered.concat
  · rw [hreplies, List.length_append, List.length_singleton]
    refine hcursor.trans ?_
    rw [hrest, List.tail_drop]
  · exact h.refused failure (by simpa [answered] using hfailure)

/-- A closed engine refuses. -/
private theorem Exact.refuse (h : r.Exact l) (hclosed : l.isOpen = false) :
    (r.answered (.error .closed) r.cursor).Exact l := by
  have hreplies : (r.answered (.error .closed) r.cursor).replies = r.replies := by
    simp [replies, answered, Except.toOption]
  refine ⟨h.sequence_le, h.column_lt, h.walks, ?_, fun failure hfailure => ?_⟩
  · rw [hreplies]
    exact h.listed
  · rcases List.mem_append.mp hfailure with hfailure | hfailure
    · exact h.refused failure hfailure
    · exact ⟨by simpa using hfailure, hclosed⟩

/-- Asking for the next entry keeps a reader exact. -/
theorem Exact.advance (h : r.Exact l) (hagrees : e.Agrees l)
    (he : e.ShowsAt r.column r.sequence (l.history.contents r.sequence r.column)) :
    (r.advance e).Exact l := by
  obtain ⟨entries, hlists, hanswered, hrest⟩ := h.listed
  unfold Reader.advance
  rcases h.walks.next he hlists with ⟨hnext, hclosed⟩ | ⟨cursor, hnext, hw, hcursor⟩
  · rw [hnext]
    exact h.refuse (hagrees.isOpen_of_closed hclosed)
  · rw [hnext]
    exact h.reply hlists hanswered hrest hw hcursor

/-- One turn keeps a reader exact. -/
theorem Exact.turn (h : r.Exact l) (hagrees : e.Agrees l)
    (he : e.ShowsAt r.column r.sequence (l.history.contents r.sequence r.column)) :
    (r.turn e).Exact l := by
  obtain ⟨entries, hlists, hanswered, hrest⟩ := h.listed
  unfold Reader.turn
  split
  · -- An entry of the buffer is answered.
    rename_i entry buffer hbuffer
    have hfirst := Cursor.rest_of_buffer hbuffer entries
    have hw : ({ r.cursor with buffer } : Cursor).Walks r.column r.sequence r.range :=
      ⟨h.walks.column_eq, h.walks.sequence_eq, h.walks.upper_eq, h.walks.lower⟩
    have hreply := h.reply hlists hanswered hrest hw (by rw [hfirst]; rfl)
    rwa [hfirst] at hreply
  · rename_i hbuffer
    split
    · -- The end of the walk is answered.
      rename_i hx
      have hnone := Cursor.rest_of_exhausted hbuffer hx entries
      have hreply := h.reply hlists hanswered hrest h.walks (by rw [hnone]; rfl)
      rwa [hnone] at hreply
    · -- A chunk is read, and nothing is answered in this turn unless the engine is closed.
      rename_i hx
      split
      · rename_i cursor hr
        obtain ⟨hw, hsame⟩ := h.walks.refill he hlists (by simpa using hx) hr
        exact ⟨h.sequence_le, h.column_lt, hw, ⟨entries, hlists, hanswered, hsame.trans hrest⟩,
          h.refused⟩
      · rename_i failure hr
        obtain ⟨rfl, hclosed⟩ := Cursor.refill_eq_error hr
        exact h.refuse (hagrees.isOpen_of_closed hclosed)

end Reader

/-! ## Asking turn by turn -/

namespace Reader

/-- A turn neither drops a reader nor takes it to another state. -/
theorem turn_frame (r : Reader) (e : Engine) :
    (r.turn e).isOpen = r.isOpen ∧ (r.turn e).sequence = r.sequence := by
  unfold turn
  split
  · exact ⟨rfl, rfl⟩
  · split
    · exact ⟨rfl, rfl⟩
    · split <;> exact ⟨rfl, rfl⟩

/-- Asking for the next entry takes a bounded number of turns. -/
theorem advance_eq_turns (r : Reader) (e : Engine) :
    ∃ k ≤ e.chunksLeft r.cursor, r.advance e = (turn · e)^[k + 1] r := by
  induction hleft : e.chunksLeft r.cursor using Nat.strongRecOn generalizing r with
  | ind left ih =>
    unfold advance
    fun_cases Engine.next e r.cursor with
    | case1 entry buffer hbuffer =>
      refine ⟨0, Nat.zero_le _, ?_⟩
      simp [turn, hbuffer]
    | case2 hbuffer hx =>
      refine ⟨0, Nat.zero_le _, ?_⟩
      simp [turn, hbuffer, hx]
    | case3 hbuffer hx cursor' hr =>
      have hless := Engine.chunksLeft_refill hr (by simpa using hx)
      obtain ⟨k, hk, hturns⟩ := ih _ (hleft ▸ hless) { r with cursor := cursor' } rfl
      have hturn : r.turn e = { r with cursor := cursor' } := by simp [turn, hbuffer, hx, hr]
      refine ⟨k + 1, Nat.lt_of_le_of_lt hk (hleft ▸ hless), ?_⟩
      rw [Function.iterate_succ_apply, hturn, ← hturns]
      -- The engine is open, so the rest of the call is not refused.
      obtain ⟨answer, hanswer⟩ := Cursor.exists_next_eq_ok (Cursor.isClosed_of_refill hr) cursor'
      simp only [advance, hanswer, answered]
    | case4 hbuffer hx failure hr =>
      refine ⟨0, Nat.zero_le _, ?_⟩
      simp [turn, hbuffer, hx, hr]

end Reader

/-! ## Opening a cursor -/

/-- A scan that succeeds opens a cursor at the sequence of its view and pins it. -/
theorem Engine.Agrees.scan_eq_ok {e : Engine} {l : Ledger} (h : e.Agrees l) {n : Nat}
    {view : ReadView} {range : KeyRange} {opened : Cursor × Engine}
    (hscan : e.scan n view range = .ok opened) :
    ∃ c, e.columns[n]? = some c ∧
      opened = (cursorAt n c range (l.sequenceOf view), e.pin (l.sequenceOf view)) ∧
      e.pruneThreshold ≤ l.sequenceOf view ∧ l.sequenceOf view ≤ e.sequence := by
  cases hclosed : e.isClosed with
  | true => simp [scan_of_closed hclosed] at hscan
  | false =>
    cases hc : e.columns[n]? with
    | none => simp [scan_of_unknown hclosed hc] at hscan
    | some c =>
      refine ⟨c, rfl, ?_⟩
      -- The newest sequence is within the pins' bounds, and a sequence that is scanned is pinned
      -- already.
      cases view with
      | latest =>
        rw [scan_latest_of_open hclosed hc, h.represents.sequence_eq] at hscan
        have hle := e.pruneThreshold_le_sequence
        rw [h.represents.sequence_eq] at hle ⊢
        exact ⟨(Except.ok.inj hscan).symm, hle, Nat.le_refl _⟩
      | «at» s =>
        rw [scan_at_of_open hclosed hc] at hscan
        split at hscan
        · rename_i hs
          exact ⟨(Except.ok.inj hscan).symm, pruneThreshold_le_of_mem hs,
            h.represents.pins_le s hs⟩
        · simp at hscan

/-- A reader is opened by a scan that succeeds: its cursor stands before the range, at a sequence
that the engine has to answer readers at. -/
theorem Session.eq_of_mem_openedBy {e : Engine} {l : Ledger} (h : e.Agrees l) {call : EngineCall}
    {r : Reader} (hr : r ∈ openedBy l call (e.answer call).1) :
    ∃ n c range q, e.columns[n]? = some c ∧ e.pruneThreshold ≤ q ∧ q ≤ e.sequence ∧
      r = { column := n, range, sequence := q, cursor := Engine.cursorAt n c range q
            answers := [], isOpen := true } := by
  cases call with
  | scan n view range =>
    cases hscan : e.scan n view range with
    | error failure => simp [Engine.answer, Engine.both, hscan, openedBy] at hr
    | ok opened =>
      obtain ⟨c, hc, rfl, hthreshold, hle⟩ := h.scan_eq_ok hscan
      simp only [Engine.answer, Engine.both, hscan, openedBy, List.mem_singleton] at hr
      exact ⟨n, c, range, l.sequenceOf view, hc, hthreshold, hle, hr⟩
  | _ => simp [openedBy] at hr

/-! ## Pins -/

/-- Whether a reader needs the pin of a sequence. -/
def Reader.needs (q : Nat) (r : Reader) : Bool := r.isOpen && r.sequence == q

namespace Session

variable {s : Session}

/-- The number of pins of a sequence that the clients are entitled to. -/
def claims (s : Session) (q : Nat) : Nat := s.snapshots.count q + s.readers.countP (Reader.needs q)

/-- The engine holds a pin for every snapshot and for every open cursor. -/
def Paid (s : Session) : Prop := ∀ q, s.claims q ≤ s.engine.pins.count q

/-- The sequence of an open reader is pinned. -/
theorem Paid.mem_pins (h : s.Paid) {r : Reader} (hr : r ∈ s.readers) (hopen : r.isOpen = true) :
    r.sequence ∈ s.engine.pins := by
  have hpos : 0 < s.readers.countP (Reader.needs r.sequence) :=
    List.countP_pos_iff.mpr ⟨r, hr, by simp [Reader.needs, hopen]⟩
  have hle := h r.sequence
  unfold claims at hle
  exact List.count_pos_iff.mp (by omega)

/-- Replacing a reader by another changes what is claimed by these two. -/
private theorem countP_needs_set {readers : List Reader} {i : Nat} {r : Reader}
    (hr : readers[i]? = some r) (r' : Reader) (q : Nat) :
    (readers.set i r').countP (Reader.needs q) + (if r.needs q then 1 else 0)
      = readers.countP (Reader.needs q) + if r'.needs q then 1 else 0 := by
  obtain ⟨hi, rfl⟩ := List.getElem?_eq_some_iff.mp hr
  have hpos : (readers[i].needs q : Prop) → 0 < readers.countP (Reader.needs q) :=
    fun hq => List.countP_pos_iff.mpr ⟨_, List.getElem_mem hi, hq⟩
  rw [List.countP_set hi]
  by_cases hq : readers[i].needs q
  · have := hpos hq
    simp only [hq, if_true]
    omega
  · simp only [hq, Bool.false_eq_true, if_false]
    omega

/-- A reader that needs the same pins as before changes no claim. -/
private theorem claims_set {i : Nat} {r r' : Reader} (hr : s.readers[i]? = some r) {q : Nat}
    (hneeds : r'.needs q = r.needs q) :
    claims { s with readers := s.readers.set i r' } q = s.claims q := by
  have hcount := countP_needs_set hr r' q
  rw [hneeds] at hcount
  unfold claims
  simp only
  omega

/-- An answer changes nothing about the pin that a reader needs. -/
private theorem needs_advance (e : Engine) (q : Nat) (r : Reader) :
    (r.advance e).needs q = r.needs q := by
  unfold Reader.advance
  split <;> rfl

/-- Nor does a turn. -/
private theorem needs_turn (e : Engine) (q : Nat) (r : Reader) :
    (r.turn e).needs q = r.needs q := by
  obtain ⟨hopen, hsequence⟩ := r.turn_frame e
  unfold Reader.needs
  rw [hopen, hsequence]

/-- A call pins what it hands to its client. -/
private theorem count_answer (h : s.engine.Agrees s.ledger) (c : EngineCall) (q : Nat) :
    (takenBy c (s.engine.answer c).1).count q
        + (openedBy s.ledger c (s.engine.answer c).1).countP (Reader.needs q)
      = (Engine.pinnedBy c (s.engine.answer c).1).count q := by
  -- A snapshot pins what it gives to the client, a scan what its cursor needs; no other call pins
  -- anything.
  cases c with
  | snapshot => cases h' : (s.engine.answer .snapshot).1 <;> simp [takenBy, openedBy, Engine.pinnedBy]
  | scan n view range =>
    cases hscan : s.engine.scan n view range with
    | error failure =>
      simp [Engine.answer, Engine.both, hscan, takenBy, openedBy, Engine.pinnedBy]
    | ok opened =>
      obtain ⟨c, -, heq, -, -⟩ := h.scan_eq_ok hscan
      simp [Engine.answer, Engine.both, hscan, takenBy, openedBy, Engine.pinnedBy, heq,
        Engine.cursorAt, Reader.needs, List.count_singleton]
  | createColumn name => rfl
  | put n key value => rfl
  | delete n key => rfl
  | write n batch => rfl
  | get n view key => rfl
  | mayContain n key => rfl
  | next cursor => rfl
  | estimate n => rfl
  | compact n => rfl
  | flush => rfl

/-- A snapshot that is released gives up its claim together with its pin. -/
private theorem claims_release {q' : Nat} (hmem : q' ∈ s.snapshots) {q : Nat}
    (hq : s.claims q ≤ s.engine.pins.count q) :
    (s.step (.release q')).claims q ≤ (s.step (.release q')).engine.pins.count q := by
  have hpos : 0 < s.snapshots.count q' := List.count_pos_iff.mpr hmem
  unfold claims at hq ⊢
  simp only [step, Engine.unpin, List.count_erase]
  by_cases heq : q' = q
  · subst heq
    simp only [beq_self_eq_true, if_true]
    omega
  · simp only [beq_iff_eq, heq, if_false]
    omega

/-- A reader that is dropped gives up its claim together with its pin. -/
private theorem claims_drop {i : Nat} {r : Reader} (hr : s.readers[i]? = some r)
    (hopen : r.isOpen = true) {q : Nat} (hq : s.claims q ≤ s.engine.pins.count q) :
    claims { s with readers := s.readers.set i { r with isOpen := false } } q
      ≤ (s.engine.unpin r.sequence).pins.count q := by
  have hcount := countP_needs_set hr { r with isOpen := false } q
  have hdropped : Reader.needs q { r with isOpen := false } = false := rfl
  unfold claims at hq ⊢
  simp only [Engine.unpin, List.count_erase]
  rw [hdropped] at hcount
  -- The pin that the reader gives back is the one that it needed, so at every sequence the claims
  -- and the pins go down together.
  by_cases heq : r.sequence = q
  · have hneeds : r.needs q = true := by simp [Reader.needs, hopen, heq]
    simp only [hneeds, heq, beq_self_eq_true, if_true, Bool.false_eq_true, if_false] at hcount ⊢
    omega
  · have hneeds : r.needs q = false := by simp [Reader.needs, heq]
    simp only [hneeds, beq_iff_eq, heq, Bool.false_eq_true, if_false] at hcount ⊢
    omega

/-- Every pin that a client or a reader needs stays taken as often as it is needed, as long as
clients release only what they took. -/
theorem paid_step (s : Session) (a : Act) (hagrees : s.engine.Agrees s.ledger)
    (hsequence : ∀ r ∈ s.readers, r.cursor.sequence = r.sequence) (h : s.Paid)
    (hpermits : s.Permits a) : (s.step a).Paid := by
  intro q
  have hreader : ∀ (i : Nat) (f : Reader → Session),
      (∀ r, s.readers[i]? = some r → r.isOpen = true →
        (f r).claims q ≤ (f r).engine.pins.count q) →
      (s.onReader i f).claims q ≤ (s.onReader i f).engine.pins.count q :=
    fun i f => onReader_induction (P := fun t => t.claims q ≤ t.engine.pins.count q) (h q)
  cases a with
  | call c =>
    -- Whatever a call pins, its answer claims.
    have hpins := (s.engine.changes_answer c).pins_eq
    have hcount := count_answer hagrees c q
    have hq := h q
    unfold claims at hq ⊢
    simp only [step, hpins, List.count_append, List.countP_append]
    omega
  | release q' => exact claims_release hpermits (h q)
  | advance i =>
    refine hreader i _ fun r hr _ => ?_
    exact Nat.le_trans (Nat.le_of_eq (claims_set hr (needs_advance _ q r))) (h q)
  | turn i =>
    refine hreader i _ fun r hr _ => ?_
    exact Nat.le_trans (Nat.le_of_eq (claims_set hr (needs_turn _ q r))) (h q)
  | drop i =>
    -- The engine unpins the sequence of the cursor, which is that of its reader.
    refine hreader i _ fun r hr hopen => ?_
    rw [hsequence r (List.mem_of_getElem? hr)]
    exact claims_drop hr hopen (h q)
  | close => exact h q

/-! ## Runs -/

/-- What every act of the clients keeps. -/
structure Sound (s : Session) : Prop where
  /-- The engine is what the ledger says. -/
  agrees : s.engine.Agrees s.ledger
  /-- Every snapshot and every open cursor has its pin. -/
  paid : s.Paid
  /-- The answers of every reader are right. -/
  exact : ∀ r ∈ s.readers, r.Exact s.ledger

/-- At the start there are no readers and no pins. -/
theorem sound_start (options : Engine.Options) : (start options).Sound where
  agrees := Engine.agrees_new options
  paid q := by simp [start, claims]
  exact r hr := by simp [start] at hr

/-- The engine still shows the state that an open reader reads. -/
theorem Sound.showsAt (h : s.Sound) {r : Reader} (hr : r ∈ s.readers) (hopen : r.isOpen = true) :
    s.engine.ShowsAt r.column r.sequence (s.ledger.history.contents r.sequence r.column) := by
  have hpinned := h.paid.mem_pins hr hopen
  have hlt : r.column < s.engine.columns.length :=
    h.agrees.length_names ▸ (h.exact r hr).column_lt
  exact h.agrees.represents.showsAt (List.getElem?_eq_getElem hlt)
    (Engine.pruneThreshold_le_of_mem hpinned) (h.agrees.represents.pins_le _ hpinned)

/-- A new reader has all its entries still to answer. -/
private theorem exact_openedBy (h : s.engine.Agrees s.ledger) (c : EngineCall) :
    ∀ r ∈ openedBy s.ledger c (s.engine.answer c).1, r.Exact s.ledger := by
  intro r hr
  obtain ⟨n, c, range, q, hc, hthreshold, hle, rfl⟩ := eq_of_mem_openedBy h hr
  obtain ⟨entries, hentries⟩ := (h.represents.showsAt hc hthreshold hle).exists_lists range
  refine ⟨h.represents.sequence_eq ▸ hle, ?_, Cursor.walks_cursorAt n c range _,
    ⟨entries, hentries, ?_, Cursor.rest_cursorAt c hentries⟩, by simp⟩
  · rw [h.length_names]
    exact (List.getElem?_eq_some_iff.mp hc).1
  · simp [Reader.Answered, Reader.replies]

/-- What a new reader has, and what growing ledgers, asking for an entry and dropping keep, all
readers keep having. -/
theorem forall_readers_step {P : Reader → Ledger → Prop} (s : Session) (a : Act)
    (hgrows : ∀ r l', P r s.ledger → s.ledger.Grows l' → P r l')
    (hopened : ∀ c, ∀ r ∈ openedBy s.ledger c (s.engine.answer c).1, P r s.ledger)
    (hasked : ∀ r ∈ s.readers, r.isOpen = true → P r s.ledger →
      P (r.advance s.engine) s.ledger ∧ P (r.turn s.engine) s.ledger)
    (hdropped : ∀ r, P r s.ledger → P { r with isOpen := false } s.ledger)
    (h : ∀ r ∈ s.readers, P r s.ledger) : ∀ r ∈ (s.step a).readers, P r (s.step a).ledger := by
  -- Only the reader that is asked changes; the ledger does not move under the others.
  have hreader : ∀ (i : Nat) (f : Reader → Session),
      (∀ r, s.readers[i]? = some r → r.isOpen = true → ∀ r' ∈ (f r).readers, P r' (f r).ledger) →
      ∀ r' ∈ (s.onReader i f).readers, P r' (s.onReader i f).ledger :=
    fun i f => onReader_induction (P := fun t => ∀ r' ∈ t.readers, P r' t.ledger) h
  have hset : ∀ (i : Nat) (r : Reader), P r s.ledger → ∀ r' ∈ s.readers.set i r, P r' s.ledger := by
    intro i r hr r' hr'
    rcases List.mem_or_eq_of_mem_set hr' with hr' | rfl
    · exact h r' hr'
    · exact hr
  cases a with
  | call c =>
    intro r hr
    refine hgrows r _ ?_ (s.ledger.grows_call c)
    rcases List.mem_append.mp hr with hr | hr
    · exact h r hr
    · exact hopened c r hr
  | release q => exact h
  | advance i =>
    refine hreader i _ fun r hr hopen => hset i _ ?_
    have hmem := List.mem_of_getElem? hr
    exact (hasked r hmem hopen (h r hmem)).1
  | turn i =>
    refine hreader i _ fun r hr hopen => hset i _ ?_
    have hmem := List.mem_of_getElem? hr
    exact (hasked r hmem hopen (h r hmem)).2
  | drop i =>
    refine hreader i _ fun r hr _ => hset i _ ?_
    exact hdropped r (h r (List.mem_of_getElem? hr))
  | close => exact fun r hr => hgrows r _ (h r hr) s.ledger.grows_close

/-- One act that is permitted keeps a session sound. -/
theorem sound_step (s : Session) (a : Act) (h : s.Sound) (hpermits : s.Permits a) :
    (s.step a).Sound where
  agrees := agrees_step s a h.agrees
  paid := paid_step s a h.agrees (fun r hr => (h.exact r hr).walks.sequence_eq) h.paid hpermits
  exact := by
    refine forall_readers_step s a (fun r l' hr => hr.mono) (exact_openedBy h.agrees)
      (fun r hr hopen hexact => ?_) (fun r hexact => hexact.drop) h.exact
    have he := h.showsAt hr hopen
    exact ⟨hexact.advance h.agrees he, hexact.turn h.agrees he⟩

/-- Under matched releases every state is sound. -/
theorem sound_run (options : Engine.Options) (acts : List Act)
    (hmatched : (start options).Matched acts) : (run options acts).Sound :=
  matched_induction (sound_start options) sound_step acts hmatched

/-! ## Asking turn by turn -/

/-- Turns of one reader change nothing else. -/
private theorem after_turns {s : Session} {i : Nat} {r : Reader} (hr : s.readers[i]? = some r)
    (hopen : r.isOpen = true) (k : Nat) :
    s.after (List.replicate k (.turn i))
      = { s with readers := s.readers.set i ((Reader.turn · s.engine)^[k] r) } := by
  induction k generalizing s r with
  | zero =>
    obtain ⟨hi, rfl⟩ := List.getElem?_eq_some_iff.mp hr
    simp
  | succ k ih =>
    obtain ⟨hi, -⟩ := List.getElem?_eq_some_iff.mp hr
    have hstep : s.step (.turn i) = { s with readers := s.readers.set i (r.turn s.engine) } := by
      simp [step, onReader, hr, hopen]
    have hopen' : (r.turn s.engine).isOpen = true := (r.turn_frame s.engine).1.trans hopen
    rw [List.replicate_succ, after_cons, hstep, ih (by simp [hi]) hopen',
      Function.iterate_succ_apply, List.set_set]

/-- A call for the next entry of a reader, in which nobody else acts, is a bounded number of
turns. -/
private theorem step_advance_eq_turns {i : Nat} {r : Reader} (hr : s.readers[i]? = some r) :
    ∃ turns ≤ s.engine.chunksLeft r.cursor + 1,
      s.step (.advance i) = s.after (List.replicate turns (.turn i)) := by
  cases hopen : r.isOpen with
  | false => exact ⟨0, Nat.zero_le _, by simp [step, onReader, hr, hopen]⟩
  | true =>
    obtain ⟨k, hk, hturns⟩ := r.advance_eq_turns s.engine
    refine ⟨k + 1, by omega, ?_⟩
    rw [after_turns hr hopen, ← hturns]
    simp [step, onReader, hr, hopen]

/-- **Cursors are exact and stable.**  Whatever the clients of an engine do, as long as they release
what they took and once, the answers of a cursor are the entries of its range as they were at its
sequence, in strictly ascending key order and each once, and then none for ever; an answer is
refused only after the engine was closed.  A call for the next entry is a bounded number of turns
that follow one another: as long as nobody acts in between, it ends. -/
theorem cursor_exact (options : Engine.Options) (acts : List Act)
    (hmatched : (start options).Matched acts) (i : Nat) (r : Reader)
    (hr : (run options acts).readers[i]? = some r) :
    let s := run options acts
    (∃ entries, (s.ledger.history.contents r.sequence r.column).Lists r.range entries ∧
      ∀ (k : Nat) (answer : Option Entry), r.replies[k]? = some answer → answer = entries[k]?) ∧
    (∀ failure, .error failure ∈ r.answers → failure = .closed ∧ s.ledger.isOpen = false) ∧
    ∃ turns ≤ s.engine.chunksLeft r.cursor + 1,
      s.step (.advance i) = s.after (List.replicate turns (.turn i)) := by
  intro s
  have hexact := (sound_run options acts hmatched).exact r (List.mem_of_getElem? hr)
  obtain ⟨entries, hlists, hanswered, -⟩ := hexact.listed
  exact ⟨⟨entries, hlists, hanswered⟩, hexact.refused, step_advance_eq_turns hr⟩

/-- A cursor that reads one chain at a time answers two entries, although the second is overwritten,
deleted and compacted after the first was answered. -/
theorem cursor_exact_under_compaction :
    let scheme : Filter.Scheme :=
      ⟨fun key => (key.length.toUInt64, 0), fun _ => ⟨64, 1, by decide, by decide⟩⟩
    let options : Engine.Options := { cursorChunk := 1, scheme }
    let acts : List Act := [.call (.createColumn "a"), .call (.put 0 [1] [10]),
      .call (.put 0 [2] [20]), .call (.scan 0 .latest .all), .turn 0, .turn 0,
      .call .snapshot, .call (.put 0 [2] [21]), .call (.delete 0 [2]), .release 2,
      .call (.compact 0), .turn 0, .turn 0, .turn 0, .turn 0]
    (start options).Matched acts ∧ ∃ r, (run options acts).readers[0]? = some r ∧
      r.replies = [some ([1], [10]), some ([2], [20]), none] ∧
      ∃ entries, ((run options acts).ledger.history.contents r.sequence r.column).Lists r.range
          entries ∧
        ∀ (k : Nat) (answer : Option Entry), r.replies[k]? = some answer → answer = entries[k]? := by
  intro scheme options acts
  have hmatched : (start options).Matched acts :=
    ⟨trivial, trivial, trivial, trivial, trivial, trivial, trivial, trivial, trivial,
      show 2 ∈ _ by decide +kernel, trivial, trivial, trivial, trivial, trivial, trivial⟩
  have hanswered : (run options acts).readers[0]?.map Reader.replies
      = some [some ([1], [10]), some ([2], [20]), none] := by decide +kernel
  obtain ⟨r, hr, hreplies⟩ := Option.map_eq_some_iff.mp hanswered
  exact ⟨hmatched, r, hr, hreplies, (cursor_exact options acts hmatched 0 r hr).1⟩

end Session

end SnapshotStore
