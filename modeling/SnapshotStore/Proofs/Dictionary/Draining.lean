import SnapshotStore.Proofs.Dictionary.Deletion
import SnapshotStore.Proofs.Work.Failing

/-!
# Draining a range of which any call may fail

Draining sends every entry of a range before its deletion is queued, and the queued deletions are
written a batch at a time.  So at any moment the entries are cut into three parts: the first are
deleted, the next are sent and queued, and the others are still to come (`Drains`).  A consumer that
goes away, a cursor that fails and a batch that is not written all end the work in such a moment,
and a batch that failed is not tried again.

The walk is treated for any visitor that keeps an invariant until a failure strikes (`Withstands`).
-/

namespace SnapshotStore

variable {ε σ : Type}

/-! ## Walks -/

/-- How a visitor of an entry ends: nothing struck it, it goes on, and an invariant holds of what
was sent so far, the entries to come, its state, what is left of the budget, and the world; or the
walk is over, and something holds of it. -/
inductive Leaves (I : List (Except StoreError ε) → List Entry → σ → Nat → World → Prop)
    (J : Work.Post ε σ) (rest : List Entry) (k : Nat) : Work.Post ε (Bool × σ)
  /-- The visitor goes on. -/
  | goesOn {sent : List (Except StoreError ε)} {s : σ} {w : World} (h : I sent rest s k w) :
      Leaves I J rest k sent (.done (true, s)) w false
  /-- The visitor stops. -/
  | stops {sent : List (Except StoreError ε)} {s : σ} {w : World} {struck : Bool}
      (h : J sent (.done s) w struck) : Leaves I J rest k sent (.done (false, s)) w struck

/-- A visitor writes to one column at most, keeps an invariant, and stops if a failure strikes.
What holds when its walk is over follows from the invariant. -/
structure Withstands (visitor : σ → Entry → Work ε (Bool × σ)) (n : Nat)
    (I : List (Except StoreError ε) → List Entry → σ → Nat → World → Prop)
    (J : Work.Post ε σ) : Prop where
  /-- An entry is visited. -/
  visit : ∀ {sent entry rest s k w}, I sent (entry :: rest) s k w →
    (visitor s entry).Endures k w fun items r w' struck =>
      w.Writes n (w'.now n) w' ∧ Leaves I J rest (k - items.length) (sent ++ items) r w' struck
  /-- There are no more entries. -/
  exhausted : ∀ {sent s k w}, I sent [] s k w → J sent (.done s) w false
  /-- The next entry cannot be read. -/
  interrupted : ∀ {sent rest s k w} (e : StoreError), I sent rest s k w → J sent (.failed e) w true

namespace Dictionary

variable {d : Dictionary} {w : World} {visitor : σ → Entry → Work ε (Bool × σ)} {n q k : Nat}
  {range : KeyRange} {entries rest : List Entry} {s : σ} {sent : List (Except StoreError ε)}
  {I : List (Except StoreError ε) → List Entry → σ → Nat → World → Prop}
  {J : Work.Post ε σ}

/-- A walk keeps the invariant of its visitor. -/
theorem endures_walk (hvisitor : Withstands visitor n I J) (context : String)
    (h : I sent rest s k w) (hn : w.HasColumn n) (hq : q ∈ w.pins)
    (hle : q ≤ w.ledger.history.length) {cursor : Cursor} (hcursor : cursor.Walks n q range)
    (hlists : (w.ledger.history.contents q n).Lists range entries)
    (hrest : cursor.rest entries = rest) {fuel : Nat} (hfuel : rest.length < fuel) :
    (walk context visitor fuel cursor s).Endures k w fun items r w' struck =>
      w.Writes n (w'.now n) w' ∧ J (sent ++ items) r w' struck := by
  induction rest generalizing sent s k w cursor fuel with
  | nil =>
    obtain ⟨fuel, rfl⟩ := Nat.exists_eq_succ_of_ne_zero (Nat.ne_zero_of_lt hfuel)
    refine Work.endures_call_bind (fun failure => ⟨.refl w n, ?_⟩) fun b hb => ?_
    · rw [List.append_nil]
      exact hvisitor.interrupted _ h
    · obtain ⟨cursor', hnext, -, -⟩ := next_eq_ok hb hn hq hcursor hlists
      rw [hrest] at hnext
      refine ⟨_, _, w, by rw [Engine.answer, hnext]; rfl, hb.mend, ?_⟩
      refine Work.endures_finish ⟨.refl w n, ?_⟩
      rw [List.append_nil]
      exact hvisitor.exhausted h
  | cons entry rest ih =>
    obtain ⟨fuel, rfl⟩ := Nat.exists_eq_succ_of_ne_zero (Nat.ne_zero_of_lt hfuel)
    refine Work.endures_call_bind (fun failure => ⟨.refl w n, ?_⟩) fun b hb => ?_
    · rw [List.append_nil]
      exact hvisitor.interrupted _ h
    · obtain ⟨cursor', hnext, hcursor', hrest'⟩ := next_eq_ok hb hn hq hcursor hlists
      rw [hrest] at hnext hrest'
      refine ⟨_, _, w, by rw [Engine.answer, hnext]; rfl, hb.mend, ?_⟩
      refine (hvisitor.visit h).bind fun items r w₁ struck hvisit => ?_
      obtain ⟨hwrites, hleaves⟩ := hvisit
      cases hleaves with
      | stops hJ =>
        refine Work.endures_finish ⟨hwrites, ?_⟩
        rwa [List.append_nil, Bool.or_false]
      | goesOn hI =>
        -- What the visitor wrote is not seen at the sequence of the cursor.
        refine (ih hI (hwrites.hasColumn hn) (hwrites.pins ▸ hq)
          (Nat.le_trans hle hwrites.length_le) hcursor' (hwrites.contents_eq hle n ▸ hlists) hrest'
          (by simpa using hfuel)).mono ?_
        rintro items' r w' struck ⟨hwrites', hJ⟩
        rw [List.append_assoc] at hJ
        exact ⟨hwrites.trans hwrites', hJ⟩

variable {view : ReadView}

/-- A walk through a range of several keys keeps the invariant of its visitor. -/
theorem endures_visit_scan (hvisitor : Withstands visitor d.column I J)
    (hn : w.HasColumn d.column) (hview : w.CanRead view) (hsingle : range.singleKey? = none)
    (hlists : (w.seen d.column view).Lists range entries)
    (h : I [] entries s k { w with pins := w.ledger.sequenceOf view :: w.pins }) :
    (d.visit view range visitor s).Endures k w fun items r w' struck =>
      ∃ w₁, J items r w₁ struck ∧ w' = { w₁ with pins := w.pins } := by
  simp only [visit, hsingle]
  refine Work.endures_call_bind (fun failure => ⟨_, hvisitor.interrupted _ h, rfl⟩) fun b hb => ?_
  obtain ⟨cursor, engine, hscan⟩ := exists_scanned hb hn hview hlists
  refine ⟨cursor, engine, _, hscan.answer_eq, hscan.isIn, ?_⟩
  refine Work.Endures.ensuring_unpin ?_
  refine (endures_walk hvisitor range.display h hn (List.mem_cons_self ..) hscan.sequence_le
    hscan.walks hscan.lists hscan.rest_eq hscan.length_lt).mono ?_
  rintro items r w' struck ⟨hwrites, hJ⟩
  -- The pin of the cursor is the newest of the pins that the visitor left alone.
  refine ⟨w', hJ, ?_⟩
  rw [hwrites.pins, hscan.sequence_eq, List.erase_cons_head]

/-- A walk through the range of one key keeps the invariant of its visitor. -/
theorem endures_visit_single (hvisitor : Withstands visitor d.column I J) (hd : d.AtRest w)
    (hview : w.CanRead view) {key : Bytes} (hsingle : range.singleKey? = some key)
    (hlists : (w.seen d.column view).Lists range entries)
    (h : I [] entries s k
      { w with stripes := w.stripes.taken .shared (d.readStripes view [key]) }) :
    (d.visit view range visitor s).Endures k w fun items r w' struck =>
      ∃ w₁, J items r w₁ struck ∧ w' = { w₁ with stripes := w.stripes } := by
  simp only [visit, hsingle]
  refine Work.Endures.holding (fun i _ => hd.areIdle i) (d.nodup_readStripes view [key]) ?_
  generalize w.stripes.taken .shared (d.readStripes view [key]) = l at h ⊢
  have hread := endures_read (ε := ε) (w := { w with stripes := l }) hd.column hview key k
  have hseen : World.seen { w with stripes := l } d.column view = w.seen d.column view := by
    cases view <;> rfl
  rw [hlists.eq_of_single hsingle] at h
  rw [hseen] at hread
  refine hread.bind fun items r w₁ struck hr => ?_
  cases hr with
  | nothing e => exact Work.endures_finish ⟨rfl, _, hvisitor.interrupted e h, rfl⟩
  | all =>
    cases hvalue : w.seen d.column view key with
    | none =>
      rw [hvalue] at h
      exact Work.endures_finish ⟨rfl, _, hvisitor.exhausted h, rfl⟩
    | some value =>
      rw [hvalue] at h
      refine (hvisitor.visit h).bind fun items r w' struck hvisit => ?_
      obtain ⟨hwrites, hleaves⟩ := hvisit
      -- Nobody minds whether the visitor would go on.
      have hstripes : w'.stripes = l := hwrites.stripes
      cases hleaves with
      | goesOn hI =>
        rw [List.nil_append] at hI
        exact Work.endures_finish ⟨hstripes, _, by simpa using hvisitor.exhausted hI, rfl⟩
      | stops hJ =>
        rw [List.nil_append] at hJ
        exact Work.endures_finish ⟨hstripes, _, by simpa using hJ, rfl⟩

end Dictionary

/-! ## Batches -/

namespace CappedBatch

/-- How the write of a batch went: its operations were applied, or it was struck and they are
dropped. -/
inductive Flushes (b : CappedBatch) (w : World) :
    Except EngineError Unit × CappedBatch → World → Bool → Prop
  /-- The operations are applied. -/
  | written {b' : CappedBatch} {w' : World} (hcolumn : b'.column = b.column)
      (hpending : b'.pending = [])
      (hwrites : w.Writes b.column ((w.now b.column).applyAll b.pending) w') :
      Flushes b w (.ok (), b') w' false
  /-- The write failed. -/
  | dropped (failure : EngineError) (b' : CappedBatch) : Flushes b w (.error failure, b') w true

variable {b : CappedBatch} {w : World}

/-- A flush writes what is pending, or loses it with a failure. -/
theorem endures_flush (hn : w.HasColumn b.column) (k : Nat) :
    (b.flush : Work ε _).Endures k w fun items r w' struck =>
      items = [] ∧ ∃ s, r = .done s ∧ b.Flushes w s w' struck := by
  unfold flush
  by_cases hempty : b.pending = []
  · rw [if_pos (by simpa using hempty)]
    have hwrites := World.Writes.refl w b.column
    refine Work.endures_finish ⟨rfl, _, rfl, .written rfl hempty ?_⟩
    rwa [hempty]
  · rw [if_neg (by simpa using hempty)]
    refine Work.endures_ask _ (fun failure => Work.endures_finish ⟨rfl, _, rfl, .dropped failure _⟩)
      fun backend hb => ?_
    have hin := hb.answer (.write b.column b.pending)
    have hok := Work.write_eq_ok hb hn hempty
    have hcommit := Work.commit_of_hasColumn hb.isOpen hn hempty
    refine ⟨.ok (), _, w.commit b.column b.pending, Prod.ext hok rfl, hcommit ▸ hin, ?_⟩
    exact Work.endures_finish ⟨rfl, _, rfl, .written rfl rfl (.commit ..)⟩

/-- An operation that is pushed is queued, and the batch may be written. -/
theorem endures_push (hn : w.HasColumn b.column) (op : WriteOp) (k : Nat) :
    (b.push op : Work ε _).Endures k w fun items r w' struck => items = [] ∧ ∃ s, r = .done s ∧
      (s = (.ok (), { b with pending := b.pending ++ [op] }) ∧ w' = w ∧ struck = false ∨
        Flushes { b with pending := b.pending ++ [op] } w s w' struck) := by
  unfold push
  simp only
  split
  · refine (endures_flush (ε := ε) (b := { b with pending := b.pending ++ [op] }) hn k).mono ?_
    rintro items r w' struck ⟨hitems, s, hr, hflushes⟩
    exact ⟨hitems, s, hr, .inr hflushes⟩
  · exact Work.endures_finish ⟨rfl, _, rfl, .inl ⟨rfl, rfl, rfl⟩⟩

end CappedBatch

/-! ## Draining -/

namespace Contents

/-- The contents without the keys of some entries. -/
def without (c : Contents) (entries : List Entry) : Contents := fun key =>
  if key ∈ entries.map (·.1) then none else c key

/-- Deletions leave the contents without their entries. -/
theorem applyAll_deletions_eq (c : Contents) (entries : List Entry) :
    c.applyAll (deletions entries) = c.without entries := funext (c.applyAll_deletions entries)

/-- Entries are deleted part by part. -/
theorem deletions_append (entries entries' : List Entry) :
    deletions (entries ++ entries') = deletions entries ++ deletions entries' := List.map_append

end Contents

/-- Entries were drained for a consumer that accepts a number of sends: the first of them were
accepted, and the first of these deleted.  If that succeeded, then as many were as the consumer
accepts. -/
structure Drained (entries : List Entry) (k : Nat) (accepted deleted : List Entry)
    (r : Outcome Unit) : Prop where
  /-- No entry was deleted that was not accepted, or before an earlier one. -/
  deleted_prefix : deleted <+: accepted
  /-- The entries were accepted in their order, and no more of them than the consumer accepts. -/
  accepted_prefix : accepted <+: entries.take k
  /-- Nothing is left undone. -/
  complete : r = .done () → deleted = entries.take k

/-- What a consumer accepts is what is deleted. -/
theorem Drained.eq_take {entries accepted deleted : List Entry} {k : Nat}
    (h : Drained entries k accepted deleted (.done ())) :
    accepted = entries.take k ∧ deleted = entries.take k := by
  have hdeleted := h.complete rfl
  exact ⟨h.accepted_prefix.eq_of_length_le (hdeleted ▸ h.deleted_prefix.length_le), hdeleted⟩

/-- Entries of a column are being drained: some are deleted, the next are queued, and the others are
still to come.  The first two parts were sent. -/
structure Draining (w₀ : World) (n : Nat) (entries deleted queued rest : List Entry)
    (sent : List (Except StoreError Entry)) (w : World) : Prop where
  /-- The three parts. -/
  entries_eq : entries = deleted ++ queued ++ rest
  /-- What was sent. -/
  sent_eq : sent = (deleted ++ queued).map .ok
  /-- What was deleted. -/
  writes : w₀.Writes n ((w₀.now n).applyAll (Contents.deletions deleted)) w

namespace Draining

variable {w₀ w w' : World} {n : Nat} {entry : Entry} {entries deleted queued rest : List Entry}
  {sent : List (Except StoreError Entry)}

/-- The next entry is sent and queued. -/
theorem accept (h : Draining w₀ n entries deleted queued (entry :: rest) sent w) :
    Draining w₀ n entries deleted (queued ++ [entry]) rest (sent ++ [.ok entry]) w where
  entries_eq := by simpa using h.entries_eq
  sent_eq := by simp [h.sent_eq]
  writes := h.writes

/-- What is queued is deleted. -/
theorem flush (h : Draining w₀ n entries deleted queued rest sent w)
    (hwrites : w.Writes n ((w.now n).applyAll (Contents.deletions queued)) w') :
    Draining w₀ n entries (deleted ++ queued) [] rest sent w' where
  entries_eq := by simpa using h.entries_eq
  sent_eq := by simp [h.sent_eq]
  writes := by
    rw [Contents.deletions_append, Contents.applyAll_append]
    have hboth := h.writes.trans hwrites
    rwa [h.writes.now] at hboth

/-- Draining goes on whatever is pinned. -/
theorem with_pins {pins : List Nat}
    (h : Draining { w₀ with pins } n entries deleted queued rest sent w) :
    Draining w₀ n entries deleted queued rest sent { w with pins := w₀.pins } :=
  ⟨h.entries_eq, h.sent_eq, h.writes.with_pins⟩

/-- It goes on whoever holds stripes. -/
theorem with_stripes {stripes : Stripes}
    (h : Draining { w₀ with stripes } n entries deleted queued rest sent w) :
    Draining w₀ n entries deleted queued rest sent { w with stripes := w₀.stripes } :=
  ⟨h.entries_eq, h.sent_eq, h.writes.with_stripes⟩

/-- Draining that stops leaves what is queued undeleted. -/
theorem drained {k : Nat} {r : Outcome Unit}
    (h : Draining w₀ n entries deleted queued rest sent w) (hlength : sent.length ≤ k)
    (hr : r ≠ .done ()) : Drained entries k (deleted ++ queued) deleted r where
  deleted_prefix := List.prefix_append _ _
  accepted_prefix := by
    rw [h.sent_eq, List.length_map] at hlength
    rw [List.prefix_take_iff]
    exact ⟨h.entries_eq ▸ List.prefix_append _ _, hlength⟩
  complete hdone := absurd hdone hr

/-- Draining that went through leaves nothing that the consumer accepts. -/
theorem drained_all {k : Nat} {r : Outcome Unit}
    (h : Draining w₀ n entries deleted [] rest sent w) (hlength : sent.length ≤ k)
    (hall : rest = [] ∨ sent.length = k) : Drained entries k deleted deleted r := by
  have heq := h.entries_eq
  rw [List.append_nil] at heq
  rw [h.sent_eq, List.append_nil, List.length_map] at hlength hall
  have htake : deleted = entries.take k := by
    rcases hall with rfl | hall
    · rw [List.append_nil] at heq
      rw [heq, List.take_of_length_le hlength]
    · rw [heq, ← hall, List.take_left]
  exact ⟨List.prefix_rfl, htake ▸ List.prefix_rfl, fun _ => htake⟩

end Draining

namespace Dictionary

variable {d : Dictionary} {w₀ w : World} {range : KeyRange} {entries : List Entry} {n k : Nat}

/-- Completing queued deletions makes them real, or fails and leaves things as they are.  It fails
for an earlier failure, or because it is struck. -/
theorem endures_completeDeletes (context : String) {s : Deletions}
    (hn : s.2 = .ok () → w.HasColumn s.1.column) (k : Nat) :
    (completeDeletes context s : Work ε _).Endures k w fun items r w' struck => items = [] ∧
      ((∃ e, r = .failed e) ∧ w' = w ∧ (s.2 = .ok () → struck = true) ∨
        r = .done () ∧ s.2 = .ok () ∧
          w.Writes s.1.column ((w.now s.1.column).applyAll s.1.pending) w') := by
  -- A failure on the way stays the answer; otherwise what is pending is written now.
  obtain ⟨b, failure | ⟨⟩⟩ := s
  · exact Work.endures_finish ⟨rfl, .inl ⟨⟨_, rfl⟩, rfl, fun hok => by cases hok⟩⟩
  · refine Work.Endures.bind (x := b.complete) (P := fun items r w' struck => items = [] ∧
      ((∃ failure, r = .done (.error failure)) ∧ w' = w ∧ struck = true ∨
        (∃ count, r = .done (.ok count)) ∧
          w.Writes b.column ((w.now b.column).applyAll b.pending) w')) ?_ ?_
    · refine (CappedBatch.endures_flush (hn rfl) k).bind ?_
      rintro items r w' struck ⟨rfl, s, rfl, hflushes⟩
      cases hflushes with
      | written hcolumn hpending hwrites =>
        exact Work.endures_finish ⟨rfl, .inr ⟨⟨_, rfl⟩, hwrites⟩⟩
      | dropped failure b' => exact Work.endures_finish ⟨rfl, .inl ⟨⟨_, rfl⟩, rfl, rfl⟩⟩
    · rintro items r w' struck ⟨rfl, ⟨⟨failure, rfl⟩, rfl, rfl⟩ | ⟨⟨count, rfl⟩, hwrites⟩⟩
      · exact Work.endures_finish ⟨rfl, .inl ⟨⟨_, rfl⟩, rfl, fun _ => rfl⟩⟩
      · exact Work.endures_finish ⟨rfl, .inr ⟨rfl, rfl, hwrites⟩⟩

/-- Before every entry of the walk the batch holds the deletions that are queued. -/
def Midway (w₀ : World) (n : Nat) (entries : List Entry) (budget : Nat)
    (sent : List (Except StoreError Entry)) (rest : List Entry) (s : Deletions) (k : Nat)
    (w : World) : Prop :=
  ∃ deleted queued, Draining w₀ n entries deleted queued rest sent w ∧ k + sent.length = budget ∧
    s.1.column = n ∧ s.1.pending = Contents.deletions queued ∧ s.2 = .ok ()

/-- A walk that ends without a failure ends for want of entries or of somebody who listens, and only
a walk that is struck ends with one. -/
def Halted (w₀ : World) (n : Nat) (entries : List Entry) (budget : Nat)
    (sent : List (Except StoreError Entry)) (r : Outcome Deletions) (w : World) (struck : Bool) :
    Prop :=
  (∃ deleted queued rest, Draining w₀ n entries deleted queued rest sent w ∧
    sent.length ≤ budget ∧ ∀ b, r = .done (b, .ok ()) →
      b.column = n ∧ b.pending = Contents.deletions queued ∧ (rest = [] ∨ sent.length = budget)) ∧
    (struck = false → ∃ b, r = .done (b, .ok ()))

theorem withstands_drain (hn : w₀.HasColumn n) (entries : List Entry) (budget : Nat) :
    Withstands (fun (s : Deletions) entry => do
        if ← Work.emit entry then queueDelete s entry.1 else return (false, s)) n
      (Midway w₀ n entries budget) (Halted w₀ n entries budget) where
  visit := by
    rintro sent entry rest ⟨b, r⟩ k w
      ⟨deleted, queued, hdraining, hbudget, rfl, hpending, hr⟩
    obtain rfl : r = .ok () := hr
    have hcolumn := hdraining.writes.hasColumn hn
    have hqueued : b.pending ++ [.delete entry.1] = Contents.deletions (queued ++ [entry]) := by
      rw [Contents.deletions_append, ← hpending]
      rfl
    refine Work.endures_send (fun m hm => ?_) fun hk => ?_
    · have hlength : m + (sent ++ [Except.ok entry]).length = budget := by
        rw [List.length_append, List.length_singleton]
        omega
      have haccepted := hdraining.accept
      refine (CappedBatch.endures_push hcolumn (.delete entry.1) m).bind ?_
      rintro items r w' struck ⟨rfl, s, rfl, ⟨rfl, rfl, rfl⟩ | hflushes⟩
      · exact Work.endures_finish ⟨.refl w' _, .goesOn
          ⟨deleted, queued ++ [entry], haccepted, by subst hm; exact hlength, rfl, hqueued, rfl⟩⟩
      · cases hflushes with
        | written hcolumn' hpending' hwrites =>
          simp only [hqueued] at hwrites
          refine Work.endures_finish ⟨hwrites.now.symm ▸ hwrites, .goesOn ⟨_, _,
            haccepted.flush hwrites, by subst hm; exact hlength, hcolumn', hpending', rfl⟩⟩
        | dropped failure b' =>
          -- The walk stops, and what was in the batch stays undeleted.
          refine Work.endures_finish ⟨.refl w _, .stops ⟨⟨_, _, rest, haccepted, ?_, ?_⟩, ?_⟩⟩
          · exact hlength ▸ Nat.le_add_left _ _
          · intro b'' hdone
            cases hdone
          · intro hstruck
            cases hstruck
    · refine Work.endures_finish ⟨.refl w _,
        .stops ⟨⟨deleted, queued, entry :: rest, ?_, ?_, ?_⟩, fun _ => ⟨_, rfl⟩⟩⟩
      · rwa [List.append_nil]
      · rw [List.append_nil]
        omega
      · intro b' hdone
        cases hdone
        rw [List.append_nil]
        exact ⟨rfl, hpending, .inr (by omega)⟩
  exhausted := by
    rintro sent ⟨b, r⟩ k w ⟨deleted, queued, hdraining, hbudget, hcolumn, hpending, hr⟩
    obtain rfl : r = .ok () := hr
    refine ⟨⟨deleted, queued, [], hdraining, hbudget ▸ Nat.le_add_left _ _, fun b hdone => ?_⟩,
      fun _ => ⟨b, rfl⟩⟩
    cases hdone
    exact ⟨hcolumn, hpending, .inl rfl⟩
  interrupted := by
    rintro sent rest s k w e ⟨deleted, queued, hdraining, hbudget, -⟩
    refine ⟨⟨deleted, queued, rest, hdraining, hbudget ▸ Nat.le_add_left _ _, fun b hdone => ?_⟩,
      fun hstruck => ?_⟩
    · cases hdone
    · cases hstruck

/-- Wherever failures strike, a walk that drains halts with every entry deleted, queued or not yet
sent. -/
theorem endures_visit_drain (h : d.AtRest w) (hlists : (w.now d.column).Lists range entries)
    (k : Nat) :
    (d.visit .latest range (fun s entry => do
      if ← Work.emit entry then queueDelete s entry.1 else return (false, s))
        (d.batch, .ok ())).Endures k w (Halted w d.column entries k) := by
  have hview : w.CanRead .latest := trivial
  have hstart : ∀ w₀ : World, Midway w₀ d.column entries k [] entries (d.batch, .ok ()) k w₀ :=
    fun w₀ => ⟨[], [], ⟨rfl, rfl, .refl w₀ d.column⟩, rfl, rfl, rfl, rfl⟩
  have hvisitor (w₀ : World) (hn : w₀.HasColumn d.column) := withstands_drain hn entries k
  -- A range of one key is read under its stripe, and others are scanned under a pin.
  cases hsingle : range.singleKey? with
  | none =>
    refine (endures_visit_scan (hvisitor { w with pins := w.ledger.sequenceOf .latest :: w.pins }
      h.column) h.column hview hsingle hlists (hstart _)).mono ?_
    rintro items r w' struck ⟨w₁, ⟨⟨deleted, queued, rest, hdraining, hhalted⟩, hdone⟩, rfl⟩
    exact ⟨⟨deleted, queued, rest, hdraining.with_pins, hhalted⟩, hdone⟩
  | some key =>
    refine (endures_visit_single (hvisitor { w with
      stripes := w.stripes.taken .shared (d.readStripes .latest [key]) } h.column) h hview hsingle
      hlists (hstart _)).mono ?_
    rintro items r w' struck ⟨w₁, ⟨⟨deleted, queued, rest, hdraining, hhalted⟩, hdone⟩, rfl⟩
    exact ⟨⟨deleted, queued, rest, hdraining.with_stripes, hhalted⟩, hdone⟩

/-- **Wherever failures strike, draining a range deletes only what was accepted**, in order, and
whatever was accepted if it succeeds.  Nothing but a failure keeps it from succeeding. -/
theorem endures_drain (h : d.AtRest w) (hlists : (w.now d.column).Lists range entries) (k : Nat) :
    (d.drain range).Endures k w fun items r w' struck => (∃ accepted deleted,
      Drained entries k accepted deleted r ∧ items = accepted.map .ok ∧
        w.Writes d.column ((w.now d.column).applyAll (Contents.deletions deleted)) w') ∧
      (struck = false → r = .done ()) := by
  refine (endures_visit_drain h hlists k).bind ?_
  rintro items r w₁ struck ⟨⟨deleted, queued, rest, hdraining, hlength, hdone⟩, hunstruck⟩
  have hstopped : ∀ r : Outcome Unit, r ≠ .done () → ∃ accepted deleted,
      Drained entries k accepted deleted r ∧ items ++ [] = accepted.map .ok ∧
        w.Writes d.column ((w.now d.column).applyAll (Contents.deletions deleted)) w₁ := fun r hr =>
    ⟨_, _, hdraining.drained hlength hr, by rw [List.append_nil, hdraining.sent_eq],
      hdraining.writes⟩
  -- A walk that did not halt for a failure was struck.
  have hfailed : ∀ r' : Outcome Unit, (∀ b, r ≠ .done (b, .ok ())) →
      (struck || false) = false → r' = .done () := by
    intro r' hr hfalse
    rw [Bool.or_false] at hfalse
    obtain ⟨b, rfl⟩ := hunstruck hfalse
    exact absurd rfl (hr b)
  cases r with
  | failed e => exact Work.endures_finish ⟨hstopped _ (by simp), hfailed _ (by simp)⟩
  | panicked => exact Work.endures_finish ⟨hstopped _ (by simp), hfailed _ (by simp)⟩
  | done s =>
    obtain ⟨b, result⟩ := s
    refine (endures_completeDeletes range.display (fun hok => ?_) _).mono ?_
    · obtain ⟨hcolumn, -⟩ := hdone b (by rw [← hok])
      exact hcolumn ▸ hdraining.writes.hasColumn h.column
    · rintro items' r w' struck' ⟨rfl, ⟨⟨e, rfl⟩, rfl, hstruck⟩ | ⟨rfl, hok, hwrites⟩⟩
      · refine ⟨hstopped _ (by simp), fun hfalse => ?_⟩
        rw [Bool.or_eq_false_iff] at hfalse
        obtain ⟨b', hb'⟩ := hunstruck hfalse.1
        cases hb'
        rw [hstruck rfl] at hfalse
        cases hfalse.2
      · obtain ⟨hcolumn, hpending, hall⟩ := hdone b (by rw [← hok])
        rw [hcolumn, hpending] at hwrites
        have hflushed := hdraining.flush hwrites
        refine ⟨⟨_, _, hflushed.drained_all hlength hall, ?_, hflushed.writes⟩, fun _ => rfl⟩
        rw [List.append_nil, hdraining.sent_eq]

end Dictionary

end SnapshotStore
