import SnapshotStore.Dictionary.Range
import SnapshotStore.Proofs.Dictionary.Multi
import SnapshotStore.Proofs.Engine.Cursor

/-!
# What a walk through a range visits

A walk visits exactly the entries of the range in the state that it was opened at, in ascending key
order, until its visitor stops: `Visits` says what a visitor makes of a list of entries, and
`Dictionary.emits_visit_scan` and `Dictionary.emits_visit_single` that a walk is that.  A visitor
may write to the column that is walked, since the walk keeps seeing the old state, and it may send
items.
-/

namespace SnapshotStore

variable {ε σ : Type}

/-- A visitor takes some entries one after the other, until it stops, and sends some items, as far
as there is budget for them; all it may change is one column. -/
inductive Visits (visitor : σ → Entry → Work ε (Bool × σ)) (n : Nat) :
    List Entry → σ → Nat → World → List (Except StoreError ε) → σ → World → Prop
  /-- All entries were visited. -/
  | nil (s : σ) (k : Nat) (w : World) : Visits visitor n [] s k w [] s w
  /-- The visitor stops. -/
  | stop {entry : Entry} {rest : List Entry} {s s' : σ} {k : Nat} {w w' : World}
      {items : List (Except StoreError ε)}
      (hvisit : (visitor s entry).Emits k w items (.done (false, s')) w')
      (hwrites : w.Writes n (w'.now n) w') : Visits visitor n (entry :: rest) s k w items s' w'
  /-- The visitor goes on. -/
  | next {entry : Entry} {rest : List Entry} {s s₁ s' : σ} {k : Nat} {w w₁ w' : World}
      {items items' : List (Except StoreError ε)}
      (hvisit : (visitor s entry).Emits k w items (.done (true, s₁)) w₁)
      (hwrites : w.Writes n (w₁.now n) w₁)
      (hrest : Visits visitor n rest s₁ (k - items.length) w₁ items' s' w') :
      Visits visitor n (entry :: rest) s k w (items ++ items') s' w'

namespace Visits

variable {visitor : σ → Entry → Work ε (Bool × σ)} {n k : Nat} {entry : Entry}
  {entries : List Entry} {s s₁ s' : σ} {w w₁ w' : World} {items : List (Except StoreError ε)}

/-- A visitor that sends nothing goes on. -/
theorem next_takes (hvisit : (visitor s entry).Takes w (.done (true, s₁)) w₁)
    (hwrites : w.Writes n (w₁.now n) w₁) (hrest : Visits visitor n entries s₁ k w₁ items s' w') :
    Visits visitor n (entry :: entries) s k w items s' w' := .next (hvisit.emits k) hwrites hrest

/-- A visitor that sends one item goes on. -/
theorem next_sent {item : Except StoreError ε}
    (hvisit : (visitor s entry).Emits (k + 1) w [item] (.done (true, s₁)) w₁)
    (hwrites : w.Writes n (w₁.now n) w₁) (hrest : Visits visitor n entries s₁ k w₁ items s' w') :
    Visits visitor n (entry :: entries) s (k + 1) w (item :: items) s' w' :=
  .next hvisit hwrites hrest

/-- What the visits changed is what the world has then. -/
theorem writes (h : Visits visitor n entries s k w items s' w') : w.Writes n (w'.now n) w' := by
  induction h with
  | nil s k w => exact .refl w n
  | stop hvisit hwrites => exact hwrites
  | next hvisit hwrites hrest ih => exact hwrites.trans ih

end Visits

/-- What a visitor without effects makes of some entries. -/
def foldUntil (f : σ → Entry → Bool × σ) (s : σ) : List Entry → σ
  | [] => s
  | entry :: rest => if (f s entry).1 then foldUntil f (f s entry).2 rest else (f s entry).2

/-- A visitor without effects is a fold that may stop early. -/
theorem visits_pure {visitor : σ → Entry → Work ε (Bool × σ)} {f : σ → Entry → Bool × σ}
    (hf : ∀ s entry, visitor s entry = pure (f s entry)) (n : Nat) (entries : List Entry) (s : σ)
    (k : Nat) (w : World) :
    Visits visitor n entries s k w [] (foldUntil f s entries) w := by
  induction entries generalizing s with
  | nil => exact .nil s k w
  | cons entry rest ih =>
    have hvisit : (visitor s entry).Takes w (.done (f s entry)) w := by
      rw [hf]
      exact Work.takes_pure _ _
    unfold foldUntil
    cases hgo : (f s entry).1 with
    | true =>
      rw [← Prod.eta (f s entry), hgo] at hvisit
      exact .next_takes hvisit (.refl w n) (ih _)
    | false =>
      rw [← Prod.eta (f s entry), hgo] at hvisit
      exact .stop (hvisit.emits k) (.refl w n)

/-- The entries of a range of one key. -/
theorem Contents.Lists.eq_of_single {m : Contents} {range : KeyRange} {entries : List Entry}
    (h : m.Lists range entries) {key : Bytes} (hsingle : range.singleKey? = some key) :
    entries = ((m key).map (key, ·)).toList := by
  have hcontains : ∀ k, range.contains k ↔ k = key := fun k => by simp [KeyRange.contains, hsingle]
  refine KeyMap.Sorted.eq_of_mem_iff h.sorted ?_ fun e => ?_
  · cases m key with
    | none => exact List.Pairwise.nil
    | some value => exact List.pairwise_singleton _ _
  · obtain ⟨k, value⟩ := e
    rw [h.mem_iff, hcontains]
    constructor
    · rintro ⟨rfl, hvalue⟩
      simp [hvalue]
    · intro hmem
      obtain ⟨v, hv, heq⟩ := Option.map_eq_some_iff.mp (Option.mem_toList.mp hmem)
      obtain ⟨rfl, rfl⟩ := Prod.mk.injEq .. ▸ heq
      exact ⟨rfl, hv⟩

namespace Dictionary

variable {d : Dictionary} {w w' : World} {visitor : σ → Entry → Work ε (Bool × σ)} {n q k : Nat}
  {range : KeyRange} {entries rest : List Entry} {s s' : σ} {items : List (Except StoreError ε)}

/-- A backend shows the state at a pinned sequence. -/
private theorem showsAt {b : Backend} (hb : b.IsIn w) (hn : w.HasColumn n) (hq : q ∈ w.pins) :
    b.engine.engine.ShowsAt n q (w.ledger.history.contents q n) := by
  obtain ⟨c, hc⟩ := hb.column_eq hn
  have hpinned : q ∈ b.engine.engine.pins := hb.pins_eq ▸ hq
  exact hb.agrees.represents.showsAt hc (Engine.pruneThreshold_le_of_mem hpinned)
    (hb.agrees.represents.pins_le q hpinned)

/-- The next entry of a cursor is the first that it still has to yield. -/
theorem next_eq_ok {b : Backend} (hb : b.IsIn w) (hn : w.HasColumn n) (hq : q ∈ w.pins)
    {cursor : Cursor} (hcursor : cursor.Walks n q range)
    (hlists : (w.ledger.history.contents q n).Lists range entries) :
    ∃ cursor' : Cursor, b.engine.engine.next cursor = .ok ((cursor.rest entries).head?, cursor') ∧
      cursor'.Walks n q range ∧ cursor'.rest entries = (cursor.rest entries).tail := by
  rcases hcursor.next (showsAt hb hn hq) hlists with ⟨-, hclosed⟩ | hnext
  · simp [hb.isClosed_eq] at hclosed
  · exact hnext

/-- The next entry of a walk is the first one that is left. -/
private theorem endsIn_next (context : String) {b : Backend} (hb : b.IsIn w) (hn : w.HasColumn n)
    (hq : q ∈ w.pins) {cursor : Cursor} (hcursor : cursor.Walks n q range)
    (hlists : (w.ledger.history.contents q n).Lists range entries) :
    ∃ cursor' : Cursor, (Work.call "iterate" context (.next cursor) : Work ε _).EndsIn b
        (.done ((cursor.rest entries).head?, cursor')) b ∧
      cursor'.Walks n q range ∧ cursor'.rest entries = (cursor.rest entries).tail := by
  obtain ⟨cursor', hnext, hcursor', hrest⟩ := next_eq_ok hb hn hq hcursor hlists
  have hcall := Work.endsIn_call_reading (ε := ε) hb.engine_eq (c := .next cursor) rfl "iterate"
    context
  simp only [Engine.answer, Engine.reading, hnext] at hcall
  exact ⟨cursor', hcall, hcursor', hrest⟩

/-- A walk visits what its cursor still has to yield. -/
theorem emits_walk (context : String) (hvisits : Visits visitor n rest s k w items s' w')
    (hn : w.HasColumn n) (hq : q ∈ w.pins) (hle : q ≤ w.ledger.history.length) {cursor : Cursor}
    (hcursor : cursor.Walks n q range)
    (hlists : (w.ledger.history.contents q n).Lists range entries)
    (hrest : cursor.rest entries = rest) {fuel : Nat} (hfuel : rest.length < fuel) :
    (walk context visitor fuel cursor s).Emits k w items (.done s') w' := by
  induction hvisits generalizing cursor fuel with
  | nil s k w =>
    intro b hb
    obtain ⟨fuel, rfl⟩ := Nat.exists_eq_succ_of_ne_zero (Nat.ne_zero_of_lt hfuel)
    obtain ⟨cursor', hnext, -, -⟩ := endsIn_next (ε := ε) context hb hn hq hcursor hlists
    rw [hrest] at hnext
    exact ⟨b, (hnext.bind (Work.endsIn_pure s b)).runs k, hb⟩
  | stop hvisit hwrites =>
    intro b hb
    obtain ⟨fuel, rfl⟩ := Nat.exists_eq_succ_of_ne_zero (Nat.ne_zero_of_lt hfuel)
    obtain ⟨cursor', hnext, -, -⟩ := endsIn_next (ε := ε) context hb hn hq hcursor hlists
    rw [hrest] at hnext
    obtain ⟨b', hb', hin⟩ := hvisit b hb
    exact ⟨b', hnext.bind_runs (hb'.bind_endsIn (Work.endsIn_pure _ b')), hin⟩
  | next hvisit hwrites _ ih =>
    intro b hb
    obtain ⟨fuel, rfl⟩ := Nat.exists_eq_succ_of_ne_zero (Nat.ne_zero_of_lt hfuel)
    obtain ⟨cursor', hnext, hcursor', hrest'⟩ := endsIn_next (ε := ε) context hb hn hq hcursor hlists
    rw [hrest] at hnext hrest'
    obtain ⟨b₁, hb₁, hin₁⟩ := hvisit b hb
    -- What the visitor wrote is not seen at the sequence of the cursor.
    obtain ⟨b', hb', hin⟩ := ih (hwrites.hasColumn hn) (hwrites.pins ▸ hq)
      (Nat.le_trans hle hwrites.length_le) hcursor' (hwrites.contents_eq hle n ▸ hlists) hrest'
      (by simpa using hfuel) b₁ hin₁
    exact ⟨b', hnext.bind_runs (hb₁.bind hb'), hin⟩

/-- The cursor of a scan has fuel for all entries of its range. -/
private theorem length_lt_budget {b : Backend} {c : Column} (hb : b.IsIn w) (hn : w.HasColumn n)
    (hc : b.engine.engine.columns[n]? = some c) (hq : q ∈ w.pins)
    (hlists : (w.ledger.history.contents q n).Lists range entries) :
    entries.length < c.chains.length + 1 := by
  have hwalks := Cursor.walks_cursorAt n c range q
  have hall : entries.filter ((Engine.cursorAt n c range q).resume.admitsAbove ·.1) = entries :=
    Cursor.rest_cursorAt c hlists
  rw [← hall, ← hwalks.visibleEntries_unread (showsAt hb hn hq) hlists]
  have hvisible := List.length_filterMap_le
    (fun e : Bytes × Chain => (e.2.valueAt (.at q)).map (e.1, ·))
    (b.engine.engine.unread (Engine.cursorAt n c range q))
  have hunread : (b.engine.engine.unread (Engine.cursorAt n c range q)).length
      ≤ c.chains.length := by
    have hcolumn : (Engine.cursorAt n c range q).column = n := rfl
    rw [Engine.unread, hcolumn, hc]
    exact List.length_filter_le _ _
  exact Nat.lt_succ_of_le (Nat.le_trans hvisible hunread)

variable {view : ReadView}

/-- A scan opens a cursor at the sequence of its view and pins it. -/
private theorem scan_eq_ok {b : Backend} {c : Column} (hb : b.IsIn w)
    (hc : b.engine.engine.columns[n]? = some c) (hview : w.CanRead view) (range : KeyRange) :
    b.engine.engine.scan n view range = .ok (Engine.cursorAt n c range (w.ledger.sequenceOf view),
      b.engine.engine.pin (w.ledger.sequenceOf view)) := by
  cases view with
  | latest =>
    rw [Engine.scan_latest_of_open hb.isClosed_eq hc, hb.agrees.represents.sequence_eq]
    rfl
  | «at» q =>
    have hpinned : q ∈ b.engine.engine.pins := hb.pins_eq ▸ hview
    rw [Engine.scan_at_of_open hb.isClosed_eq hc, if_pos hpinned]
    rfl

/-- A scan opened a cursor: it is at the sequence of its view, which is pinned, and still has to
yield all entries of the range, for which it has fuel. -/
structure Scanned (b : Backend) (w : World) (n : Nat) (view : ReadView) (range : KeyRange)
    (entries : List Entry) (cursor : Cursor) (engine : Engine) : Prop where
  /-- The engine answers with the cursor. -/
  answer_eq : b.engine.engine.answer (.scan n view range) = (.ok cursor, engine)
  /-- The engine pins the sequence. -/
  isIn : Backend.IsIn { b with engine := .reliable engine }
    { w with pins := w.ledger.sequenceOf view :: w.pins }
  /-- The cursor is at the sequence. -/
  sequence_eq : cursor.sequence = w.ledger.sequenceOf view
  /-- The cursor walks through the range. -/
  walks : cursor.Walks n (w.ledger.sequenceOf view) range
  /-- Nothing was yielded yet. -/
  rest_eq : cursor.rest entries = entries
  /-- The fuel of the cursor. -/
  length_lt : entries.length < cursor.budget
  /-- The sequence is not of the future. -/
  sequence_le : w.ledger.sequenceOf view ≤ w.ledger.history.length
  /-- The entries are those at the sequence. -/
  lists : (w.ledger.history.contents (w.ledger.sequenceOf view) n).Lists range entries

/-- A scan of a state that can be read succeeds. -/
theorem exists_scanned {b : Backend} (hb : b.IsIn w) (hn : w.HasColumn n) (hview : w.CanRead view)
    (hlists : (w.seen n view).Lists range entries) :
    ∃ cursor engine, Scanned b w n view range entries cursor engine := by
  obtain ⟨c, hc⟩ := hb.column_eq hn
  have hanswer : b.engine.engine.answer (.scan n view range)
      = (.ok (Engine.cursorAt n c range (w.ledger.sequenceOf view)),
        b.engine.engine.pin (w.ledger.sequenceOf view)) := by
    rw [Engine.answer, scan_eq_ok hb hc hview range]
    rfl
  have hpinned := hb.answer (.scan n view range)
  rw [hanswer] at hpinned
  have hlists' : (w.ledger.history.contents (w.ledger.sequenceOf view) n).Lists range entries := by
    cases view with
    | latest => exact hlists
    | «at» q => exact hlists
  have hsequence := hpinned.agrees.represents.pins_le (w.ledger.sequenceOf view)
    (List.mem_cons_self ..)
  rw [hpinned.agrees.represents.sequence_eq] at hsequence
  exact ⟨_, _, {
    answer_eq := hanswer
    isIn := hpinned
    sequence_eq := rfl
    walks := Cursor.walks_cursorAt n c range _
    rest_eq := Cursor.rest_cursorAt c hlists'
    length_lt := length_lt_budget hpinned hn hc (List.mem_cons_self ..) hlists'
    sequence_le := hsequence
    lists := hlists' }⟩

/-- A walk through a range of several keys visits the entries of the range. -/
theorem emits_visit_scan (hn : w.HasColumn d.column) (hview : w.CanRead view)
    (hsingle : range.singleKey? = none) (hlists : (w.seen d.column view).Lists range entries)
    (hvisits : Visits visitor d.column entries s k
      { w with pins := w.ledger.sequenceOf view :: w.pins } items s' w') :
    (d.visit view range visitor s).Emits k w items (.done s') { w' with pins := w.pins } := by
  intro b hb
  obtain ⟨cursor, engine, hscan⟩ := exists_scanned hb hn hview hlists
  have hcall := Work.endsIn_call (ε := ε) hb.engine_eq (.scan d.column view range) "iterate"
    range.display
  rw [hscan.answer_eq] at hcall
  have hwalk := emits_walk range.display hvisits hn (List.mem_cons_self ..) hscan.sequence_le
    hscan.walks hscan.lists hscan.rest_eq hscan.length_lt
  -- The pin of the cursor is the newest of the pins that the visitor left alone.
  have hunpin := Work.takes_unpin (ε := ε) (w := w') (w.ledger.sequenceOf view)
  rw [hvisits.writes.pins, List.erase_cons_head] at hunpin
  obtain ⟨b', hb', hin⟩ := hwalk.ensuring hunpin _ hscan.isIn
  refine ⟨b', ?_, hin⟩
  simp only [visit, hsingle]
  rw [← hscan.sequence_eq] at hb'
  exact hcall.bind_runs hb'

/-- A walk through the range of one key visits that key under its stripe. -/
theorem emits_visit_single (h : d.AtRest w) (hview : w.CanRead view) {key : Bytes}
    (hsingle : range.singleKey? = some key) (hlists : (w.seen d.column view).Lists range entries)
    (hvisits : Visits visitor d.column entries s k
      { w with stripes := w.stripes.taken .shared (d.readStripes view [key]) } items s' w') :
    (d.visit view range visitor s).Emits k w items (.done s') { w' with stripes := w.stripes } := by
  simp only [visit, hsingle]
  refine Work.Emits.holding (fun i _ => h.areIdle i) (d.nodup_readStripes view [key])
    hvisits.writes.stripes ?_
  have hread := takes_read (ε := ε)
    (w := { w with stripes := w.stripes.taken .shared (d.readStripes view [key]) }) h.column hview key
    false
  have hseen : ∀ l, World.seen { w with stripes := l } d.column view = w.seen d.column view := by
    intro l
    cases view <;> rfl
  -- The range has at most one entry, and the key is read instead of walking to it.
  rw [hlists.eq_of_single hsingle] at hvisits
  rw [hseen] at hread
  cases hvalue : w.seen d.column view key with
  | none =>
    rw [hvalue] at hread hvisits
    cases hvisits
    exact hread.bind_emits ((Work.takes_pure s _).emits k)
  | some value =>
    rw [hvalue] at hread hvisits
    refine hread.bind_emits ?_
    cases hvisits with
    | stop hvisit hwrites => exact hvisit.bind_takes (Work.takes_pure _ _)
    | next hvisit hwrites hrest =>
      cases hrest
      rw [List.append_nil]
      exact hvisit.bind_takes (Work.takes_pure _ _)

/-- A walk whose visitor changes nothing changes nothing. -/
theorem emits_visit_reading (h : d.AtRest w) (hview : w.CanRead view)
    (hlists : (w.seen d.column view).Lists range entries)
    (hvisits : ∀ w, Visits visitor d.column entries s k w items s' w) :
    (d.visit view range visitor s).Emits k w items (.done s') w := by
  cases hsingle : range.singleKey? with
  | none =>
    have hscan := emits_visit_scan h.column hview hsingle hlists
      (hvisits { w with pins := w.ledger.sequenceOf view :: w.pins })
    exact hscan
  | some key =>
    have hread := emits_visit_single h hview hsingle hlists
      (hvisits { w with stripes := w.stripes.taken .shared (d.readStripes view [key]) })
    exact hread

/-- A walk whose visitor has no effects folds the entries of the range. -/
theorem takes_visit_pure (h : d.AtRest w) (hview : w.CanRead view) {f : σ → Entry → Bool × σ}
    (hf : ∀ s entry, visitor s entry = pure (f s entry))
    (hlists : (w.seen d.column view).Lists range entries) (s : σ) :
    (d.visit view range visitor s).Takes w (.done (foldUntil f s entries)) w :=
  (emits_visit_reading h hview hlists fun w => visits_pure hf d.column entries s 1 w).takes

end Dictionary

end SnapshotStore
