import SnapshotStore.Proofs.Dictionary.Atomic
import SnapshotStore.Proofs.SubMap.Isolation

/-!
# Replacing a nested map by a stream

The entries that a nested map is to be replaced by come from a stream, which is asked for one entry
at a time (`SubMap.Intake.pull`) while a window is being filled (`SubMap.Intake.fill`); a window is
written before the next one is begun (`SubMap.Intake.writeAll`).  A malformed tail cannot be handed
on as a failure there.  It is noted aside, the input looks ended from then on, and only after the
last window was written does the note fail the operation.

`SubMap.setAllFrom_eq` shows that this is `SubMap.setAll`, which looks for the malformed tail first,
whatever the stream would answer if it were asked again after its end.  What is left to be said is
which entries come before that tail and what the map has once they are put
(`Database.setAll_stops_at_malformed`).
-/

namespace SnapshotStore

namespace SubMap

/-! ## The stream is read as windows are filled -/

/-- The input of a replacement as it is read. -/
structure Intake where
  /-- What the stream of the caller answers from now on; nothing is its end. -/
  answers : List (Option Entry)
  /-- The refusal of a malformed tail, after which the stream is not asked any more. -/
  refusal : Option StoreError

namespace Intake

variable (m : SubMap) (b : WindowBounds Entry)

/-- Asks for one entry, under its key. -/
def pull : Intake → Option Entry × Intake
  | ⟨answers, some e⟩ => (none, ⟨answers, some e⟩)
  | ⟨[], none⟩ => (none, ⟨[], none⟩)
  | ⟨none :: rest, none⟩ => (none, ⟨rest, none⟩)
  | ⟨some (tail, value) :: rest, none⟩ =>
    match m.fullKey tail with
    | .ok key => (some (key, value), ⟨rest, none⟩)
    | .error e => (none, ⟨rest, some e⟩)

/-- An entry is one answer less to come. -/
theorem length_answers_pull (x : Intake) :
    (x.pull m).2.answers.length + (x.pull m).1.toList.length ≤ x.answers.length := by
  unfold pull
  split
  · exact Nat.le_refl _
  · exact Nat.le_refl _
  · exact Nat.le_succ _
  · split
    · exact Nat.le_refl _
    · exact Nat.le_succ _

/-- Takes entries into a window that already has some: the new entries, whether the input looked
ended, and what is left of it. -/
def fill (items bytes : Nat) (x : Intake) : List Entry × Bool × Intake :=
  if b.wants items bytes then
    match _h : x.pull m with
    | (none, x') => ([], true, x')
    | (some e, x') =>
      let (window, ended, x'') := fill (items + 1) (b.add bytes (b.size e)) x'
      (e :: window, ended, x'')
  else ([], false, x)
termination_by x.answers.length
decreasing_by
  have hpull := length_answers_pull m x
  rw [_h] at hpull
  exact hpull

/-- A full window does not read the stream. -/
theorem fill_of_not_wants {items bytes : Nat} (h : ¬ b.wants items bytes = true) (x : Intake) :
    x.fill m b items bytes = ([], false, x) := by
  rw [fill, if_neg h]

/-- A window that wants an entry and gets none is the last one. -/
theorem fill_of_pull_none {items bytes : Nat} (h : b.wants items bytes = true) {x x' : Intake}
    (hpull : x.pull m = (none, x')) : x.fill m b items bytes = ([], true, x') := by
  rw [fill, if_pos h]
  split
  · rename_i hnone
    rw [hpull] at hnone
    cases hnone
    rfl
  · rename_i hsome
    rw [hpull] at hsome
    cases hsome

/-- An entry that is read joins the window. -/
theorem fill_of_pull_some {items bytes : Nat} (h : b.wants items bytes = true) {x x' : Intake}
    {e : Entry} (hpull : x.pull m = (some e, x')) :
    x.fill m b items bytes
      = let r := x'.fill m b (items + 1) (b.add bytes (b.size e))
        (e :: r.1, r.2) := by
  rw [fill, if_pos h]
  split
  · rename_i hnone
    rw [hpull] at hnone
    cases hnone
  · rename_i hsome
    rw [hpull] at hsome
    cases hsome
    rfl

/-- Each entry of a window was an answer of the stream. -/
theorem length_answers_fill (items bytes : Nat) (x : Intake) :
    (x.fill m b items bytes).2.2.answers.length + (x.fill m b items bytes).1.length
      ≤ x.answers.length := by
  fun_induction fill m b items bytes x with
  | case1 items bytes x hwants x' hpull =>
    have hlength := length_answers_pull m x
    rw [hpull] at hlength
    exact hlength
  | case2 items bytes x hwants e x' hpull window ended x'' hfill ih =>
    have hlength := length_answers_pull m x
    rw [hpull] at hlength
    rw [hfill] at ih
    simp only [List.length_cons, Option.toList_some, List.length_nil] at hlength ih ⊢
    omega
  | case3 items bytes x hwants => exact Nat.le_refl _

/-- Writes windows until the input looks ended, and then tells what was noted aside. -/
def writeAll (p : Pool) (ended : Bool) (x : Intake) (k : Backend) :
    Except StoreError (Option StoreError) × Backend :=
  if ended then (.ok x.refusal, k)
  else
    match _h : x.fill m b 0 0 with
    | ([], _, x') => (.ok x'.refusal, k)
    | (e :: window, ended, x') =>
      match m.dictionary.writeStep m.range (e :: window) with
      | .error failure => (.error failure, k)
      | .ok w =>
        match p.run w k with
        | (.ok (), k) => writeAll p ended x' k
        | (.error failure, k) => (.error failure, k)
termination_by x.answers.length
decreasing_by
  have hfill := length_answers_fill m b 0 0 x
  rw [_h] at hfill
  exact Nat.lt_of_lt_of_le (Nat.lt_add_of_pos_right (Nat.succ_pos _)) hfill

/-! ## What is read -/

/-- The entries before the first malformed tail are still to come, and then its refusal, if there
is one; the stream may answer anything behind its end. -/
def Brings (x : Intake) (entries : List Entry) (refused : Option StoreError) : Prop :=
  ∃ (input : List Entry) (later : List (Option Entry)),
    x = ⟨input.map some ++ none :: later, none⟩ ∧ m.fullEntries input = (entries, refused)

variable {m} {x : Intake} {e : Entry} {entries : List Entry} {refused : Option StoreError}

/-- The stream brings its entries one by one. -/
theorem Brings.pull_cons (h : x.Brings m (e :: entries) refused) :
    ∃ x', x.pull m = (some e, x') ∧ x'.Brings m entries refused := by
  obtain ⟨input, later, rfl, hfull⟩ := h
  cases input with
  | nil => cases hfull
  | cons entry rest =>
    obtain ⟨tail, value⟩ := entry
    cases hkey : m.fullKey tail with
    | ok key =>
      simp only [fullEntries, hkey] at hfull
      cases hfull
      refine ⟨⟨rest.map some ++ none :: later, none⟩, ?_, rest, later, rfl, rfl⟩
      simp only [List.map_cons, List.cons_append, pull, hkey]
    | error failure =>
      simp only [fullEntries, hkey] at hfull
      cases hfull

/-- At a malformed tail the input looks as at its end, but for the note. -/
theorem Brings.pull_nil (h : x.Brings m [] refused) :
    ∃ x', x.pull m = (none, x') ∧ x'.refusal = refused := by
  obtain ⟨input, later, rfl, hfull⟩ := h
  cases input with
  | nil =>
    cases hfull
    exact ⟨_, rfl, rfl⟩
  | cons entry rest =>
    obtain ⟨tail, value⟩ := entry
    cases hkey : m.fullKey tail with
    | ok key =>
      simp only [fullEntries, hkey] at hfull
      cases hfull
    | error failure =>
      simp only [fullEntries, hkey] at hfull
      cases hfull
      refine ⟨⟨rest.map some ++ none :: later, some failure⟩, ?_, rfl⟩
      simp only [List.map_cons, List.cons_append, pull, hkey]

/-- What is left of an input when a list of entries is left of the window cutter's one. -/
def Keeps (m : SubMap) (refused : Option StoreError) : Feed Entry → Bool → Intake → Prop
  | .more entries, ended, x => ended = false ∧ x.Brings m entries refused
  | .ended, ended, x => ended = true ∧ x.refusal = refused

/-- A window of the stream is the window of the entries that it brings: the end is seen when the
window still wants an entry, be the end one of the stream or a malformed tail. -/
theorem Brings.fill_eq (h : x.Brings m entries refused) (items bytes : Nat) :
    ∃ ended x', x.fill m b items bytes = ((b.fill items bytes entries).1, ended, x') ∧
      Keeps m refused (b.fill items bytes entries).2 ended x' := by
  induction entries generalizing x items bytes with
  | nil =>
    unfold WindowBounds.fill
    -- Whether the stream is read depends on the window alone, so it is read as the list is.
    by_cases hwants : b.wants items bytes = true
    · obtain ⟨x', hpull, hrefusal⟩ := h.pull_nil
      rw [if_pos hwants, fill_of_pull_none m b hwants hpull]
      exact ⟨true, x', rfl, rfl, hrefusal⟩
    · rw [if_neg hwants, fill_of_not_wants m b hwants]
      exact ⟨false, x, rfl, rfl, h⟩
  | cons e entries ih =>
    unfold WindowBounds.fill
    by_cases hwants : b.wants items bytes = true
    · obtain ⟨x', hpull, hbrings⟩ := h.pull_cons
      obtain ⟨ended, x'', hfill, hkeeps⟩ := ih hbrings (items + 1) (b.add bytes (b.size e))
      rw [if_pos hwants, fill_of_pull_some m b hwants hpull, hfill]
      exact ⟨ended, x'', rfl, hkeeps⟩
    · rw [if_neg hwants, fill_of_not_wants m b hwants]
      exact ⟨false, x, rfl, rfl, h⟩

variable {p : Pool} {k : Backend}

/-- After the end of the stream nothing is written, and the refusal is what stays. -/
theorem writeAll_of_ended (x : Intake) : x.writeAll m b p true k = (.ok x.refusal, k) := by
  rw [writeAll, if_pos rfl]

/-- The same goes if no window comes about. -/
theorem writeAll_of_fill_nil {x x' : Intake} {ended : Bool}
    (hfill : x.fill m b 0 0 = ([], ended, x')) :
    x.writeAll m b p false k = (.ok x'.refusal, k) := by
  rw [writeAll, if_neg (by decide)]
  split
  · rename_i hnil
    rw [hfill] at hnil
    cases hnil
    rfl
  · rename_i hcons
    rw [hfill] at hcons
    cases hcons

theorem writeAll_of_fill_cons {x x' : Intake} {window : List Entry} {ended : Bool}
    (hfill : x.fill m b 0 0 = (e :: window, ended, x')) :
    x.writeAll m b p false k
      = match m.dictionary.writeStep m.range (e :: window) with
        | .error failure => (.error failure, k)
        | .ok w =>
          match p.run w k with
          | (.ok (), k) => x'.writeAll m b p ended k
          | (.error failure, k) => (.error failure, k) := by
  rw [writeAll, if_neg (by decide)]
  split
  · rename_i hnil
    rw [hfill] at hnil
    cases hnil
  · rename_i hcons
    rw [hfill] at hcons
    cases hcons
    rfl

/-- Nothing is written when no entry is left. -/
theorem writeAll_of_items_eq_nil {feed : Feed Entry} (hitems : feed.items = []) {ended : Bool}
    (h : Keeps m refused feed ended x) : x.writeAll m b p ended k = (.ok refused, k) := by
  cases feed with
  | ended =>
    obtain ⟨rfl, rfl⟩ := h
    exact writeAll_of_ended b x
  | more entries =>
    obtain rfl : entries = [] := hitems
    obtain ⟨rfl, hbrings⟩ := h
    obtain ⟨x', hpull, rfl⟩ := hbrings.pull_nil
    exact writeAll_of_fill_nil b (fill_of_pull_none m b (by simp [WindowBounds.wants]) hpull)

/-- The windows of the stream are written like those of the entries that it brings. -/
theorem writeAll_eq {fuel : Nat} {feed : Feed Entry} (hfuel : feed.items.length ≤ fuel)
    {ended : Bool} (h : Keeps m refused feed ended x) (p : Pool) (k : Backend) :
    x.writeAll m b p ended k
      = let r := p.runSteps ((feed.windows b fuel).map (m.dictionary.writeStep m.range)) k
        (r.1.map fun _ => refused, r.2) := by
  induction fuel generalizing feed ended x k with
  | zero =>
    exact writeAll_of_items_eq_nil b (List.eq_nil_of_length_eq_zero (Nat.le_zero.mp hfuel)) h
  | succ fuel ih =>
    -- With entries left there is a window, and behind it the writes go on with less of them.
    by_cases hitems : feed.items = []
    · rw [Feed.windows, Feed.next?_of_items_eq_nil hitems]
      exact writeAll_of_items_eq_nil b hitems h
    · obtain ⟨window, left, hnext, hwindow, happend⟩ := Feed.next?_of_items_ne_nil (b := b) hitems
      obtain ⟨e, window, rfl⟩ := List.exists_cons_of_ne_nil hwindow
      have hleft : left.items.length ≤ fuel := by
        have hlength := congrArg List.length happend
        rw [List.length_append, List.length_cons] at hlength
        omega
      rw [Feed.windows, hnext]
      cases feed with
      | ended => exact absurd rfl hitems
      | more entries =>
        obtain ⟨rfl, hbrings⟩ := h
        obtain ⟨ended, x', hfill, hkeeps⟩ := hbrings.fill_eq b 0 0
        rw [Feed.fill_of_next? hnext] at hfill hkeeps
        rw [writeAll_of_fill_cons b hfill, List.map_cons]
        cases hstep : m.dictionary.writeStep m.range (e :: window) with
        | error failure => simp only [Pool.runSteps]; rfl
        | ok w =>
          simp only [Pool.runSteps]
          cases p.run w k with
          | mk r k' =>
            cases r with
            | ok u => exact ih hleft hkeeps k'
            | error failure => rfl

/-- All that an input brings is written as the steps of its entries are. -/
theorem Brings.writeAll_eq (h : x.Brings m entries refused) (p : Pool) (k : Backend) :
    x.writeAll m m.dictionary.entryBounds p false k
      = let r := p.runSteps (m.dictionary.writeSteps m.range entries) k
        (r.1.map fun _ => refused, r.2) := by
  have hkeeps : Keeps m refused (.more entries) false x := ⟨rfl, h⟩
  exact Intake.writeAll_eq m.dictionary.entryBounds (Nat.le_refl _) hkeeps p k

end Intake

/-- Replaces the contents by the entries of a stream, told by what it answers; the note of a
malformed tail fails the operation at the end. -/
def setAllFrom (m : SubMap) (answers : List (Option Entry)) : Store.Op Unit :=
  ExceptT.mk <| Store.onBackend m.dictionary fun p k =>
    match p.run (m.dictionary.deleteRange m.range) k with
    | (.error failure, k) => (.error failure, p, k)
    | (.ok (), k) =>
      let (r, k) := Intake.writeAll m m.dictionary.entryBounds p false ⟨answers, none⟩ k
      (r.bind fun refusal => refusal.elim (.ok ()) .error, p, k)

/-- **To replace a nested map by a stream is to replace it by the entries of the stream**, and what
the stream would answer behind its end does not matter. -/
theorem setAllFrom_eq (m : SubMap) (entries : List Entry) (later : List (Option Entry)) :
    m.setAllFrom (entries.map some ++ none :: later) = m.setAll entries := by
  obtain ⟨full, refused, hfull⟩ : ∃ full refused, m.fullEntries entries = (full, refused) :=
    ⟨_, _, rfl⟩
  have hbrings : Intake.Brings m ⟨entries.map some ++ none :: later, none⟩ full refused :=
    ⟨entries, later, rfl, hfull⟩
  funext s
  -- Both are told by what becomes of the steps that replace the range.
  obtain ⟨r, k, hsteps⟩ : ∃ r k, s.database.pool.runSteps
      (m.dictionary.replaceSteps m.range full) (s.backend m.dictionary) = (r, k) := ⟨_, _, rfl⟩
  have hset : (Store.setRange m.dictionary m.range full).run s
      = (r, s.absorb m.dictionary s.database.pool k) := by
    simp only [Store.setRange, Store.runSteps, ExceptT.run_mk, Store.onBackend, hsteps]
  have hfrom : (m.setAllFrom (entries.map some ++ none :: later)).run s
      = (r.bind fun _ => refused.elim (.ok ()) .error,
        s.absorb m.dictionary s.database.pool k) := by
    rw [Dictionary.replaceSteps, Pool.runSteps] at hsteps
    simp only [setAllFrom, ExceptT.run_mk, Store.onBackend, hbrings.writeAll_eq]
    cases hdelete : s.database.pool.run (m.dictionary.deleteRange m.range)
        (s.backend m.dictionary) with
    | mk deleted k' =>
      rw [hdelete] at hsteps
      cases deleted with
      | error failure =>
        cases hsteps
        rfl
      | ok u =>
        simp only at hsteps
        simp only [hsteps]
        cases r <;> rfl
  show (m.setAllFrom _).run s = (m.setAll entries).run s
  rw [hfrom]
  unfold setAll
  simp only [hfull]
  cases r with
  | error failure => exact (Store.run_bind_of_error hset).symm
  | ok u =>
    rw [Store.run_bind_of_ok hset]
    cases refused with
    | none => rfl
    | some e => rfl

/-! ## What is put -/

/-- The entries before the first malformed tail are put under their keys, and that tail is
refused. -/
theorem fullEntries_eq (A : SubMap) (entries : List Entry) :
    A.fullEntries entries
      = ((entries.takeWhile fun e => e.1.length = A.layout.tailLen).map
          fun e => (A.stem ++ e.1, e.2),
        (entries.find? fun e => e.1.length ≠ A.layout.tailLen).map fun e => .invalidArgument
          (KeyLayout.Mismatch.width .tail e.1.length A.layout.tailLen).message) := by
  induction entries with
  | nil => rfl
  | cons e rest ih =>
    obtain ⟨tail, value⟩ := e
    by_cases htail : tail.length = A.layout.tailLen
    · simp [fullEntries, fullKey_of_length htail, ih, htail]
    · simp [fullEntries, fullKey_of_length_ne htail, htail]

/-- Behind one stem, tails are looked up like their keys. -/
theorem lookup_map_stem (stem tail : Bytes) (entries : List Entry) :
    (entries.map fun e => (stem ++ e.1, e.2)).lookup (stem ++ tail) = entries.lookup tail := by
  induction entries with
  | nil => rfl
  | cons e rest ih =>
    obtain ⟨tail', value⟩ := e
    rw [List.map_cons, List.lookup_cons, List.lookup_cons, ih]
    by_cases heq : tail = tail'
    · simp [heq]
    · have hne : stem ++ tail ≠ stem ++ tail' := fun h => heq (List.append_cancel_left h)
      rw [beq_false_of_ne heq, beq_false_of_ne hne]

/-- Writes of a nested map edit its own keys, however many they are. -/
theorem Edits.applyAll {A : SubMap} {c c₁ : Contents} (h : A.Edits c c₁) (hA : A.Selects)
    {batch : WriteBatch} (hbatch : ∀ op ∈ batch, A.Touches op) : A.Edits c (c₁.applyAll batch) := by
  induction batch generalizing c₁ with
  | nil => exact h
  | cons op batch ih =>
    exact ih (h.apply hA (hbatch op (by simp))) fun op hop => hbatch op (List.mem_cons_of_mem _ hop)

namespace Selects

variable {A : SubMap} {m : PlainMap}

/-- To replace a nested map edits its own keys. -/
theorem edits_replaced (hA : A.Selects) (hm : m.get.HasWidth A.layout.keyLen)
    (entries : List Entry) :
    A.Edits m.get ((m.apply (.deleteRange A.range)).puts (A.fullEntries entries).1).get := by
  rw [PlainMap.get_puts, PlainMap.get_apply]
  have hcleared : A.Edits m.get (m.get.apply (.deleteRange A.range)) :=
    (Edits.refl hm).apply hA .deleteRange
  refine hcleared.applyAll hA fun op hop => ?_
  obtain ⟨e, he, rfl⟩ := List.mem_map.mp hop
  exact .put e.2 (hA.owns_of_mem_fullEntries entries e he)

/-- A nested map that was replaced has the entries before the first malformed tail, and nothing of
what it had. -/
theorem get_replaced (hA : A.Selects) (hm : m.get.HasWidth A.layout.keyLen) (entries : List Entry)
    (tail : Bytes) :
    ((m.apply (.deleteRange A.range)).puts (A.fullEntries entries).1).get (A.stem ++ tail)
      = (entries.takeWhile fun e => e.1.length = A.layout.tailLen).reverse.lookup tail := by
  have hgone : (if A.range.contains (A.stem ++ tail) then none else m.get (A.stem ++ tail))
      = none := by
    split
    · rfl
    · rename_i hout
      -- A key with the stem that lies outside the range has another width.
      exact hm.eq_none fun hlength =>
        hout ((hA.contains_iff _ hlength).mpr (List.prefix_append _ _))
  rw [PlainMap.get_replaced, Contents.replaced, fullEntries_eq, ← List.map_reverse,
    lookup_map_stem, hgone, Option.or_none]

/-- No window of the entries is refused for a key outside the range. -/
theorem writeStep_eq (hA : A.Selects) (entries : List Entry) {window : List Entry}
    (h : window ∈ A.dictionary.entryWindows (A.fullEntries entries).1) :
    A.dictionary.writeStep A.range window
      = .ok (discard <| A.dictionary.putWindow window false) := by
  have hfind : window.find? (fun e => !A.range.contains e.1) = none := by
    refine List.find?_eq_none.mpr fun e he => ?_
    have hmem := Dictionary.mem_of_mem_entryWindows h he
    simp [hA.contains (hA.owns_of_mem_fullEntries entries e hmem)]
  rw [Dictionary.writeStep, hfind]

end Selects

end SubMap

/-- **Replacing a nested map stops exactly at the first malformed tail.**  In a dictionary that was
written only through nested maps with keys of one width, with an engine that works, the nested map
then shows the entries before that tail (all of them if there is none), of which the last one with a
tail counts, and nothing of what it had.  Keys with another beginning keep their values.  The
operation is refused exactly if there is such a tail, and names its width.  No window of the entries
is refused for a key outside the range, nor is the replacement of the range.  And it is all the same
whether the entries are at hand, or come from a stream that is read as the windows are filled. -/
theorem Database.setAll_stops_at_malformed {name engineName : String} {config : Config}
    {pool : Option Pool} {db : Database} (hcreate : create name engineName config pool = .ok db)
    (hpool : ∀ p ∈ pool, p.IsReady) (options : Engine.Options) {script : List Request}
    {dictionary : String} {stem : Bytes} {layout : KeyLayout}
    (hscript : ∀ r ∈ script, r.IsNested dictionary layout.keyLen) {A : SubMap}
    (hA : (Store.after ⟨.reliable (.new options), db⟩ script).database.nested? dictionary stem
      layout = some (.ok A)) (entries : List Entry) :
    let s := Store.after ⟨.reliable (.new options), db⟩ script
    let after := (Request.nested dictionary stem layout (.setAll entries)).run s
    let kept := entries.takeWhile fun e => e.1.length = layout.tailLen
    let malformed := entries.find? fun e => e.1.length ≠ layout.tailLen
    (∃ part, A.Shows after.2 none part ∧ ∀ tail, part.get tail = kept.reverse.lookup tail) ∧
      (∀ tail, after.2.stored A.dictionary .latest (stem ++ tail)
        = .ok (kept.reverse.lookup tail)) ∧
      (∀ key, ¬ stem <+: key → after.2.stored A.dictionary .latest key
        = s.stored A.dictionary .latest key) ∧
      (after.1 = match malformed with
        | some e => .refused (.invalidArgument
          (KeyLayout.Mismatch.width .tail e.1.length layout.tailLen).message)
        | none => .done) ∧
      (∀ window ∈ A.dictionary.entryWindows (A.fullEntries entries).1,
        A.dictionary.writeStep A.range window
          = .ok (discard <| A.dictionary.putWindow window false)) ∧
      ((DictionaryOp.setRange A.range (A.fullEntries entries).1).run A.dictionary s).1 = .done ∧
      ∀ later, A.setAllFrom (entries.map some ++ none :: later) = A.setAll entries := by
  intro s after kept malformed
  obtain ⟨w, hw⟩ : ∃ w, s.IsPartitioned dictionary layout.keyLen w :=
    (isPartitioned_create hcreate hpool options [] dictionary layout.keyLen).after hscript
  obtain ⟨hd, rfl, rfl, hsel⟩ := Store.nested?_eq_some hA
  obtain ⟨p, hnumbered, hp⟩ := hw.recovers.exists_refines
  have hmend : s.mend = s := by
    obtain ⟨-, w, hrefines⟩ := (matches_create hcreate hpool options).after
      fun r hr => (hscript r hr).ne_close
    exact hrefines.isIn.mend_eq
  have hm : (p.now dictionary).get.HasWidth A.layout.keyLen :=
    hw.width_of_shown hp hd (show p.shown none = .ok p.now from rfl)
  rw [hmend] at hp
  have hmatches : s.Matches p := ⟨hnumbered, w, hp⟩
  -- The map of the dictionary afterwards.
  obtain ⟨m, hm'⟩ : ∃ m, ((p.now dictionary).apply (.deleteRange A.range)).puts
      (A.fullEntries entries).1 = m := ⟨_, rfl⟩
  have hedits : A.Edits (p.now dictionary).get m.get := hm' ▸ hsel.edits_replaced hm entries
  have hget : ∀ tail, m.get (A.stem ++ tail) = kept.reverse.lookup tail :=
    fun tail => hm' ▸ hsel.get_replaced hm entries tail
  have hrun : after = (SubMapOp.setAll entries).run A s := by
    have hnested : s.database.nested? dictionary A.stem A.layout = some (.ok A) := hA
    simp only [after, Request.run, hnested]
  obtain ⟨hreply, hmatches'⟩ := hmatches.nested hd hsel (.setAll entries)
  rw [← hrun] at hreply hmatches'
  have hnext : after.2.Matches (p.set dictionary m) := by
    rwa [SubMapOp.plain, hm'] at hmatches'
  have hd' : after.2.database.find? dictionary = some A.dictionary := by
    rw [hrun]
    exact ((hw.nested hA rfl (.setAll entries)).1.find?_eq dictionary).trans hd
  have hnow : (p.set dictionary m).now dictionary = m := PlainStore.now_set_self ..
  have hstored : ∀ key, after.2.stored A.dictionary .latest key = .ok (m.get key) := fun key => by
    rw [hnext.stored_latest hd', hnow]
  refine ⟨?shows, fun tail => ?_, fun key hkey => ?_, ?_,
    fun window hwindow => hsel.writeStep_eq entries hwindow, ?_, A.setAllFrom_eq entries⟩
  case shows =>
    have hwidth : ((p.set dictionary m).now dictionary).get.HasWidth A.layout.keyLen := by
      rw [hnow]
      exact hedits.width
    refine ⟨_, hnext.shows_part hd' hsel rfl hwidth, fun tail => ?_⟩
    rw [SubMap.get_partMap, hnow, hget]
  · rw [hstored, hget]
  · rw [hstored, hmatches.stored_latest hd, hedits.get_eq key hkey]
  · rw [hreply, SubMapOp.plain, SubMap.fullEntries_eq]
    show Option.elim (malformed.map _) _ _ = _
    cases malformed <;> rfl
  · rw [(hp.alike_op hd (.setRange A.range (A.fullEntries entries).1)).1,
      PlainStore.plain_setRange_of_fits p dictionary A.dictionary.mode fun e he =>
        hsel.contains (hsel.owns_of_mem_fullEntries entries e he)]

/-- A malformed tail at the end of a window of two entries: the window before it stays. -/
theorem Database.setAll_stops_at_window_end :
    let config : Config := { Config.testing with multiGetWindow := 2 }
    let script : List Request :=
      [.act (.opening "d" .allow), .nested "d" [1] ⟨1, 1, 0⟩ (.put [9] [90] .previousValue)]
    let s := Store.after ⟨.reliable (.new (engineOptions config)), { hasty with config }⟩ script
    let after := (Request.nested "d" [1] ⟨1, 1, 0⟩
      (.setAll [([1], [10]), ([2], [20]), ([3, 3], [30]), ([4], [40])])).run s
    after.1 = .refused (.invalidArgument (KeyLayout.Mismatch.width .tail 2 1).message) ∧
      ∃ (A : SubMap) (part : PlainMap), A.Shows after.2 none part ∧ part.get [2] = some [20] ∧
        part.get [4] = none ∧ part.get [9] = none := by
  intro config script s after
  obtain ⟨d, hd⟩ : ∃ d, s.database.find? "d" = some d :=
    ⟨_, (Option.some_get (by decide +kernel)).symm⟩
  obtain ⟨A, hA⟩ : ∃ A, s.database.nested? "d" [1] ⟨1, 1, 0⟩ = some (.ok A) := by
    rw [nested?, hd]
    exact ⟨_, rfl⟩
  have hscript : ∀ r ∈ script, r.IsNested "d" (⟨1, 1, 0⟩ : KeyLayout).keyLen := by
    simp [script, Request.IsNested, KeyLayout.keyLen]
  have hcreate : create "db" "memory" config none = .ok { hasty with config } := rfl
  obtain ⟨⟨part, hshows, hpart⟩, -, -, hreply, -⟩ := setAll_stops_at_malformed hcreate (by simp)
    (engineOptions config) hscript hA [([1], [10]), ([2], [20]), ([3, 3], [30]), ([4], [40])]
  exact ⟨hreply, A, part, hshows, hpart [2], hpart [4], hpart [9]⟩

end SnapshotStore
