import Mathlib.Data.List.Destutter
import Mathlib.Data.List.SplitBy
import SnapshotStore.Proofs.Dictionary.Walk

/-!
# What streams over a range send

The producers of range streams walk through a state that nobody changes, so what they send depends
on that state alone: the entries of the range one by one, in groups of neighbours whose keys share a
stem, or the stems of the groups.  A consumer that goes away early cuts this list and changes
nothing.

`Work.Sends` says that of a producer; `Dictionary.sends_streamEntries`,
`Dictionary.sends_streamGroups` and `Dictionary.sends_streamStems` are the three kinds of streams.
-/

namespace SnapshotStore

variable {ε γ : Type} {w : World}

namespace Work

/-- A producer changes nothing, and sends some items as far as they are accepted. -/
def Sends (x : Work ε Unit) (w : World) (items : List (Except StoreError ε)) : Prop :=
  ∀ k, x.supervised.Emits k w (items.take k) (.done ()) w

theorem sends_of_emits {x : Work ε Unit} {items : List (Except StoreError ε)}
    (h : ∀ k, x.Emits k w (items.take k) (.done ()) w) : x.Sends w items := by
  intro k
  have hsupervised := (h k).supervised
  rwa [Outcome.report, List.take_nil, List.append_nil] at hsupervised

/-- Items that are changed on their way are the items of the producer, changed. -/
theorem Sends.mapItems {x : Work ε Unit} {items : List (Except StoreError ε)} (h : x.Sends w items)
    (f : ε → γ) : (x.mapItems f).Sends w (items.map (·.map f)) := by
  intro k b hb
  obtain ⟨b', hruns, hb'⟩ := h k b hb
  rw [supervised_mapItems, ← List.map_take]
  exact ⟨b', hruns.mapItems f, hb'⟩

/-- A producer that cannot read its snapshot sends that failure. -/
theorem sends_view_failed {token : Option Token} {e : StoreError}
    (htoken : w.snapshots.resolve token = .error e) (f : ReadView → Work ε Unit) :
    (Work.view token >>= f).Sends w [.error e] := fun k =>
  ((takes_view_failed htoken).bind_failed.emits k).supervised

end Work

namespace Dictionary

variable {d : Dictionary} {entries : List Entry} {range : KeyRange} {token : Option Token}
  {view : ReadView}

/-! ## Entries -/

/-- A visitor that sends a part of every entry stops when nobody takes it. -/
private theorem visits_emit (part : Entry → γ) (n : Nat) (entries : List Entry) (k : Nat)
    (w : World) :
    Visits (fun (_ : Unit) entry => do return (← Work.emit (part entry), ())) n entries () k w
      ((entries.map fun e => .ok (part e)).take k) () w := by
  induction entries generalizing k with
  | nil =>
    rw [List.map_nil, List.take_nil]
    exact .nil () k w
  | cons entry rest ih =>
    cases k with
    | zero =>
      exact .stop ((Work.emits_emit_refused _ w).bind_takes (Work.takes_pure _ _)) (.refl w n)
    | succ k =>
      exact .next_sent ((Work.emits_emit _ k w).bind_takes (Work.takes_pure _ _)) (.refl w n) (ih k)

/-- A stream of entries sends the entries of the range. -/
theorem sends_streamEntries (h : d.AtRest w) (htoken : w.snapshots.resolve token = .ok view)
    (hview : w.CanRead view) (hlists : (w.seen d.column view).Lists range entries)
    (part : Entry → γ) :
    (d.streamEntries part token range).Sends w (entries.map fun e => .ok (part e)) :=
  Work.sends_of_emits fun k => (Work.takes_view htoken).bind_emits
    (emits_visit_reading h hview hlists (visits_emit part d.column entries k))

/-! ## Groups -/

/-- The keys of two entries have the same stem. -/
def sharesStem (stemLen : Nat) (e e' : Entry) : Bool := e.1.stem stemLen == e'.1.stem stemLen

/-- Entries whose keys have one stem are one group. -/
theorem splitBy_of_stem {stemLen : Nat} {stem : Bytes} {group : List Entry}
    (hne : group ≠ []) (hstem : ∀ e ∈ group, e.1.stem stemLen = stem) :
    group.splitBy (sharesStem stemLen) = [group] := by
  refine List.splitBy_of_isChain hne (List.Pairwise.isChain ?_)
  exact List.pairwise_of_forall_mem_list fun e he e' he' => by
    simp [sharesStem, hstem e he, hstem e' he']

/-- An entry with another stem starts a new group. -/
theorem splitBy_append_of_ne {stemLen : Nat} {stem : Bytes} {group : List Entry}
    (hne : group ≠ []) (hstem : ∀ e ∈ group, e.1.stem stemLen = stem) {entry : Entry}
    (hother : entry.1.stem stemLen ≠ stem) (rest : List Entry) :
    (group ++ entry :: rest).splitBy (sharesStem stemLen)
      = group :: ([entry] ++ rest).splitBy (sharesStem stemLen) := by
  rw [List.splitBy_append_cons, splitBy_of_stem hne hstem]
  · rfl
  · intro e he
    simpa [sharesStem, hstem e (List.mem_of_mem_getLast? he)] using Ne.symm hother

/-- An entry with the stem of the group goes to the group. -/
private theorem collect_of_eq (part : Entry → γ) {stemLen : Nat} {entry : Entry}
    (group : List Entry) :
    collect part stemLen ⟨some (entry.1.stem stemLen), group.map part, true⟩ entry
      = pure (true, ⟨some (entry.1.stem stemLen), (group ++ [entry]).map part, true⟩) := by
  simp [collect]

/-- An entry with another stem sends the group. -/
private theorem collect_of_ne (part : Entry → γ) {stemLen : Nat} {stem : Bytes} {entry : Entry}
    (hother : entry.1.stem stemLen ≠ stem) (group : List Entry) :
    collect part stemLen ⟨some stem, group.map part, true⟩ entry
      = (do
        let isHeard ← Work.emit (group.map part)
        return (isHeard, ⟨some (entry.1.stem stemLen), [entry].map part, isHeard⟩)) := by
  simp [collect, Ne.symm hother]

/-- The group of a stem is sent when an entry with another stem comes.  What the walk sends, and the
last group if somebody listens, are all groups as far as they are accepted. -/
private theorem visits_collect (part : Entry → γ) (stemLen n : Nat) (entries : List Entry) (k : Nat)
    {stem : Bytes} {group : List Entry} (hne : group ≠ [])
    (hstem : ∀ e ∈ group, e.1.stem stemLen = stem) :
    ∃ (sent : List (Except StoreError (List γ))) (g : Group γ),
      (∀ w, Visits (collect part stemLen) n entries ⟨some stem, group.map part, true⟩ k w sent g w) ∧
        g.items ≠ [] ∧ sent ++ (if g.isHeard then [.ok g.items].take (k - sent.length) else [])
          = (((group ++ entries).splitBy (sharesStem stemLen)).map fun g => .ok (g.map part)).take
              k := by
  induction entries generalizing k stem group with
  | nil =>
    refine ⟨[], _, .nil _ k, by simpa using hne, ?_⟩
    rw [List.append_nil, splitBy_of_stem hne hstem]
    rfl
  | cons entry rest ih =>
    by_cases hsame : entry.1.stem stemLen = stem
    · -- The entry goes to the group that is being collected.
      subst hsame
      have hgrown : ∀ e ∈ group ++ [entry], e.1.stem stemLen = entry.1.stem stemLen := fun e he =>
        (List.mem_append.mp he).elim (hstem e) fun he => by rw [List.mem_singleton.mp he]
      obtain ⟨sent, g, hvisits, hitems, hsent⟩ := ih k (by simp) hgrown
      refine ⟨sent, g, fun w => .next_takes ?_ (.refl w n) (hvisits w), hitems, by
        rwa [List.append_cons]⟩
      rw [collect_of_eq]
      exact Work.takes_pure _ _
    · -- The group is complete.
      have hcollect := collect_of_ne part hsame group
      rw [splitBy_append_of_ne hne hstem hsame, List.map_cons]
      cases k with
      | zero =>
        refine ⟨[], ⟨some (entry.1.stem stemLen), [entry].map part, false⟩,
          fun w => .stop ?_ (.refl w n), by simp, rfl⟩
        rw [hcollect]
        exact (Work.emits_emit_refused _ w).bind_takes (Work.takes_pure _ _)
      | succ k =>
        have hone : ∀ e ∈ [entry], e.1.stem stemLen = entry.1.stem stemLen := by simp
        obtain ⟨sent, g, hvisits, hitems, hsent⟩ := ih k (List.cons_ne_nil entry []) hone
        refine ⟨.ok (group.map part) :: sent, g, fun w => .next_sent ?_ (.refl w n) (hvisits w),
          hitems, ?_⟩
        · rw [hcollect]
          exact (Work.emits_emit _ k w).bind_takes (Work.takes_pure _ _)
        · rw [List.length_cons, Nat.add_sub_add_right, List.take_succ_cons, ← hsent]
          rfl

/-- A stream of groups sends the entries of the range in groups of neighbours with one stem. -/
theorem sends_streamGroups (h : d.AtRest w) (htoken : w.snapshots.resolve token = .ok view)
    (hview : w.CanRead view) (hlists : (w.seen d.column view).Lists range entries)
    (part : Entry → γ) (stemLen : Nat) :
    (d.streamGroups part stemLen token range).Sends w
      ((entries.splitBy (sharesStem stemLen)).map fun g => .ok (g.map part)) := by
  refine Work.sends_of_emits fun k => (Work.takes_view htoken).bind_emits ?_
  cases entries with
  | nil =>
    rw [List.splitBy_nil, List.map_nil, List.take_nil]
    have hnone : ∀ w, Visits (collect part stemLen) d.column [] ⟨none, [], true⟩ k w []
        ⟨none, [], true⟩ w := fun w => .nil _ k w
    have hvisit := emits_visit_reading h hview hlists hnone
    exact hvisit.bind_takes (Work.takes_pure () w)
  | cons entry rest =>
    have hone : ∀ e ∈ [entry], e.1.stem stemLen = entry.1.stem stemLen := by simp
    obtain ⟨sent, g, hvisits, hitems, hsent⟩ :=
      visits_collect part stemLen d.column rest k (List.cons_ne_nil entry []) hone
    have hvisit := emits_visit_reading h hview hlists (s := ⟨none, [], true⟩)
      fun w => .next_takes (Work.takes_pure _ w) (.refl w _) (hvisits w)
    rw [List.singleton_append] at hsent
    rw [← hsent]
    refine hvisit.bind ?_
    -- The last group is sent if somebody still listens.
    cases hheard : g.isHeard with
    | false => exact (Work.takes_pure () w).emits _
    | true =>
      have hsome : g.items.isEmpty = false := by simpa using hitems
      rw [hsome]
      cases k - sent.length with
      | zero =>
        exact (Work.emits_emit_refused g.items w).bind_takes (f := fun _ => pure ())
          (Work.takes_pure () w)
      | succ k =>
        rw [List.take_succ_cons, List.take_nil]
        exact (Work.emits_emit g.items k w).bind_takes (f := fun _ => pure ()) (Work.takes_pure () w)

/-! ## Stems -/

/-- Sends the stem of an entry unless it was sent last. -/
private def sendStem (stemLen : Nat) (last : Option Bytes) (entry : Entry) :
    Work Bytes (Bool × Option Bytes) := do
  let stem := entry.1.stem stemLen
  if last = some stem then return (true, last)
  else return (← Work.emit stem, some stem)

/-- A walk that knows the last stem sends the stems behind it. -/
private theorem visits_sendStem (stemLen n : Nat) (entries : List Entry) (stem : Bytes) (k : Nat) :
    ∃ last sent, (∀ w, Visits (sendStem stemLen) n entries (some stem) k w sent last w) ∧
      .ok stem :: sent
        = (((entries.map (·.1.stem stemLen)).destutter' (· ≠ ·) stem).map .ok).take (k + 1) := by
  induction entries generalizing k stem with
  | nil => exact ⟨some stem, [], .nil _ k, by simp⟩
  | cons entry rest ih =>
    rw [List.map_cons]
    -- An entry with the stem that was sent last is passed over.
    by_cases hsame : stem = entry.1.stem stemLen
    · obtain ⟨last, sent, hvisits, hsent⟩ := ih stem k
      refine ⟨last, sent, fun w => .next_takes ?_ (.refl w n) (hvisits w), ?_⟩
      · rw [sendStem, if_pos (congrArg some hsame)]
        exact Work.takes_pure _ _
      · rwa [List.destutter'_cons_neg _ (not_not.mpr hsame)]
    · rw [List.destutter'_cons_pos _ hsame, List.map_cons, List.take_succ_cons]
      have hnew : some stem ≠ some (entry.1.stem stemLen) := fun heq => hsame (Option.some.inj heq)
      cases k with
      | zero =>
        refine ⟨some (entry.1.stem stemLen), [], fun w => .stop ?_ (.refl w n), rfl⟩
        rw [sendStem, if_neg hnew]
        exact (Work.emits_emit_refused _ w).bind_takes (Work.takes_pure _ _)
      | succ k =>
        obtain ⟨last, sent, hvisits, hsent⟩ := ih (entry.1.stem stemLen) k
        refine ⟨last, _, fun w => .next_sent ?_ (.refl w n) (hvisits w), congrArg _ hsent⟩
        rw [sendStem, if_neg hnew]
        exact (Work.emits_emit _ k w).bind_takes (Work.takes_pure _ _)

/-- A stream of stems sends the stem of every group once. -/
theorem sends_streamStems (h : d.AtRest w) (htoken : w.snapshots.resolve token = .ok view)
    (hview : w.CanRead view) (hlists : (w.seen d.column view).Lists range entries)
    (stemLen : Nat) :
    (d.streamStems stemLen token range).Sends w
      (((entries.map (·.1.stem stemLen)).destutter (· ≠ ·)).map .ok) := by
  refine Work.sends_of_emits fun k => (Work.takes_view htoken).bind_emits ?_
  have hvisits : ∃ last, ∀ w, Visits (sendStem stemLen) d.column entries none k w
      ((((entries.map (·.1.stem stemLen)).destutter (· ≠ ·)).map .ok).take k) last w := by
    cases entries with
    | nil => exact ⟨none, fun w => by simpa using .nil none k w⟩
    | cons entry rest =>
      rw [List.map_cons, List.destutter_cons']
      cases k with
      | zero =>
        exact ⟨_, fun w => .stop ((Work.emits_emit_refused _ w).bind_takes (Work.takes_pure _ _))
          (.refl w _)⟩
      | succ k =>
        obtain ⟨last, sent, hvisits, hsent⟩ :=
          visits_sendStem stemLen d.column rest (entry.1.stem stemLen) k
        rw [← hsent]
        exact ⟨last, fun w => .next_sent
          ((Work.emits_emit _ k w).bind_takes (Work.takes_pure _ _)) (.refl w _) (hvisits w)⟩
  obtain ⟨last, hvisits⟩ := hvisits
  exact (emits_visit_reading h hview hlists hvisits).bind_takes (Work.takes_pure () w)

end Dictionary

end SnapshotStore
