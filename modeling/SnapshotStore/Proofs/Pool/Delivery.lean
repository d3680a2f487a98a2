import SnapshotStore.Proofs.Pool.Ending
import SnapshotStore.Proofs.Pool.Heeding

/-!
# What a scan stream delivers

However small the buffer is and whoever is faster, a consumer gets the items of the producer in
order.  At the end it has all of them and behind them the failure of the producer, if there was one;
or a permit was refused, and all it has is that.  A producer whose consumer goes away learns so from
its next send, and a scan then reads one more entry at most (`Runs.delivers`).
-/

namespace SnapshotStore.Pipe

variable {ε : Type} {w : Work ε Unit} {l l₁ l₂ : Pipe ε} {p p' : Pool} {e : Event ε}
  {events : List (Event ε)} {n capacity : Nat}

/-! ## Entries that nobody waits for -/

/-- How many entries an event brings. -/
def Event.entries : Event ε → Nat
  | .performed q a => q.entries a
  | _ => 0

/-- How many entries are read in the course of some events. -/
def entriesIn (events : List (Event ε)) : Nat := (events.map Event.entries).sum

/-- Without a consumer, a producer reads at most a number of entries more. -/
def Quits (l : Pipe ε) (n : Nat) : Prop :=
  match l.stage with
  | .acquiring _ => l.work.Quits n
  | .running rest => rest.Quits n
  | _ => True

/-- Without a consumer, each entry that is asked for counts towards the last ones. -/
theorem Step.quits (h : l₁.Step p e l₂ p') (hgone : l₁.channel.isOpen = false)
    (hquits : l₁.Quits n) : e.entries ≤ n ∧ l₂.Quits (n - e.entries) := by
  cases h with
  | perform a => exact hquits a
  | send hsend =>
    obtain ⟨rfl, -⟩ := Channel.send?_of_gone hsend hgone
    exact ⟨Nat.zero_le n, hquits⟩
  | @finish _ _ _ r => cases r <;> exact ⟨Nat.zero_le n, trivial⟩
  | report => exact ⟨Nat.zero_le n, trivial⟩
  | _ => exact ⟨Nat.zero_le n, hquits⟩

/-- So no more of them are asked for than the work has left. -/
theorem Runs.entriesIn_le (h : l₁.Runs events l₂) (hgone : l₁.channel.isOpen = false)
    (hquits : l₁.Quits n) : entriesIn events ≤ n ∧ l₂.Quits (n - entriesIn events) := by
  induction h with
  | refl => exact ⟨Nat.zero_le n, hquits⟩
  | @step l₁ l₂ p p' events e h hstep ih =>
    obtain ⟨hle, hrest⟩ := ih
    obtain ⟨he, hnext⟩ := hstep.quits (h.isUnheard hgone).2 hrest
    have hsum : entriesIn (events ++ [e]) = entriesIn events + e.entries := by
      simp [entriesIn]
    rw [hsum, ← Nat.sub_sub]
    exact ⟨by omega, hnext⟩

/-- Work that heeds its consumer may lose it at any time. -/
theorem Shows.quits {k : Record ε} (h : l.Shows w k) (hw : w.Heeds) : l.Quits 1 := by
  obtain ⟨w', s, c⟩ := l
  obtain rfl := h.work_eq
  cases s with
  | acquiring t => exact hw.quits
  | running rest =>
    obtain ⟨hsent, -⟩ := h.tells.of_running
    exact (hw.comesTo hsent).2.quits
  | failing e => trivial
  | fallen => trivial
  | silent => trivial

/-! ## Delivery -/

/-- The items that the consumer got, without failures. -/
def Record.items (k : Record ε) : List ε := k.received.filterMap Except.toOption

/-- What a pipe delivers. -/
structure Delivers (work : Work ε Unit) (events : List (Event ε)) (l : Pipe ε) : Prop where
  /-- The items that the consumer got are the first of those that the producer sends. -/
  inOrder : ∃ (items : List ε) (rest : Work ε Unit), work.ComesTo (items.map .ok) rest ∧
    items.map .ok <+: (record events).sent ∧ (record events).items <+: items
  /-- A consumer that sees the end got all items and the failure, or the refusal of a permit. -/
  complete : .ended ∈ events →
    (∃ (items : List ε) (r : Outcome Unit), work.ComesTo (items.map .ok) (.finish r) ∧
        (record events).sent = items.map .ok ∧ (record events).returned = [r] ∧
        (record events).received = items.map .ok ++ r.report ∧
        (record events).isRefused = false) ∨
      ((record events).sent = [] ∧ (record events).returned = [] ∧
        (record events).received = [.error .closed] ∧ (record events).isRefused = true)
  /-- So a producer of a list delivers a first part of it, and at the end the list. -/
  ofList : ∀ r all, work = .emitAll r all → (record events).items <+: all ∧
    (.ended ∈ events → (record events).isRefused = false →
      (record events).received = all.map .ok ++ r.report)
  /-- A consumer that stays can come to the end. -/
  reachesEnd : l.channel.isOpen = true → ∃ more l', l.Runs more l' ∧ .ended ∈ more ∧ .left ∉ more
  /-- Behind a consumer that went away nothing is heard. -/
  unheard : ∀ before after, events = before ++ .left :: after → ∀ e ∈ after, e.IsUnheard
  /-- A send that waits then is refused. -/
  refusesSend : .left ∈ events → ∀ item next p, l.stage = .running (.send item next) →
    l.Step p (.sent item false) { l with stage := .running (next false) } p
  /-- A scan reads one more entry at most. -/
  quits : ∀ (d : Dictionary) (part : Entry → ε) token range,
    work = d.streamEntries part token range →
      ∀ before after, events = before ++ .left :: after → entriesIn after ≤ 1

/-- What is sent later is sent behind. -/
theorem sent_isPrefix (before after : List (Event ε)) :
    (record before).sent <+: (record (before ++ after)).sent := by
  induction after generalizing before with
  | nil => exact ⟨[], by rw [List.append_nil, List.append_nil]⟩
  | cons e after ih =>
    rw [List.append_cons]
    refine List.IsPrefix.trans ?_ (ih (before ++ [e]))
    rw [record_concat]
    cases e with
    | sent item heard => exact List.prefix_append _ _
    | asked t => cases t <;> exact List.prefix_rfl
    | _ => exact List.prefix_rfl

/-- A failure that is sent behind the items is no item. -/
theorem Stage.Tells.reported_eq {s : Stage ε} {k : Record ε} (h : s.Tells w k) :
    k.reported.filterMap Except.toOption = [] := by
  cases h with
  | asking _ _ hreported | running _ _ hreported | returned _ _ _ hreported
  | refused _ _ hreported =>
    rw [hreported]
    rfl
  | @reported r _ _ hreported =>
    rw [hreported]
    cases r <;> rfl

/-- What a consumer of items gets while it is there. -/
theorem Shows.inOrder {k : Record ε} (hw : w.SendsItems) (h : l.Shows w k) :
    ∃ (items : List ε) (rest : Work ε Unit), w.ComesTo (items.map .ok) rest ∧
      k.sent = items.map .ok ∧ k.items <+: items := by
  obtain ⟨rest, hrest⟩ := h.tells.exists_comesTo
  obtain ⟨items, hitems⟩ := hw hrest
  refine ⟨items, rest, hitems ▸ hrest, hitems, ?_⟩
  have hprefix : k.received <+: k.sent ++ k.reported := h.fifo ▸ List.prefix_append _ _
  have hall : (k.sent ++ k.reported).filterMap Except.toOption = items := by
    rw [List.filterMap_append, h.tells.reported_eq, List.append_nil, hitems, List.filterMap_map]
    exact List.filterMap_some
  exact hall ▸ hprefix.filterMap Except.toOption

/-- What is sent and received are items in the order of the work. -/
theorem Runs.inOrder (hw : w.SendsItems) (h : (start capacity w).Runs events l) :
    ∃ (items : List ε) (rest : Work ε Unit), w.ComesTo (items.map .ok) rest ∧
      items.map .ok <+: (record events).sent ∧ (record events).items <+: items := by
  obtain ⟨before, after, l₁, rfl, hbefore, hopen, hreceived⟩ := h.exists_open
  obtain ⟨items, rest, hrest, hsent, hitems⟩ := (hbefore.shows hopen).inOrder hw
  refine ⟨items, rest, hrest, hsent ▸ sent_isPrefix before after, ?_⟩
  rwa [Record.items, hreceived]

/-- A consumer that sees the end has received everything, and one failure at most. -/
theorem Runs.complete (hw : w.SendsItems) (h : (start capacity w).Runs events l)
    (hended : .ended ∈ events) :
    (∃ (items : List ε) (r : Outcome Unit), w.ComesTo (items.map .ok) (.finish r) ∧
        (record events).sent = items.map .ok ∧ (record events).returned = [r] ∧
        (record events).received = items.map .ok ++ r.report ∧
        (record events).isRefused = false) ∨
      ((record events).sent = [] ∧ (record events).returned = [] ∧
        (record events).received = [.error .closed] ∧ (record events).isRefused = true) := by
  obtain ⟨hstage, hitems, hshows⟩ := h.of_ended hended
  have hfifo := hshows.fifo
  rw [hitems, List.append_nil] at hfifo
  have htells := hshows.tells
  rw [hstage] at htells
  -- The pipe fell silent after its work had ended, or because there was no permit.
  rcases htells.of_silent with ⟨r, hsent, hreturned, hreported, hrefused⟩ |
    ⟨hsent, hreturned, hreported, hrefused⟩
  · obtain ⟨items, hitems⟩ := hw hsent
    refine .inl ⟨items, r, hitems ▸ hsent, hitems, hreturned, ?_, hrefused⟩
    rw [← hfifo, hitems, hreported]
  · refine .inr ⟨hsent, hreturned, ?_, hrefused⟩
    rw [← hfifo, hsent, hreported, List.nil_append]

/-- A producer of a list delivers a first part of it. -/
theorem items_of_emitAll {r : Outcome Unit} {items all : List ε} {rest : Work ε Unit}
    (h : (Work.emitAll r all).ComesTo (items.map .ok) rest) :
    ∃ left, all = items ++ left ∧ rest = .emitAll r left := by
  obtain ⟨done, left, rfl, hitems, hrest⟩ := Work.comesTo_emitAll h
  have hinj : Function.Injective (Except.ok : ε → Except StoreError ε) := fun _ _ => Except.ok.inj
  obtain rfl := List.map_injective_iff.mpr hinj hitems
  exact ⟨left, rfl, hrest⟩

/-- A run in which the consumer goes away. -/
theorem Runs.leaving {before after : List (Event ε)} (h : l.Runs (before ++ .left :: after) l₂) :
    ∃ l₁, l.Runs before l₁ ∧ l₁.channel.isOpen = true ∧
      Runs { l₁ with channel := l₁.channel.desert } after l₂ := by
  obtain ⟨l₁, l₁', p, p', hbefore, hleft, hafter⟩ := h.split_cons
  cases hleft with
  | leave hopen => exact ⟨_, hbefore, hopen, hafter⟩

/-- A consumer gets the items of its producer in order, and all of them and the truth about the end
if it stays; if it goes away, its producer notices. -/
theorem Runs.delivers {capacity : Nat} {work : Work ε Unit} {events : List (Event ε)} {l : Pipe ε}
    (hwork : work.SendsItems) (h : (start capacity work).Runs events l) :
    Delivers work events l where
  inOrder := h.inOrder hwork
  complete := h.complete hwork
  ofList := by
    rintro r all rfl
    constructor
    · obtain ⟨items, rest, hrest, -, hitems⟩ := h.inOrder hwork
      obtain ⟨left, rfl, -⟩ := items_of_emitAll hrest
      exact hitems.trans (List.prefix_append items left)
    · intro hended hrefused
      rcases h.complete hwork hended with ⟨items, r', hrest, -, -, hreceived, -⟩ |
        ⟨-, -, -, hrefused'⟩
      · obtain ⟨left, rfl, hfinish⟩ := items_of_emitAll hrest
        cases left with
        | nil =>
          cases hfinish
          rw [hreceived, List.append_nil]
        | cons item left => cases hfinish
      · exact absurd (hrefused.symm.trans hrefused') nofun
  reachesEnd := h.exists_end
  unheard := by
    rintro before after rfl
    obtain ⟨l₁, -, -, hafter⟩ := h.leaving
    exact (hafter.isUnheard rfl).1
  refusesSend := by
    intro hleft item next p hstage
    obtain ⟨before, after, rfl⟩ := List.append_of_mem hleft
    obtain ⟨l₁, -, -, hafter⟩ := h.leaving
    obtain ⟨-, hgone⟩ := hafter.isUnheard rfl
    obtain ⟨w, s, c⟩ := l
    obtain rfl := hstage
    exact .send (Channel.send?_eq_refused hgone item)
  quits := by
    rintro d part token range rfl before after rfl
    obtain ⟨l₁, hbefore, hopen, hafter⟩ := h.leaving
    have hquits := (hbefore.shows hopen).quits (Dictionary.heeds_streamEntries part token range)
    exact (hafter.entriesIn_le rfl hquits).1

/-- A producer that breaks down while its channel is full: the consumer gets what is on its way, and
then the report. -/
theorem Runs.delivers_of_panicked : ∃ events l,
    (start 0 (.emitAll .panicked [1, 2])).Runs events l ∧ .ended ∈ events ∧
      (record events).received
        = [.ok 1, .ok 2, .error (.internal "range producer failed:")] := by
  let p := Pool.new "" 1 1
  have hasked : (start 0 (.emitAll .panicked [1, 2])).Runs
      [.asked .offered, .asked .granted, .began]
      ⟨.emitAll .panicked [1, 2], .running (.emitAll .panicked [1, 2]), .new 0⟩ :=
    .step (.step (.step .refl (.ask (p := p) (.offer rfl rfl))) (.ask (p := p) (.accept rfl)))
      (.begin (p := p))
  have hsent : Runs ⟨.emitAll .panicked [1, 2], .running (.emitAll .panicked [1, 2]), .new 0⟩
      [.sent (.ok 1) true, .received (.ok 1), .sent (.ok 2) true, .returned .panicked]
      ⟨.emitAll .panicked [1, 2], .fallen, ⟨1, [.ok 2], true⟩⟩ :=
    .step (.step (.step (.step .refl (.send (p := p) rfl)) (.receive (p := p) rfl rfl))
      (.send (p := p) rfl)) (.finish (p := p))
  have hended : Runs ⟨.emitAll .panicked [1, 2], .fallen, ⟨1, [.ok 2], true⟩⟩
      [.received (.ok 2), .reported (.internal "range producer failed:") true,
        .received (.error (.internal "range producer failed:")), .ended]
      ⟨.emitAll .panicked [1, 2], .silent, ⟨1, [], true⟩⟩ :=
    .step (.step (.step (.step .refl (.receive (p := p) rfl rfl)) (.report (p := p) rfl rfl))
      (.receive (p := p) rfl rfl)) (.seeEnd (p := p) rfl rfl)
  have hrun := (hasked.trans hsent).trans hended
  have hdelivers := Runs.delivers (Work.sendsItems_emitAll .panicked [1, 2]) hrun
  exact ⟨_, _, hrun, by simp, (hdelivers.ofList .panicked [1, 2] rfl).2 (by simp) rfl⟩

end SnapshotStore.Pipe
