import SnapshotStore.Proofs.Work.Sending

/-!
# What a producer hands out

A producer is ahead of its consumer by what its channel holds.  A consumer that asks for `n` items
and then goes away gets the first `n` that the work sends, and the work runs as for a consumer that
accepts `n` sends and as many more as the channel holds (`Producer.serves_idle`).  It gives its
permit back however far the consumer went.

`Producer.Serves` follows the consumer item by item.
-/

namespace SnapshotStore

variable {ε α : Type} {b b' : Backend} {p p' : Pool} {k n : Nat}
  {items : List (Except StoreError ε)}

namespace Work

variable {x : Work ε α} {r : Outcome α}

/-- Work that nobody listens to runs to its end. -/
theorem Runs.advance_of_deserted {c : Channel ε} (hc : c.isOpen = false)
    (h : x.Runs 0 b items r b') : x.advance b c = (.ended r, b', c) := by
  generalize hk : 0 = k at h
  induction h with
  | finish r k b => rfl
  | perform ha h ih =>
    simp only [advance, advanceTo, Bool.false_eq_true, if_false, ha]
    exact ih hk
  | accept h ih => cases hk
  | refuse h ih =>
    simp only [advance, advanceTo, Channel.send?, hc, Bool.not_false, if_true]
    exact ih hk

/-- Work that somebody listens to runs to its end, or until the channel is full; then it has what is
left of the budget. -/
theorem Runs.advance_cases {c : Channel ε} (hopen : c.isOpen = true) {m : Nat}
    (hroom : c.items.length + m = c.capacity) (h : x.Runs (m + k) b items r b') :
    x.advance b c = (.ended r, b', { c with items := c.items ++ items }) ∨
      ∃ rest b₁ front back, front.length = m ∧ items = front ++ back ∧
        x.advance b c = (.waits rest, b₁, { c with items := c.items ++ front }) ∧
        rest.Runs k b₁ back r b' := by
  generalize hbudget : m + k = budget at h
  induction h generalizing c m with
  | finish r budget b =>
    rw [List.append_nil]
    exact .inl rfl
  | perform ha h ih =>
    simp only [advance, advanceTo, Bool.false_eq_true, if_false, ha] at ih ⊢
    exact ih hopen hroom hbudget
  | @accept item next budget b b' items r h ih =>
    -- The work stops in front of a send that the channel has no room for.
    cases m with
    | zero =>
      have hfull : c.send? item = none := by
        simp [Channel.send?, hopen, show c.items.length = c.capacity from hroom]
      refine .inr ⟨send item next, b, [], item :: items, rfl, rfl, ?_, ?_⟩
      · simp [advance, advanceTo, hfull]
      · rw [show k = budget + 1 by omega]
        exact .accept h
    | succ m =>
      have hsend : c.send? item = some (true, { c with items := c.items ++ [item] }) := by
        simp [Channel.send?, hopen, show c.items.length < c.capacity by omega]
      have hrest := ih (c := { c with items := c.items ++ [item] }) (m := m) hopen
        (by simp only [List.length_append, List.length_singleton]; omega) (by omega)
      simp only [advance, advanceTo, hsend] at hrest ⊢
      rcases hrest with hended | ⟨rest, b₁, front, back, hfront, hitems, hwaits, hrest⟩
      · exact .inl (by simpa using hended)
      · exact .inr ⟨rest, b₁, item :: front, back, congrArg (· + 1) hfront,
          congrArg (item :: ·) hitems, by simpa using hwaits, hrest⟩
  | @refuse item next b b' items r h ih =>
    obtain ⟨rfl, rfl⟩ : m = 0 ∧ k = 0 := by omega
    have hfull : c.send? item = none := by
      simp [Channel.send?, hopen, show c.items.length = c.capacity from hroom]
    refine .inr ⟨send item next, b, [], items, rfl, rfl, ?_, .refuse h⟩
    simp [advance, advanceTo, hfull]

end Work

/-- A permit that is taken and given back is there again. -/
theorem Budget.giveBack_of_take? {x y : Budget} (h : x.take? = some y) : y.giveBack = x := by
  unfold take? at h
  split at h
  · rename_i hpos
    obtain rfl := Option.some.inj h
    simp [giveBack, Nat.sub_add_cancel hpos]
  · cases h

namespace Producer

/-- A consumer asks a producer for at most a number of items, gets some, and goes away. -/
inductive Serves : Nat → Producer ε → Pool → Backend → List (Except StoreError ε) → Pool →
    Backend → Prop
  /-- The consumer goes away. -/
  | enough {x : Producer ε} {p p' : Pool} {b b' : Backend} (h : x.drop p b = (p', b')) :
      Serves 0 x p b [] p' b'
  /-- The consumer gets an item. -/
  | item {n : Nat} {x x₁ : Producer ε} {p p₁ p' : Pool} {b b₁ b' : Backend}
      {i : Except StoreError ε} {items : List (Except StoreError ε)}
      (h : x.poll p b = (.item i, x₁, p₁, b₁)) (hrest : Serves n x₁ p₁ b₁ items p' b') :
      Serves (n + 1) x p b (i :: items) p' b'
  /-- The consumer sees the end. -/
  | ended {n : Nat} {x : Producer ε} {p p' : Pool} {b b' : Backend}
      (h : x.poll p b = (.ended, .ended [], p', b')) : Serves (n + 1) x p b [] p' b'

/-- A consumer that asks cannot tell a producer from what becomes of it when it starts. -/
theorem Serves.of_start_eq {x y : Producer ε} {p₁ : Pool} {b₁ : Backend}
    (hstart : x.start p b = y.start p₁ b₁) (h : Serves (n + 1) y p₁ b₁ items p' b') :
    Serves (n + 1) x p b items p' b' := by
  have hpoll : x.poll p b = y.poll p₁ b₁ := by rw [poll, poll, hstart]
  cases h with
  | item h hrest => exact .item (hpoll.trans h) hrest
  | ended h => exact .ended (hpoll.trans h)

/-- What is left of an ended producer are its last items. -/
theorem serves_ended (n : Nat) (items : List (Except StoreError ε)) (p : Pool) (b : Backend) :
    Serves n (ended items) p b (items.take n) p b := by
  induction items generalizing n with
  | nil =>
    rw [List.take_nil]
    cases n with
    | zero => exact .enough rfl
    | succ n => exact .ended rfl
  | cons item rest ih =>
    cases n with
    | zero => exact .enough rfl
    | succ n => exact .item rfl (ih n)

/-- The pool after a producer gave its permit back. -/
def released (p : Pool) : Pool := { p with scans := p.scans.giveBack }

/-- A producer with a full channel sends one item for every item that is taken. -/
theorem serves_running {c : Channel ε} (hopen : c.isOpen = true) (hpos : 0 < c.capacity)
    (hfull : c.items.length = c.capacity) {rest : Work ε Unit} {r : Outcome Unit}
    (h : rest.Runs n b items r b') :
    Serves n (running rest c) p b ((c.items ++ items).take n) (released p) b' := by
  induction n generalizing c rest b items with
  | zero =>
    -- The consumer goes away, and the work runs on with nobody to listen.
    refine .enough ?_
    simp only [drop, settle, Work.Runs.advance_of_deserted (c := c.desert) rfl h, released]
  | succ n ih =>
    obtain ⟨item, ready, hitems⟩ := List.exists_cons_of_length_pos (hfull ▸ hpos)
    have hroom : ready.length + 1 = c.capacity := by rw [← hfull, hitems, List.length_cons]
    have hreceive : c.receive? = some (item, { c with items := ready }) := by
      rw [Channel.receive?, hitems]
    rw [hitems, List.cons_append, List.take_succ_cons]
    rw [Nat.add_comm] at h
    rcases h.advance_cases (c := { c with items := ready }) hopen hroom with
      hended | ⟨rest', b₁, front, back, hfront, rfl, hwaits, hrest⟩
    · have hrest := serves_ended n (ready ++ items) (released p) b'
      refine .item ?_ hrest
      simp only [poll, start, hreceive, settle, hended, released]
    · -- The channel is full again, with one item less to come.
      have hback := ih (c := { c with items := ready ++ front }) hopen hpos
        (by simp only [List.length_append, hfront, hroom]) hrest
      rw [← List.append_assoc]
      refine .item ?_ hback
      simp only [poll, start, hreceive, settle, hwaits]

theorem exists_take? (hscans : 0 < p.scans.available) :
    ∃ scans, p.scans.take? = some scans ∧ released { p with scans } = p := by
  have htake : p.scans.take? = some { p.scans with available := p.scans.available - 1 } :=
    if_pos hscans
  exact ⟨_, htake, by rw [released, Budget.giveBack_of_take? htake]⟩

/-- A producer that is asked for items is ahead by what its channel holds. -/
theorem serves_idle (hp : p.isClosed = false) (hscans : 0 < p.scans.available) {capacity : Nat}
    {work : Work ε Unit} {r : Outcome Unit}
    (h : work.supervised.Runs (max capacity 1 + (n + 1)) b items r b') :
    Serves (n + 1) (idle capacity work) p b (items.take (n + 1)) p b' := by
  obtain ⟨scans, htake, hreleased⟩ := exists_take? hscans
  have hstart : (idle capacity work).start p b
      = settle work.supervised (.new capacity) { p with scans } b := by
    simp only [start, hp, htake, Bool.false_eq_true, if_false]
  rcases h.advance_cases (c := .new capacity) rfl (Nat.zero_add _) with
    hended | ⟨rest, b₁, front, back, hfront, rfl, hwaits, hrest⟩
  · refine (serves_ended (n + 1) items p b').of_start_eq ?_
    rw [hstart, settle, hended]
    exact congrArg (ended items, ·, b') hreleased
  · have hserves := serves_running (p := { p with scans }) (c := ⟨max capacity 1, front, true⟩) rfl
      (Nat.lt_of_lt_of_le Nat.one_pos (Nat.le_max_right capacity 1)) hfront hrest
    rw [hreleased] at hserves
    refine hserves.of_start_eq ?_
    rw [hstart, settle, hwaits]
    rfl

/-- A failure of the work is its last item. -/
theorem serves_reported (hp : p.isClosed = false) (hscans : 0 < p.scans.available) {capacity : Nat}
    {work : Work ε Unit} {r : Outcome Unit}
    (h : work.Runs (max capacity 1 + (n + 1)) b items r b') :
    Serves (n + 1) (idle capacity work) p b ((items ++ r.report).take (n + 1)) p b' := by
  have htake : items ++ r.report.take (max capacity 1 + (n + 1) - items.length)
      = (items ++ r.report).take (max capacity 1 + (n + 1)) := by
    rw [List.take_append, List.take_of_length_le h.length_le]
  have hserves := serves_idle hp hscans h.supervised
  rwa [htake, List.take_take, Nat.min_eq_left (Nat.le_add_left ..)] at hserves

end Producer

end SnapshotStore
