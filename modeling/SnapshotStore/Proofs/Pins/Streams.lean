import SnapshotStore.Proofs.Pins.Accounts
import SnapshotStore.Proofs.Pins.Dictionary

/-!
# Streams account for their pins

A stream whose producer waits for room in its channel holds what the rest of that work settles;
every other stream holds nothing.  When its consumer asks for items or goes away, what the stream
holds changes by what happens to the pins of the engine, and a stream that was dropped holds nothing
any more.
-/

namespace SnapshotStore

variable {bad : EngineError → Prop} {held : List Nat} {others : Nat → Nat} {origin : Engine}
  {ε ζ : Type}

/-! ## Producers -/

namespace Producer

/-- The pins that a producer holds. -/
def Holds (bad : EngineError → Prop) : Producer ε → List Nat → Prop
  | idle _ w, held => held = [] ∧ w.Settles bad [] (fun _ _ => True) [] []
  | running rest c, held => rest.Settles bad [] (fun _ _ => True) held [] ∧ c.Spares bad
  | ended items, held => held = [] ∧ ∀ item ∈ items, Except.Spares bad item

/-- Whether the work of the producer waits. -/
def isRunning : Producer ε → Bool
  | running .. => true
  | _ => false

variable {x : Producer ε} {w : Work ε Unit} {c : Channel ε} {p : Pool} {b : Backend}

/-- A producer that does not run holds nothing. -/
theorem Holds.eq_nil (h : x.Holds bad held) (hx : x.isRunning = false) : held = [] := by
  cases x with
  | idle capacity w => exact h.1
  | running rest c => cases hx
  | ended items => exact h.1

/-- A producer that runs on holds what is left of its work, and nothing once the channel is
closed. -/
theorem holds_settle (hbad : ∀ failure, bad failure → failure.IsReleased)
    (h : w.Settles bad [] (fun _ _ => True) held []) (hb : b.Accounts bad others origin held)
    (hc : c.Spares bad) :
    ∃ held₁, (settle w c p b).1.Holds bad held₁ ∧ (settle w c p b).2.2.Accounts bad others origin held₁ ∧
      (settle w c p b).2.2.snapshots = b.snapshots ∧ (c.isOpen = false → held₁ = []) := by
  obtain ⟨held₁, haccounts, hcame, hsnapshots, hc'⟩ := h.advance hbad hb nofun hc
  refine ⟨held₁, ?_⟩
  unfold settle
  revert haccounts hcame hsnapshots hc'
  obtain ⟨progress, b', c'⟩ := w.advance b c
  intro haccounts hcame hsnapshots hc'
  -- The work waits, and holds what the rest of it settles; or it has ended, and holds nothing.
  cases progress with
  | waits rest => exact ⟨⟨hcame.1, hc'⟩, haccounts, hsnapshots, hcame.2⟩
  | ended r =>
    obtain rfl : held₁ = [] := by
      cases r with
      | done a => exact hcame.1
      | failed e => exact hcame.1
      | panicked => exact hcame
    exact ⟨⟨rfl, hc'⟩, haccounts, hsnapshots, fun _ => rfl⟩

/-- A producer that is started holds what its work holds when it waits. -/
theorem holds_start (hbad : ∀ failure, bad failure → failure.IsReleased) (h : x.Holds bad held)
    (hb : b.Accounts bad others origin held) :
    ∃ held₁, (x.start p b).1.Holds bad held₁ ∧ (x.start p b).2.2.Accounts bad others origin held₁ ∧
      (x.start p b).2.2.snapshots = b.snapshots := by
  cases x with
  | running rest c => exact ⟨held, h, hb, rfl⟩
  | ended items => exact ⟨held, h, hb, rfl⟩
  | idle capacity w =>
    unfold start
    dsimp only
    split
    · refine ⟨held, ⟨h.1, fun item hitem => ?_⟩, hb, rfl⟩
      rw [List.mem_singleton.mp hitem]
      exact Except.spares_error rfl
    · -- Without a free permit the work is not begun.
      split
      · obtain ⟨rfl, hw⟩ := h
        obtain ⟨held₁, hx, hb', hsnapshots, -⟩ := holds_settle (c := .new capacity) hbad
          hw.supervised hb nofun
        exact ⟨held₁, hx, hb', hsnapshots⟩
      · exact ⟨held, h, hb, rfl⟩

end Producer

/-- What a consumer gets is not a bad failure. -/
def Polled.Spares (bad : EngineError → Prop) (r : Polled ε) : Prop :=
  ∀ item, r = .item item → Except.Spares bad item

namespace Producer

variable {x : Producer ε} {p : Pool} {b : Backend}

/-- Every poll keeps the accounts and hands out nothing impossible. -/
theorem holds_poll (hbad : ∀ failure, bad failure → failure.IsReleased) (h : x.Holds bad held)
    (hb : b.Accounts bad others origin held) :
    ∃ held₁, (x.poll p b).2.1.Holds bad held₁ ∧ (x.poll p b).2.2.2.Accounts bad others origin held₁ ∧
      (x.poll p b).2.2.2.snapshots = b.snapshots ∧ (x.poll p b).1.Spares bad := by
  obtain ⟨held₁, hstart⟩ := holds_start (p := p) hbad h hb
  unfold poll
  revert hstart
  obtain ⟨x', p', b'⟩ := x.start p b
  rintro ⟨hx, haccounts, hsnapshots⟩
  cases x' with
  | idle capacity w => exact ⟨held₁, hx, haccounts, hsnapshots, nofun⟩
  | running rest c =>
    dsimp only
    cases hitems : c.items with
    | nil =>
      simp only [Channel.receive?, hitems]
      exact ⟨held₁, hx, haccounts, hsnapshots, nofun⟩
    | cons item items =>
      simp only [Channel.receive?, hitems]
      -- An item makes room for another one, so the work runs on.
      have hspares : ∀ y ∈ item :: items, Except.Spares bad y := fun y hy => hx.2 y (hitems ▸ hy)
      obtain ⟨held₂, hx', hb', hsnapshots', -⟩ := holds_settle (c := { c with items })
        (p := p') hbad hx.1 haccounts fun y hy => hspares y (List.mem_cons_of_mem _ hy)
      refine ⟨held₂, hx', hb', hsnapshots'.trans hsnapshots, fun y hy => ?_⟩
      obtain rfl : item = y := Polled.item.inj hy
      exact hspares item List.mem_cons_self
  | ended items =>
    cases items with
    | nil => exact ⟨held₁, hx, haccounts, hsnapshots, nofun⟩
    | cons item items =>
      refine ⟨held₁, ⟨hx.1, fun y hy => hx.2 y (List.mem_cons_of_mem _ hy)⟩, haccounts, hsnapshots,
        fun y hy => ?_⟩
      obtain rfl : item = y := Polled.item.inj hy
      exact hx.2 item List.mem_cons_self

/-- A producer that is dropped gives back what it held. -/
theorem Holds.drop (hbad : ∀ failure, bad failure → failure.IsReleased) (h : x.Holds bad held)
    (hb : b.Accounts bad others origin held) :
    (x.drop p b).2.Accounts bad others origin [] ∧ (x.drop p b).2.snapshots = b.snapshots := by
  cases x with
  | idle capacity w =>
    obtain rfl := h.1
    exact ⟨hb, rfl⟩
  | ended items =>
    obtain rfl := h.1
    exact ⟨hb, rfl⟩
  | running rest c =>
    obtain ⟨held₁, -, hb', hsnapshots, hheld⟩ := holds_settle (c := c.desert) (p := p) hbad h.1 hb
      nofun
    -- The channel is deserted, so the work comes to its end.
    obtain rfl := hheld rfl
    exact ⟨hb', hsnapshots⟩

/-- A change of the items changes nothing that is held. -/
theorem Holds.map (f : ε → ζ) (h : x.Holds bad held) : (x.map f).Holds bad held := by
  have hmap : ∀ items : List (Except StoreError ε), (∀ item ∈ items, Except.Spares bad item) →
      ∀ item ∈ items.map (·.map f), Except.Spares bad item := by
    intro items hitems item hitem e he
    obtain ⟨item', hmem, rfl⟩ := List.mem_map.mp hitem
    cases item' with
    | ok a => cases he
    | error e' => exact hitems _ hmem e (congrArg Except.error (Except.error.inj he))
  cases x with
  | idle capacity w => exact ⟨h.1, h.2.mapItems f⟩
  | running rest c => exact ⟨h.1.mapItems f, hmap c.items h.2⟩
  | ended items => exact ⟨h.1, hmap items h.2⟩

end Producer

/-! ## Pieces of work -/

namespace Pool

variable {α : Type} {p : Pool} {b : Backend} {w : Work Empty α} {seen : List Nat}

/-- Work of the pool that settles its pins leaves none behind. -/
theorem settles_run (hbad : ∀ failure, bad failure → failure.IsReleased) {Q : α → List Nat → Prop}
    (h : w.Settles bad [] Q [] seen) (hb : b.Accounts bad others origin [])
    (hseen : Backend.Grants others b.snapshots seen) :
    (p.run w b).2.Accounts bad others origin [] ∧ (p.run w b).2.snapshots = b.snapshots ∧
      Except.Spares bad (p.run w b).1 := by
  unfold run
  split
  · exact ⟨hb, rfl, Except.spares_error rfl⟩
  · exact h.run hbad hb hseen

/-- A step that is refused by no bad failure, or whose work settles its pins. -/
def Settles (bad : EngineError → Prop) : Step α → Prop
  | .ok w => w.Settles bad [] (fun _ _ => True) [] []
  | .error e => e.Spares bad

/-- So do steps, up to the first that fails. -/
theorem settles_runSteps (hbad : ∀ failure, bad failure → failure.IsReleased)
    {steps : List (Step Unit)} (h : ∀ step ∈ steps, Settles bad step)
    (hb : b.Accounts bad others origin []) :
    (p.runSteps steps b).2.Accounts bad others origin [] ∧ (p.runSteps steps b).2.snapshots = b.snapshots ∧
      Except.Spares bad (p.runSteps steps b).1 := by
  induction steps generalizing b with
  | nil => exact ⟨hb, rfl, nofun⟩
  | cons step rest ih =>
    have hstep := h step List.mem_cons_self
    cases step with
    | error e =>
      refine ⟨hb, rfl, fun e' he' => ?_⟩
      obtain rfl : e = e' := Except.error.inj he'
      exact hstep
    | ok w =>
      have hrun := settles_run (p := p) hbad hstep hb nofun
      unfold runSteps
      revert hrun
      obtain ⟨r, b'⟩ := p.run w b
      rintro ⟨hb', hsnapshots, hspares⟩
      cases r with
      | error e => exact ⟨hb', hsnapshots, hspares⟩
      | ok u =>
        obtain ⟨hb'', hsnapshots', hspares'⟩ := ih (fun s hs => h s (List.mem_cons_of_mem _ hs)) hb'
        exact ⟨hb'', hsnapshots'.trans hsnapshots, hspares'⟩

end Pool

/-! ## Streams -/

namespace Stream

/-- The pins that a stream holds. -/
def Holds (bad : EngineError → Prop) : Stream ε → List Nat → Prop
  | produced x, held => x.Holds bad held
  | windowed _ windows, held =>
    held = [] ∧ ∀ w ∈ windows, w.Settles bad [] (fun _ _ => True) [] []
  | followed x _ steps, held => x.Holds bad held ∧ ∀ step ∈ steps, Pool.Settles bad step

/-- Whether the producer of the stream waits for its consumer. -/
def isRunning : Stream ε → Bool
  | produced x => x.isRunning
  | windowed _ _ => false
  | followed x _ _ => x.isRunning

variable {x : Stream ε} {p : Pool} {b : Backend}

/-- A stream whose producer does not wait holds nothing. -/
theorem Holds.eq_nil (h : x.Holds bad held) (hx : x.isRunning = false) : held = [] := by
  cases x with
  | produced x => exact Producer.Holds.eq_nil h hx
  | windowed ready windows => exact h.1
  | followed x hasFailed steps => exact h.1.eq_nil hx

/-- Asking for an item. -/
theorem holds_poll (hbad : ∀ failure, bad failure → failure.IsReleased) (h : x.Holds bad held)
    (hb : b.Accounts bad others origin held) :
    ∃ held₁, (x.poll p b).2.1.Holds bad held₁ ∧ (x.poll p b).2.2.2.Accounts bad others origin held₁ ∧
      (x.poll p b).2.2.2.snapshots = b.snapshots ∧ (x.poll p b).1.Spares bad := by
  cases x with
  | produced x => exact Producer.holds_poll hbad h hb
  | windowed ready windows =>
    obtain ⟨rfl, hwindows⟩ := h
    cases ready with
    | cons item ready =>
      refine ⟨[], ⟨rfl, hwindows⟩, hb, rfl, fun y hy e he => ?_⟩
      obtain rfl := Polled.item.inj hy
      cases he
    | nil =>
      cases windows with
      | nil => exact ⟨[], ⟨rfl, hwindows⟩, hb, rfl, nofun⟩
      | cons w windows =>
        have hleft : ∀ w ∈ windows, w.Settles bad [] (fun _ _ => True) [] [] :=
          fun v hv => hwindows v (List.mem_cons_of_mem _ hv)
        -- One window is worked on, and it leaves no pin behind.
        have hrun := Pool.settles_run (p := p) hbad (hwindows w List.mem_cons_self) hb nofun
        unfold poll
        dsimp only
        revert hrun
        obtain ⟨r, b'⟩ := p.run w b
        rintro ⟨hb', hsnapshots, hspares⟩
        refine ⟨[], ?_⟩
        cases r with
        | error e =>
          refine ⟨⟨rfl, hleft⟩, hb', hsnapshots, fun y hy => ?_⟩
          obtain rfl := Polled.item.inj hy
          exact fun e' he' => hspares e' (congrArg Except.error (Except.error.inj he'))
        | ok items =>
          cases items with
          | nil => exact ⟨⟨rfl, hleft⟩, hb', hsnapshots, nofun⟩
          | cons item ready =>
            refine ⟨⟨rfl, hleft⟩, hb', hsnapshots, fun y hy e he => ?_⟩
            obtain rfl := Polled.item.inj hy
            cases he
  | followed x hasFailed steps =>
    obtain ⟨held₁, hpoll⟩ := Producer.holds_poll (p := p) hbad h.1 hb
    have hsteps := h.2
    unfold poll
    dsimp only
    revert hpoll
    obtain ⟨r, x', p', b'⟩ := x.poll p b
    rintro ⟨hx, hb', hsnapshots, hspares⟩
    cases r with
    | pending => exact ⟨held₁, ⟨hx, hsteps⟩, hb', hsnapshots, nofun⟩
    | item item =>
      cases item with
      | ok a => exact ⟨held₁, ⟨hx, hsteps⟩, hb', hsnapshots, hspares⟩
      | error e => exact ⟨held₁, ⟨hx, hsteps⟩, hb', hsnapshots, hspares⟩
    | ended =>
      cases hasFailed with
      | true => exact ⟨held₁, ⟨hx, nofun⟩, hb', hsnapshots, nofun⟩
      | false =>
        -- The removal has ended, and the steps behind it settle their own pins while the others are
        -- lent.
        have hrun := Pool.settles_runSteps (p := p') hbad hsteps (Backend.Accounts.iff_lent.mp hb')
        simp only [Bool.false_eq_true, if_false]
        revert hrun
        obtain ⟨r, b''⟩ := p'.runSteps steps b'
        rintro ⟨hb'', hsnapshots', hspares'⟩
        have hlent := Backend.Accounts.iff_lent.mpr hb''
        cases r with
        | ok u => exact ⟨held₁, ⟨hx, nofun⟩, hlent, hsnapshots'.trans hsnapshots, nofun⟩
        | error e =>
          refine ⟨held₁, ⟨hx, nofun⟩, hlent, hsnapshots'.trans hsnapshots, fun y hy => ?_⟩
          obtain rfl := Polled.item.inj hy
          exact fun e' he' => hspares' e' (congrArg Except.error (Except.error.inj he'))

/-- Asking for several items. -/
theorem holds_pollMany (hbad : ∀ failure, bad failure → failure.IsReleased) (n : Nat)
    (h : x.Holds bad held) (hb : b.Accounts bad others origin held) :
    ∃ held₁, (x.pollMany n p b).1.2.2.Holds bad held₁ ∧
      (x.pollMany n p b).2.2.Accounts bad others origin held₁ ∧
      (x.pollMany n p b).2.2.snapshots = b.snapshots ∧
      ∀ item ∈ (x.pollMany n p b).1.1, Except.Spares bad item := by
  induction n generalizing x p b held with
  | zero => exact ⟨held, h, hb, rfl, nofun⟩
  | succ n ih =>
    obtain ⟨held₁, hpoll⟩ := holds_poll (p := p) hbad h hb
    unfold pollMany
    revert hpoll
    obtain ⟨r, x', p', b'⟩ := x.poll p b
    rintro ⟨hx, hb', hsnapshots, hspares⟩
    cases r with
    | pending => exact ⟨held₁, hx, hb', hsnapshots, nofun⟩
    | ended => exact ⟨held₁, hx, hb', hsnapshots, nofun⟩
    | item item =>
      obtain ⟨held₂, hx', hb'', hsnapshots', hspares'⟩ := ih (p := p') hx hb'
      refine ⟨held₂, hx', hb'', hsnapshots'.trans hsnapshots, fun y hy => ?_⟩
      rcases List.mem_cons.mp hy with rfl | hy
      · exact hspares y rfl
      · exact hspares' y hy

/-- A stream that is dropped gives back what it held. -/
theorem Holds.drop (hbad : ∀ failure, bad failure → failure.IsReleased) (h : x.Holds bad held)
    (hb : b.Accounts bad others origin held) :
    (x.drop p b).2.Accounts bad others origin [] ∧ (x.drop p b).2.snapshots = b.snapshots := by
  cases x with
  | produced x => exact Producer.Holds.drop hbad h hb
  | windowed ready windows =>
    obtain rfl := h.1
    exact ⟨hb, rfl⟩
  | followed x hasFailed steps => exact h.1.drop hbad hb

/-- A change of the items changes nothing that a stream holds. -/
theorem Holds.map (f : ε → ζ) (h : x.Holds bad held) : (x.map f).Holds bad held := by
  cases x with
  | produced x => exact Producer.Holds.map f h
  | followed x hasFailed steps => exact ⟨h.1.map f, h.2⟩
  | windowed ready windows =>
    refine ⟨h.1, fun w hw => ?_⟩
    obtain ⟨w', hw', rfl⟩ := List.mem_map.mp hw
    exact (h.2 w' hw').bind fun _ _ _ => Work.settles_pure trivial

end Stream

/-! ## Steps and streams of a dictionary -/

namespace Dictionary

variable {d : Dictionary} {token : Option Token} {range : KeyRange}

/-- An update settles its pins. -/
theorem settles_update (key : Bytes) (f : Updater) (sure : Bool) :
    Pool.Settles bad (d.update key f sure) := by
  unfold update
  split
  · exact settles_updateAt _ key f sure
  · simp [Pool.Settles, StoreError.Spares, StoreError.source?]

/-- A producer that was not asked for anything holds nothing. -/
theorem holds_producing {w : Work ε Unit} (h : w.Settles bad [] (fun _ _ => True) [] []) :
    (d.producing w).Holds bad [] := ⟨rfl, h⟩

/-- A stream of reads holds nothing between its windows. -/
theorem holds_getMany (keys : List Bytes) (sure : Bool) :
    (d.getMany token keys sure).Holds bad [] := by
  refine ⟨rfl, fun w hw => ?_⟩
  obtain ⟨window, -, rfl⟩ := List.mem_map.mp hw
  exact settles_getWindow token window sure

/-- A stream of writes holds nothing between its windows. -/
theorem holds_putMany (entries : List Entry) (wantsPrevious : Bool) :
    (d.putMany entries wantsPrevious).Holds bad [] := by
  refine ⟨rfl, fun w hw => ?_⟩
  obtain ⟨window, -, rfl⟩ := List.mem_map.mp hw
  exact settles_putWindow window wantsPrevious

/-- The windows of a replacement settle their pins. -/
theorem settles_writeSteps (range : KeyRange) (entries : List Entry) :
    ∀ step ∈ d.writeSteps range entries, Pool.Settles bad step := by
  intro step hstep
  obtain ⟨window, -, rfl⟩ := List.mem_map.mp hstep
  unfold writeStep
  split
  · simp [Pool.Settles, StoreError.Spares, StoreError.source?]
  · exact (settles_putWindow window false).bind fun _ _ _ => Work.settles_pure trivial

/-- So does the replacement as a whole. -/
theorem settles_replaceSteps (range : KeyRange) (entries : List Entry) :
    ∀ step ∈ d.replaceSteps range entries, Pool.Settles bad step := by
  intro step hstep
  rcases List.mem_cons.mp hstep with rfl | hstep
  · exact settles_deleteRange range
  · exact settles_writeSteps range entries step hstep

/-- A removal that hands out its entries holds nothing before it is asked. -/
theorem holds_replaced (range : KeyRange) (entries : List Entry) :
    (d.replaced range entries).Holds bad [] :=
  ⟨⟨rfl, settles_drain range⟩, settles_writeSteps range entries⟩

end Dictionary

end SnapshotStore
