import Mathlib.Data.List.Perm.Basic
import SnapshotStore.Proofs.Pool.Office

/-!
# Permits are conserved

What an operation or a pipe takes from its budget it holds, and what it holds no longer it has given
back (`Budget.Trades`); the other budget it leaves alone.  So the free permits and those that are
held are always as many as there were in the beginning (`Office.Balanced`).
-/

namespace SnapshotStore

/-! ## One permit -/

/-- A budget before and after, where somebody held a permit before or holds one after. -/
structure Budget.Trades (b b' : Budget) (held held' : Bool) : Prop where
  limit_eq : b'.limit = b.limit
  available_eq : b'.available + held'.toNat = b.available + held.toNat

theorem Budget.trades_refl (b : Budget) (held : Bool) : b.Trades b held held := ⟨rfl, rfl⟩

theorem Budget.trades_giveBack (b : Budget) : b.Trades b.giveBack true false := ⟨rfl, rfl⟩

/-- A ticket takes one permit from its budget, or leaves it as it is. -/
theorem Ticket.Step.trades {isClosed : Bool} {t t' : Ticket} {b b' : Budget}
    (h : t.Step isClosed b t' b') : b.Trades b' t.holds t'.holds := by
  cases h with
  | accept => exact b.trades_refl true
  | refuse => exact b.trades_refl false
  | decline => exact b.trades_giveBack
  | offer _ htake =>
    rw [← Budget.giveBack_of_take? htake]
    exact ⟨rfl, rfl⟩

namespace Operation

variable {α : Type} {x x' : Operation α} {e : Event α} {p p' : Pool}

/-- An operation that goes on without taking a permit. -/
theorem Stage.trades_giveBack {s s' : Stage α} (h : s'.holds = true → s.holds = true) (p : Pool) :
    p.ops.Trades (s.giveBack s' p).ops s.holds s'.holds ∧ (s.giveBack s' p).scans = p.scans ∧
      (s.giveBack s' p).isClosed = p.isClosed := by
  unfold giveBack
  cases hs : s.holds <;> cases hs' : s'.holds
  case false.true => exact absurd ((h hs').symm.trans hs) nofun
  case true.false => exact ⟨p.ops.trades_giveBack, rfl, rfl⟩
  all_goals exact ⟨p.ops.trades_refl _, rfl, rfl⟩

/-- An operation trades with the budget of operations alone. -/
theorem Step.trades (h : x.Step p e x' p') :
    p.ops.Trades p'.ops x.stage.holds x'.stage.holds ∧ p'.scans = p.scans ∧
      p'.isClosed = p.isClosed := by
  cases h with
  | ask h => exact ⟨h.trades, rfl, rfl⟩
  | finish => exact Stage.trades_giveBack (by simp [Stage.holds]) p
  | @abandon w s =>
    refine Stage.trades_giveBack ?_ p
    cases s with
    | acquiring t => cases t <;> simp [Stage.abandoned, Stage.holds]
    | _ => exact id
  | _ => exact ⟨p.ops.trades_refl true, rfl, rfl⟩

end Operation

namespace Pipe

variable {ε : Type} {l l' : Pipe ε} {e : Event ε} {p p' : Pool}

/-- A producer that goes on without taking a permit. -/
theorem Stage.trades_giveBack {s s' : Stage ε} (h : s'.holds = true → s.holds = true) (p : Pool) :
    p.scans.Trades (s.giveBack s' p).scans s.holds s'.holds ∧ (s.giveBack s' p).ops = p.ops ∧
      (s.giveBack s' p).isClosed = p.isClosed := by
  unfold giveBack
  cases hs : s.holds <;> cases hs' : s'.holds
  case false.true => exact absurd ((h hs').symm.trans hs) nofun
  case true.false => exact ⟨p.scans.trades_giveBack, rfl, rfl⟩
  all_goals exact ⟨p.scans.trades_refl _, rfl, rfl⟩

/-- A pipe trades with the budget of scans alone. -/
theorem Step.trades (h : l.Step p e l' p') :
    p.scans.Trades p'.scans l.stage.holds l'.stage.holds ∧ p'.ops = p.ops ∧
      p'.isClosed = p.isClosed := by
  cases h with
  | ask h => exact ⟨h.trades, rfl, rfl⟩
  | finish => exact Stage.trades_giveBack (fun _ => rfl) p
  | report => exact Stage.trades_giveBack (by simp [Stage.holds]) p
  | _ => exact ⟨p.scans.trades_refl _, rfl, rfl⟩

end Pipe

/-! ## All permits -/

/-- A count over a list of which one element is replaced. -/
theorem countP_set_add {β : Type} {l : List β} {i : Nat} {x : β} (hi : l[i]? = some x) (y : β)
    (f : β → Bool) : (l.set i y).countP f + (f x).toNat = l.countP f + (f y).toNat := by
  obtain ⟨hlt, rfl⟩ := List.getElem?_eq_some_iff.mp hi
  have hcons : ∀ z, (l.set i z).countP f = (l.eraseIdx i).countP f + (f z).toNat := by
    intro z
    rw [(List.set_perm_cons_eraseIdx hlt z).countP_eq, List.countP_cons]
    cases f z <;> rfl
  have hsame := hcons l[i]
  rw [List.set_getElem_self] at hsame
  rw [hcons y, hsame]
  omega

namespace Office

variable {α ε : Type} {o o' : Office α ε} {e : Event α ε} {events : List (Event α ε)}
  {name : String} {maxOps maxScans : Nat}

/-- Every permit is free, or held by somebody. -/
structure Balanced (maxOps maxScans : Nat) (o : Office α ε) : Prop where
  ops_limit : o.pool.ops.limit = max maxOps 1
  ops_held : o.pool.ops.available + o.operations.countP (·.stage.holds) = max maxOps 1
  scans_limit : o.pool.scans.limit = max maxScans 1
  scans_held : o.pool.scans.available + o.pipes.countP (·.stage.holds) = max maxScans 1

/-- At first all permits are free. -/
theorem balanced_start (name : String) (maxOps maxScans : Nat) :
    (start name maxOps maxScans : Office α ε).Balanced maxOps maxScans := ⟨rfl, rfl, rfl, rfl⟩

/-- A step keeps the balance. -/
theorem Balanced.step (h : o.Balanced maxOps maxScans) (hstep : o.Step e o') :
    o'.Balanced maxOps maxScans := by
  obtain ⟨hops, hheld, hscans, hheld'⟩ := h
  cases hstep with
  | submit work => exact ⟨hops, by rwa [List.countP_append], hscans, hheld'⟩
  | «open» capacity work => exact ⟨hops, hheld, hscans, by rwa [List.countP_append]⟩
  | close => exact ⟨hops, hheld, hscans, hheld'⟩
  | @operation i x x' e p hi hstep =>
    obtain ⟨⟨hlimit, hmoved⟩, hother, -⟩ := hstep.trades
    have hcount := countP_set_add hi x' fun x => x.stage.holds
    refine ⟨hlimit.trans hops, ?_, hother ▸ hscans, hother ▸ hheld'⟩
    dsimp only at hmoved hcount hheld ⊢
    omega
  | @pipe i l l' e p hi hstep =>
    obtain ⟨⟨hlimit, hmoved⟩, hother, -⟩ := hstep.trades
    have hcount := countP_set_add hi l' fun l => l.stage.holds
    refine ⟨hother ▸ hops, hother ▸ hheld, hlimit.trans hscans, ?_⟩
    dsimp only at hmoved hcount hheld' ⊢
    omega

/-- So does a run. -/
theorem Runs.balanced (h : (start name maxOps maxScans).Runs events o) :
    o.Balanced maxOps maxScans := by
  induction h with
  | refl => exact balanced_start name maxOps maxScans
  | step _ hstep ih => exact ih.step hstep

/-! ## Settled offices -/

/-- No permit is on its way from the pool to who asked for it. -/
structure IsSettled (o : Office α ε) : Prop where
  operations : ∀ x ∈ o.operations, ∀ t, x.stage = .acquiring t → t.holds = false
  pipes : ∀ l ∈ o.pipes, ∀ t, l.stage = .acquiring t → t.holds = false

/-- Then the permits that are not free are those of the operations that run. -/
theorem IsSettled.operations_eq (h : o.IsSettled) :
    o.operations.countP (·.stage.isRunning) = o.operations.countP (·.stage.holds) := by
  refine List.countP_congr fun x hx => ?_
  cases hstage : x.stage with
  | acquiring t =>
    have ht := h.operations x hx t hstage
    simp [Operation.Stage.isRunning, Operation.Stage.holds, ht]
  | _ => exact Iff.rfl

/-- Once settled, who holds a permit runs. -/
theorem IsSettled.pipes_eq (h : o.IsSettled) :
    o.pipes.countP (·.stage.isRunning) = o.pipes.countP (·.stage.holds) := by
  refine List.countP_congr fun l hl => ?_
  cases hstage : l.stage with
  | acquiring t =>
    have ht := h.pipes l hl t hstage
    simp [Pipe.Stage.isRunning, Pipe.Stage.holds, ht]
  | _ => exact Iff.rfl

end Office

end SnapshotStore
