import SnapshotStore.Proofs.Lock.Hall
import SnapshotStore.Proofs.Work.Locks

/-!
# Errands climb

Seen from the others, a guest is what it holds and the stripe at which it announced itself
(`Stance`).  `Stance.Rule` lists the effects that it may perform there: it asks only for a stripe
above all that it holds, it does nothing else between its announcement and going in, and it gives
back or upgrades the highest of its stripes.

Work climbs (`Work.Climbs`) if it keeps to these rules whatever it is answered.  All errands do, and
they end with empty hands (`Errand.climbs`): stripes of many keys are taken in ascending order and
each once, and an update that could not become the writer holds nothing when it comes back.
-/

namespace SnapshotStore

/-- What a guest holds, newest first, and the stripe at which it announced itself. -/
structure Stance where
  /-- The stripes that it holds. -/
  held : List (Nat × Hold)
  /-- The stripe that it waits for as an announced writer. -/
  asked : Option Nat

namespace Stance

/-- A stripe lies above all of some stripes. -/
def IsAbove (k : Nat) (held : List (Nat × Hold)) : Prop := ∀ x ∈ held, x.1 < k

/-- Above nothing is every stripe. -/
theorem isAbove_nil (k : Nat) : IsAbove k [] := fun _ hx => nomatch hx

/-- A stripe is none of those below it. -/
theorem IsAbove.not_mem {k : Nat} {hold : Hold} {held : List (Nat × Hold)} (h : IsAbove k held) :
    (k, hold) ∉ held := fun hmem => Nat.lt_irrefl k (h _ hmem)

/-- The effects that a guest at `n` stripes may perform where it stands, and where it stands after
the answer. -/
inductive Rule (n : Nat) : Stance → (q : Effect) → (q.Answer → Stance) → Prop
  /-- A writer announces itself. -/
  | announce {k : Nat} {held : List (Nat × Hold)} (hk : k < n) (habove : IsAbove k held) :
    Rule n ⟨held, none⟩ (.announce k) fun _ => ⟨held, some k⟩
  /-- An announced writer goes in. -/
  | own {k : Nat} {held : List (Nat × Hold)} (hk : k < n) (habove : IsAbove k held) :
    Rule n ⟨held, some k⟩ (.enter .exclusive k) fun _ => ⟨(k, .exclusive) :: held, none⟩
  /-- A reader goes in. -/
  | share {k : Nat} {held : List (Nat × Hold)} (hk : k < n) (habove : IsAbove k held) :
    Rule n ⟨held, none⟩ (.enter .shared k) fun _ => ⟨(k, .shared) :: held, none⟩
  /-- A reader becomes the writer, or stays a reader. -/
  | upgrade {k : Nat} {held : List (Nat × Hold)} (hk : k < n) (habove : IsAbove k held) :
    Rule n ⟨(k, .shared) :: held, none⟩ (.upgrade k) fun isAlone =>
      ⟨(k, if isAlone then .exclusive else .shared) :: held, none⟩
  /-- A guest goes out. -/
  | leave {k : Nat} {hold : Hold} {held : List (Nat × Hold)} (hk : k < n)
      (habove : IsAbove k held) :
    Rule n ⟨(k, hold) :: held, none⟩ (.leave hold k) fun _ => ⟨held, none⟩
  /-- An effect that is no step at a lock. -/
  | other {q : Effect} {held : List (Nat × Hold)} (hq : q.isLocking = false) :
    Rule n ⟨held, none⟩ q fun _ => ⟨held, none⟩

/-- A guest goes in above all that it holds, and where it announced itself, if anywhere. -/
theorem Rule.above {n k : Nat} {hold : Hold} {t : Stance} {after : Unit → Stance}
    (h : Rule n t (.enter hold k) after) : IsAbove k t.held ∧ ∀ j, t.asked = some j → j = k := by
  cases h with
  | own hk habove => exact ⟨habove, fun j hj => (Option.some.inj hj).symm⟩
  | share hk habove => exact ⟨habove, nofun⟩
  | other hq => cases hq

end Stance

open Stance

/-! ## Work that climbs -/

namespace Work

variable {ε α β : Type} {n k : Nat} {hold : Hold} {held kept kept' lost : List (Nat × Hold)}
  {w : Work ε α} {t : Stance}

/-- Work that starts where the guest stands keeps to the rules.  If it ends with a value, the guest
holds some stripes then, and otherwise maybe others. -/
def Climbs (n : Nat) (kept lost : List (Nat × Hold)) : Work ε α → Stance → Prop
  | finish (.done _), t => t = ⟨kept, none⟩
  | finish _, t => t = ⟨lost, none⟩
  | perform q next, t => ∃ after, Rule n t q after ∧ ∀ a, (next a).Climbs n kept lost (after a)
  | send _ next, t => t.asked = none ∧ ∀ heard, (next heard).Climbs n kept lost t

/-- An effect that follows the rule climbs, and ends as it says. -/
theorem climbs_effect {q : Effect} {after : q.Answer → Stance} (hrule : Rule n t q after)
    (hafter : ∀ a, after a = ⟨kept, none⟩) : (effect q : Work ε _).Climbs n kept lost t :=
  ⟨after, hrule, hafter⟩

/-- To lock a stripe above those that are held is a climb.  A writer announces itself first. -/
theorem climbs_lock (hk : k < n) (habove : IsAbove k held) (hold : Hold) :
    (lock hold k : Work ε Unit).Climbs n ((k, hold) :: held) lost ⟨held, none⟩ := by
  cases hold with
  | shared => exact climbs_effect (.share hk habove) fun _ => rfl
  | exclusive =>
    exact ⟨_, .announce hk habove, fun _ => climbs_effect (.own hk habove) fun _ => rfl⟩

/-- The highest stripe may be unlocked. -/
theorem climbs_unlock (hk : k < n) (habove : IsAbove k held) (hold : Hold) :
    (unlock hold k : Work ε Unit).Climbs n held lost ⟨(k, hold) :: held, none⟩ :=
  climbs_effect (.leave hk habove) fun _ => rfl

/-- Work that leaves the locks alone may be done anywhere. -/
theorem IsLockFree.climbs (h : w.IsLockFree) (held : List (Nat × Hold)) :
    w.Climbs n held held ⟨held, none⟩ := by
  induction w with
  | finish r => cases r <;> rfl
  | perform q next ih => exact ⟨_, .other h.1, fun a => ih a (h.2 a)⟩
  | send item next ih => exact ⟨rfl, fun heard => ih heard (h heard)⟩

namespace Climbs

/-- Work that climbs may go on with work that climbs from where it ended. -/
theorem bind {f : α → Work ε β} (h : w.Climbs n kept lost t)
    (hf : ∀ a, (f a).Climbs n kept' lost ⟨kept, none⟩) : (w >>= f).Climbs n kept' lost t := by
  induction w generalizing t with
  | finish r =>
    cases r with
    | done a =>
      obtain rfl : t = ⟨kept, none⟩ := h
      exact hf a
    | failed e => exact h
    | panicked => exact h
  | perform q next ih =>
    obtain ⟨after, hrule, hnext⟩ := h
    exact ⟨after, hrule, fun a => ih a (hnext a)⟩
  | send item next ih => exact ⟨h.1, fun heard => ih heard (h.2 heard)⟩

/-- A stripe that is given back however the work ends. -/
theorem ensuring (hk : k < n) (habove : IsAbove k held)
    (h : w.Climbs n ((k, hold) :: held) ((k, hold) :: held) t) :
    (w.ensuring (unlock hold k)).Climbs n held held t := by
  -- The stripe is given up at the end of the work, however it ends.
  induction w generalizing t with
  | finish r =>
    have hend : (finish r : Work ε α).Climbs n held held ⟨held, none⟩ := by cases r <;> rfl
    obtain rfl : t = ⟨(k, hold) :: held, none⟩ := by cases r <;> exact h
    exact (climbs_unlock hk habove hold).bind fun _ => hend
  | perform q next ih =>
    obtain ⟨after, hrule, hnext⟩ := h
    exact ⟨after, hrule, fun a => ih a (hnext a)⟩
  | send item next ih => exact ⟨h.1, fun heard => ih heard (h.2 heard)⟩

/-- A stripe that is given back only if the work fails. -/
theorem onFailure (hk : k < n) (habove : IsAbove k held)
    (h : w.Climbs n ((k, hold) :: held) ((k, hold) :: held) t) :
    (w.onFailure (unlock hold k)).Climbs n ((k, hold) :: held) held t := by
  have hout : (unlock hold k : Work ε Unit).Climbs n held held ⟨(k, hold) :: held, none⟩ :=
    climbs_unlock hk habove hold
  -- The stripe is given up at the end only if the work failed, and kept if it is done.
  induction w generalizing t with
  | finish r =>
    obtain rfl : t = ⟨(k, hold) :: held, none⟩ := by cases r <;> exact h
    cases r with
    | done a => rfl
    | failed e => exact hout.bind fun _ => rfl
    | panicked => exact hout.bind fun _ => rfl
  | perform q next ih =>
    obtain ⟨after, hrule, hnext⟩ := h
    exact ⟨after, hrule, fun a => ih a (hnext a)⟩
  | send item next ih => exact ⟨h.1, fun heard => ih heard (h.2 heard)⟩

/-- Stripes that are taken in ascending order, above all that are held. -/
theorem holding {is : List Nat} (his : is.Pairwise (· < ·)) (hlt : ∀ i ∈ is, i < n)
    (habove : ∀ i ∈ is, IsAbove i held) (hw : w.IsLockFree) (hold : Hold) :
    (Work.holding hold is w).Climbs n held held ⟨held, none⟩ := by
  induction is generalizing held with
  | nil => exact hw.climbs held
  | cons i is ih =>
    rw [List.pairwise_cons] at his
    rw [List.forall_mem_cons] at hlt habove
    refine (climbs_lock hlt.1 habove.1 hold).bind fun _ => ?_
    refine ensuring hlt.1 habove.1 (ih his.2 hlt.2 fun j hj => ?_)
    -- what is taken next lies above what was held and above the stripe just taken
    exact List.forall_mem_cons.mpr ⟨his.1 j hj, habove.2 j hj⟩

end Climbs

/-! ## Work without locks -/

/-- Work without locks may go on with work without locks. -/
theorem IsLockFree.bind {f : α → Work ε β} (h : w.IsLockFree) (hf : ∀ a, (f a).IsLockFree) :
    (w >>= f).IsLockFree := by
  induction w with
  | finish r =>
    cases r with
    | done a => exact hf a
    | failed e => trivial
    | panicked => trivial
  | perform q next ih => exact ⟨h.1, fun a => ih a (h.2 a)⟩
  | send item next ih => exact fun heard => ih heard (h heard)

/-- A call of the engine is no lock. -/
theorem isLockFree_call (operation context : String) (c : EngineCall) :
    (call operation context c : Work ε _).IsLockFree :=
  ⟨rfl, fun a => by cases a <;> trivial⟩

end Work

namespace Dictionary

variable {ε : Type} (d : Dictionary)

/-- To read a key takes no stripe, whether or not the filter is asked first. -/
theorem isLockFree_read (view : ReadView) (key : Bytes) (sure : Bool) :
    (d.read view key sure : Work ε _).IsLockFree := by
  have hfetch : (Work.call "read" key.label (.get d.column view key) : Work ε _).IsLockFree :=
    Work.isLockFree_call ..
  cases sure with
  | true => exact hfetch
  | false =>
    have hprobe := Work.isLockFree_call (ε := ε) "read" key.label (.mayContain d.column key)
    refine hprobe.bind fun possible => ?_
    cases possible with
    | true => exact hfetch
    | false => trivial

/-- To ask the updater takes none either. -/
theorem isLockFree_propose (key : Bytes) (f : Updater) (sure : Bool) :
    (d.propose key f sure : Work ε _).IsLockFree := by
  refine (d.isLockFree_read .latest key sure).bind fun previous => ⟨rfl, fun a => ?_⟩
  cases a <;> trivial

/-- And none is taken to write what the updater decided. -/
theorem isLockFree_carryOut (key : Bytes) (action : UpdateAction) :
    (d.carryOut key action : Work ε _).IsLockFree := by
  cases action with
  | noOp => trivial
  | write value => exact Work.isLockFree_call ..
  | delete => exact Work.isLockFree_call ..

/-- An update holds its stripe alone when it asks for more. -/
theorem climbs_updateAt {n stripe : Nat} (hstripe : stripe < n) (key : Bytes) (f : Updater)
    (sure : Bool) : (d.updateAt stripe key f sure : Work ε _).Climbs n [] [] ⟨[], none⟩ := by
  have habove : IsAbove stripe [] := isAbove_nil stripe
  have hout : ∀ hold,
      (Work.unlock hold stripe : Work ε Unit).Climbs n [] [] ⟨[(stripe, hold)], none⟩ :=
    Work.climbs_unlock hstripe habove
  have hwrite : ∀ {w : Work ε (Delta Bytes)}, w.IsLockFree →
      (conclude stripe w).Climbs n [] [] ⟨[(stripe, .exclusive)], none⟩ :=
    fun hw => (hw.climbs _).ensuring hstripe habove
  -- The updater is asked under the shared hold, which is given up if the updater fails.
  refine (Work.climbs_lock hstripe habove .shared).bind fun _ => ?_
  have hpropose := (d.isLockFree_propose (ε := ε) key f sure).climbs (n := n) [(stripe, .shared)]
  refine (hpropose.onFailure hstripe habove).bind fun delta => ?_
  split
  · exact (hout .shared).bind fun _ => rfl
  · -- There is something to write: a holder that is alone writes at once, and any other one begins
    -- again behind the writers.
    refine ⟨_, .upgrade hstripe habove, fun isAlone => ?_⟩
    cases isAlone with
    | true => exact hwrite ((d.isLockFree_carryOut key _).bind fun _ => trivial)
    | false =>
      refine (hout .shared).bind fun _ => ?_
      refine (Work.climbs_lock hstripe habove .exclusive).bind fun _ => hwrite ?_
      exact (d.isLockFree_propose key f sure).bind fun delta =>
        (d.isLockFree_carryOut key _).bind fun _ => trivial

end Dictionary

/-- All errands climb, from empty hands to empty hands. -/
theorem Errand.climbs (e : Errand) (s : Striping) :
    (e.work s).Climbs s.count [] [] ⟨[], none⟩ := by
  cases e with
  | bulk hold keys body hbody =>
    exact (Work.Climbs.holding (s.pairwise_indices keys) (fun _ hi => Striping.indices_lt hi)
      (fun i _ => isAbove_nil i) hbody hold).bind fun _ => rfl
  | single hold key body hbody =>
    exact (Work.Climbs.holding (List.pairwise_singleton _ _) (by simp [s.index_lt])
      (fun i _ => isAbove_nil i) hbody hold).bind fun _ => rfl
  | update d key f sure =>
    exact (d.climbs_updateAt (s.index_lt key) key f sure).bind fun _ => rfl

end SnapshotStore
