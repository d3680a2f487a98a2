import SnapshotStore.Proofs.Concurrency.Tenants
import SnapshotStore.Proofs.Dictionary.Multi

/-!
# Windows at the stripes

A window of keys that is read and a window of entries that are written take the stripes of all their
keys in ascending order, read or write with all of them, and give them back at the end: they gather
stripes, and once one is given back, everything is written (`Window.Manners`).  What a window
answers depends on nothing but what its keys held when it had gathered all stripes
(`Window.minds_work`).
-/

namespace SnapshotStore

/-- What writing some entries answers depends on nothing but what their keys hold. -/
theorem Contents.previous_congr {m m' : Contents} {entries : List Entry}
    (h : ∀ e ∈ entries, m e.1 = m' e.1) : m.previous entries = m'.previous entries := by
  induction entries generalizing m m' with
  | nil => rfl
  | cons e rest ih =>
    obtain ⟨hfirst, hrest⟩ := List.forall_mem_cons.mp h
    rw [previous, previous, hfirst, ih fun e' he' => apply_congr _ (hrest e' he')]

/-- A window of keys to be read, or of entries to be written. -/
inductive Window where
  | get (keys : List Bytes) (sure : Bool)
  | put (entries : List Entry) (wantsPrevious : Bool)

namespace Window

/-- What a window answers. -/
inductive Answer where
  | values (vs : List (Bytes × Option Bytes))
  | previous (vs : List (Option Bytes))
  deriving DecidableEq

/-- The keys of a window. -/
def keys : Window → List Bytes
  | get keys _ => keys
  | put entries _ => entries.map (·.1)

/-- How a window holds its stripes. -/
def hold : Window → Hold
  | get .. => .shared
  | put .. => .exclusive

/-- What a window writes. -/
def ops : Window → WriteBatch
  | get .. => []
  | put entries _ => Contents.puts entries

/-- What a window answers about some contents. -/
def answer : Window → Contents → Answer
  | get keys _, m => .values (keys.map fun key => (key, m key))
  | put entries wantsPrevious, m => .previous (m.answers wantsPrevious entries)

/-- The work of a window on a dictionary. -/
def work (d : Dictionary) : Window → Work Empty Answer
  | get keys sure => Answer.values <$> d.getWindow none keys sure
  | put entries wantsPrevious => Answer.previous <$> d.putWindow entries wantsPrevious

/-- A window writes its own keys alone, and only if it holds their stripes alone. -/
theorem mem_keys_of_touches {c : Window} {op : WriteOp} (hop : op ∈ c.ops) {key : Bytes}
    (hkey : op.touches key = true) : c.hold = .exclusive ∧ key ∈ c.keys := by
  cases c with
  | get keys sure => cases hop
  | put entries wantsPrevious =>
    obtain ⟨e, he, rfl⟩ := List.mem_map.mp hop
    exact ⟨rfl, of_decide_eq_true hkey ▸ List.mem_map_of_mem he⟩

/-- What is not a key of a window stays as it is. -/
theorem applyAll_ops_of_not_mem {c : Window} {m : Contents} {key : Bytes} (hkey : key ∉ c.keys) :
    m.applyAll c.ops key = m key :=
  Contents.applyAll_of_not_touches fun _ hop =>
    Bool.eq_false_iff.mpr fun htouches => hkey (mem_keys_of_touches hop htouches).2

/-- The answer depends on nothing but what the keys hold. -/
theorem answer_congr {c : Window} {m m' : Contents} (h : ∀ key ∈ c.keys, m key = m' key) :
    c.answer m = c.answer m' := by
  cases c with
  | get keys sure =>
    exact congrArg Answer.values (List.map_congr_left fun key hkey => by rw [h key hkey])
  | put entries wantsPrevious =>
    cases wantsPrevious with
    | true =>
      have hprevious : m.previous entries = m'.previous entries :=
        Contents.previous_congr fun e he => h e.1 (List.mem_map_of_mem he)
      exact congrArg Answer.previous hprevious
    | false => rfl

/-- Run alone, a window answers about the contents, and writes what it has to. -/
theorem makes_work {d : Dictionary} {w : World} (h : d.AtRest w) (c : Window) :
    (c.work d).Makes w (.done (c.answer (w.now d.column))) d.column
      ((w.now d.column).applyAll c.ops) := by
  cases c with
  | get keys sure =>
    have hread : w.CanRead .latest := trivial
    exact ((Dictionary.takes_getWindow h rfl hread keys sure).map).makes d.column
  | put entries wantsPrevious =>
    obtain ⟨w', htakes, hwrites⟩ := Dictionary.makes_putWindow h entries wantsPrevious
    exact ⟨w', htakes.map, hwrites⟩

end Window

/-! ## Writing in batches -/

namespace Posture

@[simp] theorem wrote_nil (t : Posture) : t.wrote [] = t := by
  rw [wrote, List.append_nil]

@[simp] theorem wrote_wrote (t : Posture) (batch batch' : WriteBatch) :
    (t.wrote batch).wrote batch' = t.wrote (batch ++ batch') := by
  rw [wrote, wrote, wrote, List.append_assoc]

/-- The work has the stripes of some operations alone. -/
def Owns (s : Striping) (t : Posture) (batch : WriteBatch) : Prop :=
  ∀ op ∈ batch, ∀ key, op.touches key = true → t.hold (s.index key) = some .exclusive

/-- Writing does not give up a stripe. -/
theorem Owns.wrote {s : Striping} {t : Posture} {batch : WriteBatch} (h : t.Owns s batch)
    (batch' : WriteBatch) : (t.wrote batch').Owns s batch := h

end Posture

section Batches

variable {ε α : Type} {s : Striping} {I : Posture → Prop} {t : Posture} {b : CappedBatch}

/-- A call of a capped batch writes what it hands out. -/
theorem CappedBatch.minds_call (c : Call) (hI : ∀ batch, I (t.wrote batch))
    (howns : t.Owns s (b.pending ++ c.ops)) :
    (b.call c : Work ε _).Minds b.column s I
      (fun r t' => r = .done (.ok (), b.next c) ∧ t' = t.wrote (b.handed c).flatten) t := by
  cases hdue : (b.queue c).isDue c with
  | true =>
    rw [call_of_isDue hdue, handed, if_pos hdue, List.flatten_singleton]
    refine ⟨_, .write (pending_ne_nil_of_isDue hdue) howns, ?_⟩
    rintro _ _ ⟨rfl, rfl⟩
    exact ⟨hI _, rfl, rfl⟩
  | false =>
    rw [call_of_not_isDue hdue, handed, if_neg (by simp [hdue])]
    exact ⟨rfl, t.wrote_nil.symm⟩

/-- Completing the batch writes what is queued. -/
theorem CappedBatch.minds_complete (hI : ∀ batch, I (t.wrote batch)) (howns : t.Owns s b.pending) :
    (b.complete : Work ε _).Minds b.column s I
      (fun r t' => ∃ k, r = .done (.ok k) ∧ t' = t.wrote b.pending) t := by
  rw [complete_eq]
  refine (minds_call .flush hI ((List.append_nil b.pending).symm ▸ howns)).bind ?_
  rintro _ _ ⟨rfl, rfl⟩
  rw [flatten_handed_flush]
  exact ⟨_, rfl, rfl⟩

namespace Dictionary

/-- Queueing operations writes the batches that are handed out meanwhile. -/
theorem minds_pushAll (context : String) {ops : WriteBatch} (hI : ∀ batch, I (t.wrote batch))
    (howns : t.Owns s (b.pending ++ ops)) :
    (pushAll context b ops : Work ε _).Minds b.column s I
      (fun r t' => r = .done (b.after (ops.map .push)) ∧
        t' = t.wrote (b.handedBy (ops.map .push)).flatten) t := by
  induction ops generalizing b t with
  | nil => exact ⟨rfl, t.wrote_nil.symm⟩
  | cons op rest ih =>
    -- What is written now and what is pending after it are what was pending, with the new
    -- operation.
    have hqueue : (b.handed (.push op)).flatten ++ (b.next (.push op)).pending
        = b.pending ++ [op] := b.flatten_handed (.push op)
    have hpush : t.Owns s (b.pending ++ [op]) := fun op' hop' => howns op' (by
      rw [List.append_cons]
      exact List.mem_append_left _ hop')
    have hrest : t.Owns s ((b.next (.push op)).pending ++ rest) := fun op' hop' => howns op' (by
      rw [List.append_cons, ← hqueue, List.append_assoc]
      exact List.mem_append_right _ hop')
    refine (CappedBatch.minds_call (.push op) hI hpush).bind ?_
    rintro _ _ ⟨rfl, rfl⟩
    have hlater := ih (b := b.next (.push op)) (t := t.wrote (b.handed (.push op)).flatten)
      (fun batch => by
        rw [Posture.wrote_wrote]
        exact hI _) (hrest.wrote _)
    rw [CappedBatch.column_next, Posture.wrote_wrote, ← List.flatten_append] at hlater
    exact hlater

/-- Queueing operations and completing the batch writes them, in as many batches as it takes. -/
theorem minds_writeAll {d : Dictionary} (context : String) {ops : WriteBatch} (a : α)
    (hI : ∀ batch, I (t.wrote batch)) (howns : t.Owns s ops) :
    (writeAll context d.batch ops a : Work ε α).Minds d.column s I
      (fun r t' => r = .done a ∧ t' = t.wrote ops) t := by
  have hqueued : d.batch.pending ++ CappedBatch.queued (ops.map .push) = ops := by
    simp [batch, CappedBatch.new, CappedBatch.queued, CappedBatch.Call.ops, List.flatMap_map]
  have hall := d.batch.flatten_handedBy (ops.map .push)
  rw [hqueued] at hall
  refine (minds_pushAll (b := d.batch) context hI howns).bind ?_
  rintro _ _ ⟨rfl, rfl⟩
  have hrest : t.Owns s (d.batch.after (ops.map .push)).pending := fun op hop =>
    howns op (hall ▸ List.mem_append_right _ hop)
  have hcomplete := CappedBatch.minds_complete (ε := ε) (I := I)
    (t := t.wrote (d.batch.handedBy (ops.map .push)).flatten)
    (fun batch => by
      rw [Posture.wrote_wrote]
      exact hI _) (hrest.wrote _)
  rw [CappedBatch.column_after, Posture.wrote_wrote, hall] at hcomplete
  refine hcomplete.bind ?_
  rintro _ _ ⟨k, rfl, rfl⟩
  exact ⟨rfl, rfl⟩

/-! ## Reading a window -/

variable {d : Dictionary}

/-- With the stripes of some keys, reading them answers what they hold. -/
theorem minds_readEach (hI : I t) (sure : Bool) {keys : List Bytes}
    (hheld : ∀ key ∈ keys, t.hold (s.index key) ≠ none) :
    (d.readEach .latest sure keys : Work ε _).Minds d.column s I
      (fun r t' => r = .done (keys.map fun key => (key, t.view key)) ∧ t' = t) t := by
  induction keys with
  | nil => exact ⟨rfl, rfl⟩
  | cons key rest ih =>
    obtain ⟨hkey, hrest⟩ := List.forall_mem_cons.mp hheld
    refine (minds_read hI hkey sure).bind ?_
    rintro _ _ ⟨rfl, rfl⟩
    refine (ih hrest).bind ?_
    rintro _ _ ⟨rfl, rfl⟩
    exact ⟨rfl, rfl⟩

/-- With the stripes of some entries, what their keys held is known, although an earlier entry of
the window may stand before it. -/
theorem minds_previousValues (hI : I t) {entries : List Entry}
    (hheld : ∀ e ∈ entries, t.hold (s.index e.1) ≠ none) {m : Contents} {written : List Entry}
    (hm : t.view.IsShadowed written m) :
    (d.previousValues written entries : Work ε _).Minds d.column s I
      (fun r t' => r = .done (m.previous entries) ∧ t' = t) t := by
  induction entries generalizing m written with
  | nil => exact ⟨rfl, rfl⟩
  | cons e rest ih =>
    obtain ⟨key, value⟩ := e
    obtain ⟨hkey, hrest⟩ := List.forall_mem_cons.mp hheld
    have hlater : ∀ previous, (do
        return previous :: (← d.previousValues ((key, value) :: written) rest)
          : Work ε _).Minds d.column s I
            (fun r t' => r = .done (previous :: (m.apply (.put key value)).previous rest) ∧ t' = t)
            t := by
      intro previous
      refine (ih hrest (hm.put key value)).bind ?_
      rintro _ _ ⟨rfl, rfl⟩
      exact ⟨rfl, rfl⟩
    -- A key that came earlier in the window has the value that was put there; only the others are
    -- read.
    unfold previousValues Contents.previous
    cases hlookup : written.lookup key with
    | some shadow =>
      rw [hm.of_lookup_eq_some hlookup]
      exact hlater (some shadow)
    | none =>
      rw [hm.of_lookup_eq_none hlookup]
      refine (minds_read hI hkey false).bind ?_
      rintro _ _ ⟨rfl, rfl⟩
      exact hlater _

end Dictionary

end Batches

/-! ## Windows -/

namespace Window

/-- A window has gathered its stripes. -/
def HasGathered (s : Striping) (c : Window) (t : Posture) : Prop :=
  t.entered.reverse = s.indices c.keys

instance (s : Striping) (c : Window) (t : Posture) : Decidable (c.HasGathered s t) :=
  inferInstanceAs (Decidable (_ = _))

variable {s : Striping} {c : Window} {t t' : Posture} {m : Contents}

/-- Whether stripes are missing is known from those that the window went into. -/
theorem hasGathered_congr (h : t'.entered = t.entered) :
    c.HasGathered s t' ↔ c.HasGathered s t := by
  rw [HasGathered, HasGathered, h]

/-- Without keys there is nothing to gather. -/
theorem keys_eq_nil_of_blank (h : c.HasGathered s (.blank m)) : c.keys = [] := by
  refine List.eq_nil_iff_forall_not_mem.mpr fun key hkey => ?_
  have hi : s.index key ∈ s.indices c.keys := Striping.index_mem_indices hkey
  rw [← h] at hi
  exact List.not_mem_nil hi

/-- A window gathers its stripes in order and does nothing else meanwhile; it holds all of them
until everything is written. -/
structure Manners (s : Striping) (c : Window) (t : Posture) : Prop where
  /-- The stripes are taken in order. -/
  inOrder : t.entered.reverse <+: s.indices c.keys
  /-- They are held in one way, and no others are. -/
  held : ∀ i hold, t.hold i = some hold → hold = c.hold ∧ i ∈ t.entered
  /-- While some are missing, nothing is written and none is given back. -/
  gathers : ¬ c.HasGathered s t →
    t.written = [] ∧ ∀ i ∈ t.entered, t.hold i = some c.hold
  /-- When none is missing, all are held or everything is written. -/
  keeps : c.HasGathered s t →
    (∀ i ∈ s.indices c.keys, t.hold i = some c.hold) ∨ t.written = c.ops

/-- How work under the stripes of a window ends: with an answer about what the keys held when the
stripes were gathered. -/
structure Ends {α : Type} (s : Striping) (c : Window) (f : Contents → α) (r : Outcome α)
    (t : Posture) : Prop where
  /-- It answers. -/
  answer : r = .done (f t.base)
  /-- It had gathered its stripes. -/
  gathered : c.HasGathered s t
  /-- It gave them back. -/
  hold : ∀ i, t.hold i = none
  /-- It wrote everything. -/
  written : t.written = c.ops

/-- To wait for a stripe is no breach of manners. -/
theorem Manners.awaiting (h : c.Manners s t) (a : Option Nat) :
    c.Manners s { t with announced := a } := ⟨h.inOrder, h.held, h.gathers, h.keeps⟩

section Taking

variable {before after : List Nat} {m₀ : Contents} {i : Nat}

/-- A stripe that was taken is held. -/
theorem hold_taking_of_mem {hold : Hold} {all : List Nat} {batch : WriteBatch} (hi : i ∈ before) :
    (t.taking hold all before m batch).hold i = some hold := if_pos hi

/-- Of the stripes, only those that were entered are held, and all in the same way. -/
theorem held_taking_blank {hold hold' : Hold} {all now : List Nat} {batch : WriteBatch}
    (hnow : now ⊆ all) (h : ((Posture.blank m₀).taking hold all now m batch).hold i = some hold') :
    hold' = hold ∧ i ∈ ((Posture.blank m₀).taking hold all now m batch).entered := by
  by_cases hi : i ∈ now
  · exact ⟨(Option.some.inj ((hold_taking_of_mem hi).symm.trans h)).symm,
      List.mem_append_left _ (List.mem_reverse.mpr (hnow hi))⟩
  · cases (if_neg hi).symm.trans h

/-- A window that gathers. -/
theorem manners_gathering (his : s.indices c.keys = before ++ after) :
    c.Manners s ((Posture.blank m₀).taking c.hold before before m []) where
  inOrder := by
    rw [his]
    simp [Posture.taking, Posture.blank]
  held _ _ := held_taking_blank (List.Subset.refl _)
  gathers _ := ⟨rfl, fun i hi => hold_taking_of_mem (by
    simpa [Posture.taking, Posture.blank] using hi)⟩
  keeps hall := .inl fun i hi => hold_taking_of_mem (by
    rw [← hall] at hi
    simpa [Posture.taking, Posture.blank] using hi)

/-- Who has not begun has manners. -/
theorem manners_blank (m : Contents) : c.Manners s (.blank m) := by
  have hnone : (Posture.blank m).taking c.hold [] [] m [] = .blank m :=
    Posture.taking_nil rfl rfl
  rw [← hnone]
  exact manners_gathering rfl

/-- Who takes all its stripes enters them in their order. -/
theorem gathered_taking {now : List Nat} {batch : WriteBatch} :
    ((Posture.blank m₀).taking c.hold (s.indices c.keys) now m batch).entered.reverse
      = s.indices c.keys := by simp [Posture.taking, Posture.blank]

/-- A window that holds all its stripes. -/
theorem manners_inside (batch : WriteBatch) : c.Manners s
    ((Posture.blank m₀).taking c.hold (s.indices c.keys) (s.indices c.keys) m batch) where
  inOrder := by simp only [gathered_taking, List.prefix_rfl]
  held _ _ := held_taking_blank (List.Subset.refl _)
  gathers hmissing := absurd gathered_taking hmissing
  keeps _ := .inl fun i hi => hold_taking_of_mem hi

/-- A window that gives its stripes back. -/
theorem manners_leaving {now : List Nat} (hnow : now ⊆ s.indices c.keys) :
    c.Manners s ((Posture.blank m₀).taking c.hold (s.indices c.keys) now m c.ops) where
  inOrder := by simp only [gathered_taking, List.prefix_rfl]
  held _ _ := held_taking_blank hnow
  gathers hmissing := absurd gathered_taking hmissing
  keeps _ := .inr rfl

end Taking

/-- Work under all stripes of a window that writes everything. -/
theorem minds_holding {ε α : Type} {n : Nat} {w : Work ε α} {f : Contents → α} {m₀ : Contents}
    (h : ∀ m, let inside := (Posture.blank m₀).taking c.hold (s.indices c.keys) (s.indices c.keys) m
      w.Minds n s (c.Manners s) (fun r t' => r = .done (f m) ∧ t' = inside c.ops) (inside [])) :
    (Work.holding c.hold (s.indices c.keys) w).Minds n s (c.Manners s)
      (c.Ends s f) (.blank m₀) := by
  refine (Work.minds_holding (G := fun r m batch => r = .done (f m) ∧ batch = c.ops)
    (s.nodup_indices c.keys) (fun _ => Striping.indices_lt) (fun _ _ => rfl) rfl rfl
    (fun _ a hmanners => hmanners.awaiting a) (fun _ _ his _ => manners_gathering his) ?_
    fun m => (h m).mono ?_).mono ?_
  · rintro before after his r m _ ⟨-, rfl⟩
    exact manners_leaving (his ▸ List.subset_append_left before after)
  · rintro r _ ⟨rfl, rfl⟩
    exact ⟨c.ops, ⟨rfl, rfl⟩, rfl⟩
  · rintro r _ ⟨m, _, ⟨rfl, rfl⟩, rfl⟩
    exact ⟨rfl, gathered_taking, fun i => by simp [Posture.taking, Posture.blank], rfl⟩

/-- The stripe of every key of a window is held. -/
theorem hold_taking_of_mem_keys {m₀ m : Contents} {batch : WriteBatch} {key : Bytes}
    (hkey : key ∈ c.keys) : ((Posture.blank m₀).taking c.hold (s.indices c.keys)
      (s.indices c.keys) m batch).hold (s.index key) = some c.hold :=
  hold_taking_of_mem (Striping.index_mem_indices hkey)

/-- Who has taken all its stripes holds that of each of its keys. -/
theorem hold_taking_ne_none {m₀ m : Contents} {batch : WriteBatch} {key : Bytes}
    (hkey : key ∈ c.keys) : ((Posture.blank m₀).taking c.hold (s.indices c.keys)
      (s.indices c.keys) m batch).hold (s.index key) ≠ none := by
  rw [hold_taking_of_mem_keys hkey]
  exact Option.some_ne_none _

variable {d : Dictionary}

/-- What becomes of the answer is decided at the end. -/
theorem minds_map {ε α β : Type} {n : Nat} {w : Work ε α} {f : Contents → α} {m : Contents}
    (h : w.Minds n s (c.Manners s) (c.Ends s f) (.blank m)) (g : α → β) :
    (g <$> w).Minds n s (c.Manners s) (c.Ends s (g ∘ f)) (.blank m) := by
  refine h.bind fun r t hends => ?_
  rw [hends.answer]
  exact ⟨rfl, hends.gathered, hends.hold, hends.written⟩

/-- **Every window keeps to its manners**, and ends as it should. -/
theorem minds_work (hstriping : d.striping = some s) (c : Window) (m₀ : Contents) :
    (c.work d).Minds d.column s (c.Manners s) (c.Ends s c.answer) (.blank m₀) := by
  cases c with
  | get keys sure =>
    have hstripes : d.readStripes .latest keys = s.indices keys := by
      simp only [Dictionary.readStripes, hstriping]
    refine minds_map (c := get keys sure) (f := fun m => keys.map fun key => (key, m key)) ?_
      Answer.values
    refine (Work.minds_view (manners_blank m₀)).bind ?_
    rintro _ _ ⟨rfl, rfl⟩
    show (Work.holding .shared (d.readStripes .latest keys) _).Minds d.column s _ _ _
    rw [hstripes]
    exact minds_holding (c := get keys sure) fun m => Dictionary.minds_readEach (manners_inside [])
      sure fun key hkey => hold_taking_ne_none (c := get keys sure) hkey
  | put entries wantsPrevious =>
    have hstripes : d.writeStripes (entries.map (·.1)) = s.indices (entries.map (·.1)) := by
      simp only [Dictionary.writeStripes, hstriping]
    refine minds_map (c := put entries wantsPrevious) (f := (·.answers wantsPrevious entries)) ?_
      Answer.previous
    unfold Dictionary.putWindow
    rw [hstripes]
    refine minds_holding (c := put entries wantsPrevious) fun m => ?_
    intro inside
    have hmanners : ∀ batch, (put entries wantsPrevious).Manners s (inside batch) :=
      manners_inside
    have howns : (inside []).Owns s (Contents.puts entries) := fun op hop key hkey =>
      hold_taking_of_mem_keys (c := put entries wantsPrevious) (mem_keys_of_touches hop hkey).2
    have hwrite : ∀ (context : String) (previous : List (Option Bytes)), _ :=
      fun context previous => Dictionary.minds_writeAll (ε := Empty) (d := d) context previous
        hmanners howns
    cases wantsPrevious with
    | true =>
      have hheld : ∀ e ∈ entries, (inside []).hold (s.index e.1) ≠ none := fun e he =>
        hold_taking_ne_none (c := put entries true) (List.mem_map_of_mem he)
      refine (Dictionary.minds_previousValues (hmanners []) hheld (.nil _)).bind ?_
      rintro _ _ ⟨rfl, rfl⟩
      exact hwrite _ _
    | false => exact hwrite _ _

end Window

end SnapshotStore
