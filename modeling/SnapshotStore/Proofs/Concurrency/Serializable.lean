import SnapshotStore.Proofs.Concurrency.NoLostUpdates
import SnapshotStore.Proofs.Concurrency.Windows

/-!
# Windows that run at the same time

From the moment at which a window has gathered its stripes, nobody else writes its keys until it
gives the first stripe back, and then everything is written.  So each window may be thought to do
all its work at that moment.  The invariant (`Workshop.Commits`) has besides the contents of the
dictionary those that it would have if it were so: the contents that the windows make if they run
one after the other, in the order in which they gathered their stripes.  Both say the same of the
keys that nobody holds alone.
-/

namespace SnapshotStore

/-! ## Windows that have gathered their stripes -/

namespace Window

/-- What a window has written if it writes everything as soon as it has gathered its stripes. -/
def due (s : Striping) (c : Window) (t : Posture) : WriteBatch :=
  if c.HasGathered s t then c.ops else []

variable {n : Nat} {s : Striping} {c : Window} {t t' : Posture} {m m' : Contents} {q : Effect}
  {i : Nat} {key : Bytes}

/-- Who has gathered its stripes has all its writes before it. -/
theorem due_of_gathered (h : c.HasGathered s t) : c.due s t = c.ops := if_pos h

/-- Who has not, has none that count yet. -/
theorem due_of_not_gathered (h : ¬ c.HasGathered s t) : c.due s t = [] := if_neg h

namespace Manners

/-- A window that goes into one more stripe lacked it. -/
theorem not_gathered_of_enter {hold : Hold} (h : c.Manners s (t.enter s hold i m)) :
    ¬ c.HasGathered s t := by
  intro hgathered
  have hprefix := h.inOrder.length_le
  rw [← hgathered, Posture.enter, List.length_reverse, List.length_reverse, List.length_cons]
    at hprefix
  omega

/-- When a window goes into the last stripe that it lacks, it holds all of them. -/
theorem hold_of_enter {hold : Hold} (h : c.Manners s t) (h' : c.Manners s (t.enter s hold i m))
    (hgathered : c.HasGathered s (t.enter s hold i m)) {j : Nat} (hj : j ∈ s.indices c.keys) :
    (t.enter s hold i m).hold j = some c.hold := by
  rw [← hgathered, List.mem_reverse] at hj
  by_cases hij : j = i
  · rw [hij, Posture.hold_enter_self, (h'.held i hold (t.hold_enter_self s hold m)).1]
  · rw [t.hold_enter_of_ne s hold m hij]
    exact (h.gathers h'.not_gathered_of_enter).2 j ((List.mem_cons.mp hj).resolve_left hij)

/-- A window that gives stripes back has written what was due. -/
theorem written_of_leave {hold : Hold} (h : c.Manners s t) (h' : c.Manners s (t.leave i))
    (hheld : t.hold i = some hold) : t.written = c.due s t := by
  by_cases hgathered : c.HasGathered s t
  · rw [due_of_gathered hgathered]
    obtain hall | hwritten := h'.keeps hgathered
    · have hi : i ∈ s.indices c.keys := by
        rw [← hgathered, List.mem_reverse]
        exact (h.held i hold hheld).2
      cases t.hold_leave_self.symm.trans (hall i hi)
    · exact hwritten
  · rw [due_of_not_gathered hgathered]
    exact (h.gathers hgathered).1

/-- A window becomes the writer of no stripe that it reads. -/
theorem not_upgraded (h : c.Manners s t) (h' : c.Manners s (t.upgraded i)) :
    t.hold i ≠ some .shared := by
  intro hheld
  cases (h.held i _ hheld).1.trans (h'.held i _ t.hold_upgraded_self).1.symm

/-- A window that has gathered its stripes had gathered them before, or holds all of them. -/
theorem gathered_cases (h : c.Manners s t) (h' : c.Manners s t')
    (hchange : Posture.Change n s t m q t' m') (hgathered : c.HasGathered s t') :
    c.HasGathered s t ∧ t'.base = t.base ∨
      t'.written = [] ∧ ∀ j ∈ s.indices c.keys, t'.hold j = some c.hold := by
  cases hchange with
  | enter hold hi hout hwritten => exact .inr ⟨hwritten, fun j => h.hold_of_enter h' hgathered⟩
  | _ => exact .inl ⟨hgathered, rfl⟩

end Manners

/-- Run one after the other, some windows answer as they are listed to, and leave the dictionary
with given contents and its stripes idle.  Each has its number. -/
def Serial (d : Dictionary) (b : Backend) (order : List (Nat × Window × Answer)) (m : Contents) :
    Prop :=
  ∃ b' w, Work.inTurn (order.map fun e => e.2.1.work d) b = (order.map fun e => .ok e.2.2, b') ∧
    b'.IsIn w ∧ d.AtRest w ∧ w.now d.column = m

namespace Serial

variable {d : Dictionary} {b : Backend} {order : List (Nat × Window × Answer)}

/-- Without windows, the contents are those of the start. -/
theorem nil {w : World} (hb : b.IsIn w) (h : d.AtRest w) : Serial d b [] (w.now d.column) :=
  ⟨b, w, rfl, hb, h, rfl⟩

/-- One more window at the end answers about the contents that the others left. -/
theorem concat (h : Serial d b order m) (i : Nat) (c : Window) :
    Serial d b (order ++ [(i, c, c.answer m)]) (m.applyAll c.ops) := by
  obtain ⟨b₁, w₁, hturn, hb₁, hrest, rfl⟩ := h
  obtain ⟨b₂, w₂, hconcat, hb₂, hwrites⟩ := (makes_work hrest c).inTurn_concat hturn hb₁
  refine ⟨b₂, w₂, ?_, hb₂, hrest.writes hwrites, hwrites.now⟩
  rw [List.map_append, List.map_append, List.map_singleton, List.map_singleton, hconcat]
  rfl

/-- Windows without keys change nothing. -/
theorem append_empty (h : Serial d b order m) {more : List (Nat × Window × Answer)}
    (hmore : ∀ e ∈ more, e.2.1.keys = [] ∧ e.2.2 = e.2.1.answer m) :
    Serial d b (order ++ more) m := by
  induction more generalizing order with
  | nil => rwa [List.append_nil]
  | cons e more ih =>
    obtain ⟨i, c, a⟩ := e
    obtain ⟨⟨hkeys, ha⟩, hrest⟩ := List.forall_mem_cons.mp hmore
    obtain rfl : a = c.answer m := ha
    have hsame : m.applyAll c.ops = m := funext fun key =>
      applyAll_ops_of_not_mem (by rw [show c.keys = [] from hkeys]; exact List.not_mem_nil)
    have hconcat := h.concat i c
    rw [hsame] at hconcat
    rw [List.append_cons]
    exact ih hconcat hrest

end Serial

end Window

namespace Tenant

variable {κ α : Type} {ks : List (Tenant κ α)} {k k' : Tenant κ α} {i j l : Nat}

/-- Nobody holds a stripe alone. -/
def NobodyAlone (ks : List (Tenant κ α)) (l : Nat) : Prop :=
  ∀ (i : Nat) (k : Tenant κ α), ks[i]? = some k → k.posture.hold l ≠ some .exclusive

namespace NobodyAlone

/-- A turn after which nobody is alone in a stripe did not take it alone. -/
theorem self (h : NobodyAlone (ks.set i k') l) (hk : ks[i]? = some k) :
    k'.posture.hold l ≠ some .exclusive :=
  h i k' (List.getElem?_set_of_eq_some hk)

/-- Nobody did before if this one did not. -/
theorem of_set (h : NobodyAlone (ks.set i k') l) (hk : ks[i]? = some k)
    (hself : k.posture.hold l ≠ some .exclusive) : NobodyAlone ks l := by
  intro j k'' hk''
  by_cases hij : j = i
  · subst hij
    rw [hk, Option.some.injEq] at hk''
    rwa [← hk'']
  · exact h j k'' (by rwa [List.getElem?_set_ne (Ne.symm hij)])

end NobodyAlone

end Tenant

namespace Workshop

namespace Hosts

variable {κ α : Type} {n : Nat} {s : Striping} {I : κ → Posture → Prop}
  {Q : κ → Outcome α → Posture → Prop} {x : Workshop α} {ks : List (Tenant κ α)}
  {k : Tenant κ α} {t : Posture} {rest : Work Empty α} {m m₁ : Contents} {i j : Nat} {hold : Hold}

/-- Nobody was alone in a stripe into which somebody was let in. -/
theorem nobodyAlone_of_enter
    (h : Hosts n s I Q x (ks.set i ⟨k.task, t.enter s hold j m₁, rest⟩) m) (hk : ks[i]? = some k)
    (hout : k.posture.hold j = none) : Tenant.NobodyAlone ks j := by
  intro i' k' hk' halone
  by_cases hij : i' = i
  · subst hij
    rw [hk, Option.some.injEq] at hk'
    rw [← hk', hout] at halone
    cases halone
  · rw [← List.getElem?_set_ne (Ne.symm hij)] at hk'
    have hfree := h.alone hk' (List.getElem?_set_of_eq_some hk) (Ne.symm hij) halone
    cases (t.hold_enter_self s hold m₁).symm.trans hfree

end Hosts

/-- The invariant of a workshop in which windows are under way. -/
abbrev Windows (d : Dictionary) (s : Striping) (x : Workshop Window.Answer)
    (ks : List (Tenant Window Window.Answer)) (m : Contents) : Prop :=
  Hosts d.column s (fun c => c.Manners s) (fun c => c.Ends s c.answer) x ks m

/-- A workshop in which windows are under way, with the contents of the dictionary, the windows that
have gathered their stripes, in the order in which they did, and the contents that these make if
they run one after the other. -/
structure Commits (d : Dictionary) (s : Striping) (b : Backend) (x : Workshop Window.Answer)
    (ks : List (Tenant Window Window.Answer)) (m : Contents)
    (order : List (Nat × Window × Window.Answer)) (m' : Contents) : Prop where
  /-- The windows keep to their manners. -/
  windows : Windows d s x ks m
  /-- Those that have gathered their stripes answer as listed if they run one after the other. -/
  serial : Window.Serial d b order m'
  /-- None is listed twice. -/
  nodup : (order.map (·.1)).Nodup
  /-- They answer about what their keys held when they had gathered their stripes. -/
  mem_order : ∀ i c a, (i, c, a) ∈ order ↔ ∃ k : Tenant Window Window.Answer,
    ks[i]? = some k ∧ k.task = c ∧ c.HasGathered s k.posture ∧ a = c.answer k.posture.base
  /-- Whoever holds a stripe has made of its keys what is due. -/
  holds : ∀ k ∈ ks, ∀ key, k.posture.hold (s.index key) ≠ none →
    m' key = k.posture.base.applyAll (k.task.due s k.posture) key
  /-- What nobody holds alone is as it should be. -/
  free : ∀ key, Tenant.NobodyAlone ks (s.index key) → m' key = m key

namespace Commits

variable {d : Dictionary} {s : Striping} {b : Backend} {x y : Workshop Window.Answer}
  {ks : List (Tenant Window Window.Answer)} {m m' m₁ : Contents} {i : Nat}
  {order : List (Nat × Window × Window.Answer)} {k : Tenant Window Window.Answer} {t : Posture}
  {rest : Work Empty Window.Answer}

/-- Nobody goes into the last stripe that it lacks. -/
theorem keep (h : Commits d s b x ks m order m') (hk : ks[i]? = some k)
    (hwindows : Windows d s y (ks.set i ⟨k.task, t, rest⟩) m₁)
    (hgathered : k.task.HasGathered s t ↔ k.task.HasGathered s k.posture)
    (hbase : k.task.HasGathered s t → t.base = k.posture.base)
    (hholds : ∀ key, t.hold (s.index key) ≠ none → m' key = t.base.applyAll (k.task.due s t) key)
    (hfree : ∀ key, Tenant.NobodyAlone (ks.set i ⟨k.task, t, rest⟩) (s.index key) →
      m' key = m₁ key) :
    Commits d s b y (ks.set i ⟨k.task, t, rest⟩) m₁ order m' where
  windows := hwindows
  serial := h.serial
  nodup := h.nodup
  mem_order j c a := by
    rw [h.mem_order]
    -- What a window answers depends on what it saw when it had gathered its stripes, which did not
    -- change.
    by_cases hij : j = i
    · subst hij
      rw [hk, List.getElem?_set_of_eq_some hk]
      constructor
      · rintro ⟨_, ⟨⟩, rfl, hg, ha⟩
        exact ⟨_, rfl, rfl, hgathered.mpr hg, by rw [ha, hbase (hgathered.mpr hg)]⟩
      · rintro ⟨_, ⟨⟩, rfl, hg, ha⟩
        exact ⟨_, rfl, rfl, hgathered.mp hg, by rw [ha, hbase hg]⟩
    · rw [List.getElem?_set_ne (Ne.symm hij)]
  holds k' hk' := by
    obtain hk' | rfl := List.mem_or_eq_of_mem_set hk'
    · exact h.holds k' hk'
    · exact hholds
  free := hfree

/-- A window goes into the last stripe that it lacks, and is thought to do all its work. -/
theorem commit (h : Commits d s b x ks m order m') (hk : ks[i]? = some k)
    (hwindows : Windows d s y (ks.set i ⟨k.task, t, rest⟩) m)
    (hmissing : ¬ k.task.HasGathered s k.posture) (hgathered : k.task.HasGathered s t)
    (hhold : ∀ key ∈ k.task.keys, t.hold (s.index key) = some k.task.hold)
    (hholds : ∀ key, t.hold (s.index key) ≠ none → m' key = t.base key)
    (hfree : ∀ key, Tenant.NobodyAlone (ks.set i ⟨k.task, t, rest⟩) (s.index key) →
      m' key = m key) :
    Commits d s b y (ks.set i ⟨k.task, t, rest⟩) m
      (order ++ [(i, k.task, k.task.answer t.base)]) (m'.applyAll k.task.ops) := by
  have hself : (ks.set i ⟨k.task, t, rest⟩)[i]? = some ⟨k.task, t, rest⟩ :=
    List.getElem?_set_of_eq_some hk
  have hanswer : k.task.answer m' = k.task.answer t.base := Window.answer_congr fun key hkey =>
    hholds key (by rw [hhold key hkey]; exact Option.some_ne_none _)
  -- What it does not hold alone, it does not write.
  have hframe : ∀ key, t.hold (s.index key) ≠ some .exclusive →
      m'.applyAll k.task.ops key = m' key := by
    intro key hkey
    refine Contents.applyAll_of_not_touches fun op hop => Bool.eq_false_iff.mpr fun htouches => ?_
    obtain ⟨hexclusive, hmem⟩ := Window.mem_keys_of_touches hop htouches
    exact hkey (hexclusive ▸ hhold key hmem)
  have hlacks : ∀ c a, (i, c, a) ∉ order := by
    intro c a hmem
    obtain ⟨k', hk', rfl, hg, -⟩ := (h.mem_order i c a).mp hmem
    rw [hk, Option.some.injEq] at hk'
    exact hmissing (hk' ▸ hg)
  exact
    { windows := hwindows
      serial := hanswer ▸ h.serial.concat i k.task
      nodup := by
        rw [List.map_append, List.nodup_append]
        refine ⟨h.nodup, List.nodup_singleton _, ?_⟩
        rintro j hj _ hi rfl
        obtain rfl : j = i := List.mem_singleton.mp hi
        obtain ⟨⟨_, c, a⟩, hmem, rfl⟩ := List.mem_map.mp hj
        exact hlacks c a hmem
      mem_order := by
        intro j c a
        rw [List.mem_append, List.mem_singleton, h.mem_order]
        by_cases hij : j = i
        · subst hij
          rw [hself]
          constructor
          · rintro (hmem | ⟨-, rfl, rfl⟩)
            · exact absurd ((h.mem_order j c a).mpr hmem) (hlacks c a)
            · exact ⟨_, rfl, rfl, hgathered, rfl⟩
          · rintro ⟨_, ⟨⟩, rfl, -, rfl⟩
            exact .inr rfl
        · rw [List.getElem?_set_ne (Ne.symm hij)]
          exact or_iff_left fun heq => hij (Prod.mk.inj heq).1
      holds := by
        intro k' hk' key hkey
        obtain ⟨j, hj⟩ := List.mem_iff_getElem?.mp hk'
        obtain ⟨rfl, rfl⟩ | ⟨hij, hj'⟩ := List.getElem?_set_cases hk hj
        · rw [Window.due_of_gathered hgathered]
          exact Contents.applyAll_congr _ (hholds key hkey)
        · rw [hframe key fun halone => hkey (hwindows.alone hself hj hij halone)]
          exact h.holds k' (List.mem_of_getElem? hj') key hkey
      free := fun key hnobody => by
        rw [hframe key (hnobody.self hk)]
        exact hfree key hnobody }

/-- A window gives a stripe back: what it wrote is what was due. -/
theorem leave (h : Commits d s b x ks m order m') (hk : ks[i]? = some k) {hold : Hold} {j : Nat}
    (hheld : k.posture.hold j = some hold)
    (hwindows : Windows d s y (ks.set i ⟨k.task, k.posture.leave j, rest⟩) m) :
    Commits d s b y (ks.set i ⟨k.task, k.posture.leave j, rest⟩) m order m' := by
  have hmem : k ∈ ks := List.mem_of_getElem? hk
  refine h.keep hk hwindows Iff.rfl (fun _ => rfl) (fun key hkey => ?_) fun key hnobody => ?_
  · have hne : s.index key ≠ j := fun heq => hkey (heq ▸ k.posture.hold_leave_self)
    rw [k.posture.hold_leave_of_ne hne] at hkey
    exact h.holds k hmem key hkey
  · by_cases hself : k.posture.hold (s.index key) = some .exclusive
    · have hkey : k.posture.hold (s.index key) ≠ none := by
        rw [hself]
        exact Option.some_ne_none _
      have hwritten := (h.windows.manners k hmem).written_of_leave (hwindows.manners_set hk) hheld
      rw [h.holds k hmem key hkey, h.windows.sees k hmem key hkey, Posture.view, hwritten]
    · exact h.free key (hnobody.of_set hk hself)

/-- A window goes into a stripe, maybe into the last one that it lacks. -/
theorem enter (h : Commits d s b x ks m order m') (hk : ks[i]? = some k) {hold : Hold} {j : Nat}
    (hout : k.posture.hold j = none)
    (hwindows : Windows d s y (ks.set i ⟨k.task, k.posture.enter s hold j m, rest⟩) m) :
    ∃ order₁ m₁, Commits d s b y (ks.set i ⟨k.task, k.posture.enter s hold j m, rest⟩) m order₁
      m₁ := by
  have hmem : k ∈ ks := List.mem_of_getElem? hk
  have hmanners' : k.task.Manners s (k.posture.enter s hold j m) := hwindows.manners_set hk
  have hmissing : ¬ k.task.HasGathered s k.posture := hmanners'.not_gathered_of_enter
  have hnobody := hwindows.nobodyAlone_of_enter hk hout
  have hfree : ∀ key, Tenant.NobodyAlone (ks.set i ⟨k.task, k.posture.enter s hold j m, rest⟩)
      (s.index key) → m' key = m key := by
    intro key hset
    by_cases hstripe : s.index key = j
    · exact h.free key (hstripe ▸ hnobody)
    · have hself := hset.self hk
      rw [k.posture.hold_enter_of_ne s hold m hstripe] at hself
      exact h.free key (hset.of_set hk hself)
  have hholds : ∀ key, (k.posture.enter s hold j m).hold (s.index key) ≠ none →
      m' key = (k.posture.enter s hold j m).base key := by
    intro key hkey
    by_cases hstripe : s.index key = j
    · exact (h.free key (hstripe ▸ hnobody)).trans (if_pos hstripe).symm
    · rw [k.posture.hold_enter_of_ne s hold m hstripe] at hkey
      have hdue := h.holds k hmem key hkey
      rw [Window.due_of_not_gathered hmissing, Contents.applyAll_nil] at hdue
      exact hdue.trans (if_neg hstripe).symm
  -- With its last stripe a window has gathered all of them, and takes its place in the order now.
  by_cases hgathered : k.task.HasGathered s (k.posture.enter s hold j m)
  · refine ⟨_, _, h.commit hk hwindows hmissing hgathered (fun key hkey => ?_) hholds hfree⟩
    exact (h.windows.manners k hmem).hold_of_enter hmanners' hgathered
      (Striping.index_mem_indices hkey)
  · refine ⟨order, m', h.keep hk hwindows (iff_of_false hgathered hmissing)
      (fun hall => absurd hall hgathered) (fun key hkey => ?_) hfree⟩
    rw [Window.due_of_not_gathered hgathered, Contents.applyAll_nil]
    exact hholds key hkey

/-- **One turn changes the posture of one window**, and the order goes on if the window has gathered
its stripes now. -/
theorem turn (h : Commits d s b x ks m order m') (i : Nat) :
    ∃ ks₁ m₁ order₁ m₁', ks₁.map (·.task) = ks.map (·.task) ∧
      Commits d s b (x.turn i) ks₁ m₁ order₁ m₁' := by
  obtain hidle | ⟨k, q, next, t, rest, m₁, hk, -, hchange, hwindows⟩ := h.windows.turn i
  · rw [hidle]
    exact ⟨ks, m, order, m', rfl, h⟩
  refine ⟨ks.set i ⟨k.task, t, rest⟩, m₁, ?_⟩
  suffices hnext : ∃ order₁ m₁', Commits d s b (x.turn i) (ks.set i ⟨k.task, t, rest⟩) m₁ order₁
      m₁' by
    obtain ⟨order₁, m₁', hnext⟩ := hnext
    exact ⟨order₁, m₁', Tenant.map_task_set hk t rest, hnext⟩
  have hholds := h.holds k (List.mem_of_getElem? hk)
  -- Only to enter a stripe can commit a window.
  cases hchange with
  | idle hwrites hentered =>
    exact ⟨order, m', h.keep hk hwindows Iff.rfl (fun _ => rfl) hholds fun key hnobody =>
      h.free key (hnobody.of_set hk (hnobody.self hk))⟩
  | announce j =>
    exact ⟨order, m', h.keep hk hwindows Iff.rfl (fun _ => rfl) hholds fun key hnobody =>
      h.free key (hnobody.of_set hk (hnobody.self hk))⟩
  | enter hold hj hout hwritten => exact h.enter hk hout hwindows
  | upgrade hheld =>
    have hmanners := h.windows.manners k (List.mem_of_getElem? hk)
    exact absurd hheld (hmanners.not_upgraded (hwindows.manners_set hk))
  | leave hheld => exact ⟨order, m', h.leave hk hheld hwindows⟩
  | @write c batch hwrites hheld =>
    refine ⟨order, m', h.keep hk hwindows Iff.rfl (fun _ => rfl) hholds fun key hnobody => ?_⟩
    have hself : k.posture.hold (s.index key) ≠ some .exclusive := hnobody.self hk
    rw [h.free key (hnobody.of_set hk hself)]
    exact (Posture.Change.frame (.write (m := m) hwrites hheld) hself).symm

/-- Every run keeps to the invariant. -/
theorem run (h : Commits d s b x ks m order m') (schedule : List Nat) :
    ∃ ks₁ m₁ order₁ m₁', ks₁.map (·.task) = ks.map (·.task) ∧
      Commits d s b (x.run schedule) ks₁ m₁ order₁ m₁' := by
  refine run_induction (P := fun y => ∃ ks₁ m₁ order₁ m₁', ks₁.map (·.task) = ks.map (·.task) ∧
    Commits d s b y ks₁ m₁ order₁ m₁') ⟨ks, m, order, m', rfl, h⟩ ?_ schedule
  rintro y i ⟨ks₁, m₁, order₁, m₁', htasks₁, h₁⟩
  obtain ⟨ks₂, m₂, order₂, m₂', htasks₂, h₂⟩ := h₁.turn i
  exact ⟨ks₂, m₂, order₂, m₂', htasks₂.trans htasks₁, h₂⟩

/-- Nothing has happened yet, but windows without keys have nothing to wait for. -/
theorem start {w : World} (hb : b.IsIn w) (hrest : d.AtRest w) {windows : List Window}
    (hwindows : Windows d s x (windows.map fun c => ⟨c, .blank (w.now d.column), c.work d⟩)
      (w.now d.column)) :
    ∃ order, Commits d s b x (windows.map fun c => ⟨c, .blank (w.now d.column), c.work d⟩)
      (w.now d.column) order (w.now d.column) := by
  let m := w.now d.column
  -- Windows without keys have gathered their stripes before the first turn.
  let ready := windows.zipIdx.filter fun e => e.1.HasGathered s (.blank m)
  have hready : ∀ e ∈ ready, e.1.HasGathered s (.blank m) := fun e he =>
    of_decide_eq_true (List.mem_filter.mp he).2
  refine ⟨ready.map fun e => (e.2, e.1, e.1.answer m), ?_⟩
  exact
    { windows := hwindows
      serial := by
        refine (Window.Serial.nil hb hrest).append_empty fun e he => ?_
        obtain ⟨e, hmem, rfl⟩ := List.mem_map.mp he
        exact ⟨Window.keys_eq_nil_of_blank (hready e hmem), rfl⟩
      nodup := by
        rw [List.map_map]
        refine List.Nodup.sublist (List.filter_sublist.map Prod.snd) ?_
        rw [List.zipIdx_map_snd]
        exact List.nodup_range'
      mem_order := by
        intro i c a
        rw [List.getElem?_map]
        constructor
        · intro hmem
          obtain ⟨e, he, heq⟩ := List.mem_map.mp hmem
          obtain ⟨rfl, rfl, rfl⟩ : e.2 = i ∧ e.1 = c ∧ e.1.answer m = a := by
            simpa using heq
          have hi : windows[e.2]? = some e.1 :=
            List.mem_zipIdx_iff_getElem?.mp (List.mem_filter.mp he).1
          exact ⟨_, by rw [hi]; rfl, rfl, hready e he, rfl⟩
        · rintro ⟨k, hk, rfl, hgathered, rfl⟩
          obtain ⟨c, hc, rfl⟩ := Option.map_eq_some_iff.mp hk
          refine List.mem_map.mpr ⟨(c, i), List.mem_filter.mpr ⟨?_, ?_⟩, rfl⟩
          · exact List.mem_zipIdx_iff_getElem?.mpr hc
          · exact decide_eq_true hgathered
      holds := by
        intro k hk key hkey
        obtain ⟨c, -, rfl⟩ := List.mem_map.mp hk
        exact absurd rfl hkey
      free := fun _ _ => rfl }

/-- A window that has ended is in its place in the order. -/
theorem mem_of_finish (h : Commits d s b x ks m order m') {c : Window} {r : Outcome Window.Answer}
    (hc : (ks.map (·.task))[i]? = some c) (hr : x.works[i]? = some (.finish r)) :
    ∃ a, r = .done a ∧ (i, c, a) ∈ order := by
  obtain ⟨k, hk, htask, hends⟩ := h.windows.exists_ended hc hr
  exact ⟨_, hends.answer, (h.mem_order _ _ _).mpr ⟨k, hk, htask, hends.gathered, rfl⟩⟩

/-- When all windows that write have ended, the dictionary has the contents that the windows make
one after the other. -/
theorem eq_of_ended (h : Commits d s b x ks m order m')
    (hended : ∀ (i : Nat) (c : Window), (ks.map (·.task))[i]? = some c → c.hold = .exclusive →
      ∃ r, x.works[i]? = some (.finish r)) : m' = m := by
  refine funext fun key => h.free key fun i k hk halone => ?_
  have hmanners := h.windows.manners k (List.mem_of_getElem? hk)
  obtain ⟨r, hr⟩ := hended i k.task (by rw [List.getElem?_map, hk]; rfl)
    (hmanners.held _ _ halone).1.symm
  cases halone.symm.trans ((h.windows.ended hk hr).hold _)

end Commits

/-! ## No torn windows -/

/-- No window that writes one of some keys is halfway: it has written nothing or everything. -/
def NoneIsHalfway (x : Workshop Window.Answer) (n : Nat) (windows : List Window)
    (keys : List Bytes) : Prop :=
  ∀ (j : Nat) (entries : List Entry) (wantsPrevious : Bool),
    windows[j]? = some (.put entries wantsPrevious) → (∃ e ∈ entries, e.1 ∈ keys) →
    x.writtenBy j = [] ∨ x.writtenBy j = (Contents.puts entries).map (n, ·)

namespace Windows

variable {d : Dictionary} {s : Striping} {x : Workshop Window.Answer}
  {ks : List (Tenant Window Window.Answer)} {m : Contents} {i : Nat}
  {k : Tenant Window Window.Answer}

/-- While a window holds all its stripes, no other one with a common key is halfway. -/
theorem noneIsHalfway (h : Windows d s x ks m) (hk : ks[i]? = some k)
    (hwritten : k.posture.written = [])
    (hhold : ∀ j ∈ s.indices k.task.keys, k.posture.hold j = some k.task.hold) :
    x.NoneIsHalfway d.column (ks.map (·.task)) k.task.keys := by
  rintro j entries wantsPrevious hj ⟨e, he, hkey⟩
  rw [List.getElem?_map, Option.map_eq_some_iff] at hj
  obtain ⟨k', hk', htask⟩ := hj
  have hmanners := h.manners k' (List.mem_of_getElem? hk')
  rw [htask] at hmanners
  rw [h.written_eq j k' hk']
  by_cases hij : i = j
  · subst hij
    rw [hk, Option.some.injEq] at hk'
    rw [← hk', hwritten]
    exact .inl rfl
  -- A put window that lacks a stripe has written nothing, and one that has them all keeps others
  -- out until it has written.
  by_cases hgathered : Window.HasGathered s (.put entries wantsPrevious) k'.posture
  · obtain hall | hwrote := hmanners.keeps hgathered
    · -- It holds the stripe of the common key alone, and so does this one hold it.
      have halone := hall (s.index e.1) (Striping.index_mem_indices (List.mem_map_of_mem he))
      cases (hhold _ (Striping.index_mem_indices hkey)).symm.trans (h.alone hk' hk hij halone)
    · rw [hwrote]
      exact .inr rfl
  · rw [(hmanners.gathers hgathered).1]
    exact .inl rfl

/-- A window gathered its stripes at some moment, when its keys held what it took them to hold and
no window with a common key was halfway. -/
def GatheredAtAMoment (d : Dictionary) (s : Striping) (x : Workshop Window.Answer) (windows : List Window)
    (schedule : List Nat) (k : Tenant Window Window.Answer) : Prop :=
  k.task.HasGathered s k.posture → ∃ before after, schedule = before ++ after ∧
    (x.run before).NoneIsHalfway d.column windows k.task.keys ∧
    ∀ key ∈ k.task.keys, (x.run before).stored d.column key = k.posture.base key

/-- Every window that has gathered its stripes did so at some moment. -/
theorem run_moments (h : Windows d s x ks m) (hfresh : ∀ k ∈ ks, k.posture.entered = [])
    (schedule : List Nat) :
    ∃ ks' m', ks'.map (·.task) = ks.map (·.task) ∧ Windows d s (x.run schedule) ks' m' ∧
      ∀ (i : Nat) k, ks'[i]? = some k → GatheredAtAMoment d s x (ks.map (·.task)) schedule k := by
  refine h.run_tenants (P := fun schedule _ => GatheredAtAMoment d s x (ks.map (·.task)) schedule)
    (fun i k hk hgathered => ?_) (fun schedule i j k hmoment hgathered => ?_)
    (fun schedule i ks₁ m₁ k q next t rest m₂ htasks h₁ hk _ hmoment hchange h₂ hgathered => ?_)
    schedule
  · -- Who has gathered its stripes without going into any has no keys.
    have hkeys : k.task.keys = [] := Window.keys_eq_nil_of_blank (s := s) (m := m) (by
      rwa [Window.hasGathered_congr (hfresh k (List.mem_of_getElem? hk)).symm])
    refine ⟨[], [], rfl, ?_, ?_⟩
    · rintro j entries wantsPrevious - ⟨e, -, hkey⟩
      rw [hkeys] at hkey
      cases hkey
    · intro key hkey
      rw [hkeys] at hkey
      cases hkey
  · obtain ⟨before, after, hschedule, hbefore⟩ := hmoment hgathered
    exact ⟨before, after ++ [i], by rw [hschedule, List.append_assoc], hbefore⟩
  have hself : (ks₁.set i ⟨k.task, t, rest⟩)[i]? = some ⟨k.task, t, rest⟩ :=
    List.getElem?_set_of_eq_some hk
  -- The stripes were gathered before this turn, or they are with this turn, which then is the
  -- moment.
  obtain ⟨hbefore, hbase⟩ | ⟨hwritten, hhold⟩ :=
    (h₁.manners k (List.mem_of_getElem? hk)).gathered_cases (h₂.manners_set hk) hchange hgathered
  · obtain ⟨before, after, hschedule, hwhole, hstored⟩ := hmoment hbefore
    exact ⟨before, after ++ [i], by rw [hschedule, List.append_assoc], hwhole,
      fun key hkey => (hstored key hkey).trans (congrFun hbase key).symm⟩
  · refine ⟨schedule ++ [i], [], (List.append_nil _).symm, ?_, fun key hkey => ?_⟩
    · rw [← htasks, ← Tenant.map_task_set hk t rest]
      exact noneIsHalfway h₂ hself hwritten hhold
    · have hheld : t.hold (s.index key) ≠ none := by
        rw [hhold _ (Striping.index_mem_indices hkey)]
        exact Option.some_ne_none _
      rw [h₂.stored_eq, h₂.sees _ (List.mem_of_getElem? hself) key hheld,
        Posture.view_of_unwritten hwritten]

/-- A window of keys that ended has what was stored at one moment, when no window of entries with a
common key was halfway. -/
theorem values_of_finish (h : Windows d s x ks m) (hfresh : ∀ k ∈ ks, k.posture.entered = [])
    {schedule : List Nat} {keys : List Bytes} {sure : Bool} {r : Outcome Window.Answer}
    (hc : (ks.map (·.task))[i]? = some (.get keys sure))
    (hr : (x.run schedule).works[i]? = some (.finish r)) :
    ∃ before after, schedule = before ++ after ∧
      (x.run before).NoneIsHalfway d.column (ks.map (·.task)) keys ∧
      r = .done (.values (keys.map fun key => (key, (x.run before).stored d.column key))) := by
  obtain ⟨ks', m', hsame, h', hmoments⟩ := run_moments h hfresh schedule
  obtain ⟨k, hk, htask, hends⟩ := h'.exists_ended (hsame ▸ hc) hr
  have hmoment := hmoments i k hk
  rw [GatheredAtAMoment, htask] at hmoment
  obtain ⟨before, after, hschedule, hwhole, hstored⟩ := hmoment hends.gathered
  refine ⟨before, after, hschedule, hwhole, ?_⟩
  rw [hends.answer, Window.answer_congr (c := .get keys sure) fun key hkey =>
    (hstored key hkey).symm]
  rfl

end Windows

/-- **Windows are serializable, and none is torn.**  Windows of keys that are read and windows of
entries that are written run at the same time on a dictionary with any stripes and any caps of
batches, under any schedule, on an engine that works.

* A window of keys that ended has the values that were stored at one moment, and at this moment
  every window of entries with a common key had written nothing or everything.
* The windows that ended, and maybe others that have all their stripes, answer what they answer if
  they run one after the other in some order; none breaks down.
* Once all windows of entries have ended, the dictionary holds what it holds then. -/
theorem windows_serializable {d : Dictionary} {s : Striping} (hstriping : d.striping = some s)
    {options : Engine.Options} {e : Engine} (hreached : (Engine.new options).Evolves e)
    (hopen : e.isClosed = false) (hcolumn : d.column < e.columns.length) (snapshots : Snapshots)
    (windows : List Window) (schedule : List Nat) :
    let b : Backend := ⟨.reliable e, snapshots, .idle s⟩
    let start := Workshop.start b (windows.map (·.work d))
    let x := start.run schedule
    (∀ (i : Nat) (keys : List Bytes) (sure : Bool) (r : Outcome Window.Answer),
      windows[i]? = some (.get keys sure) → x.works[i]? = some (.finish r) →
      ∃ before after, schedule = before ++ after ∧
        (start.run before).NoneIsHalfway d.column windows keys ∧
        r = .done (.values (keys.map fun key => (key, (start.run before).stored d.column key)))) ∧
    ∃ order : List (Nat × Window × Window.Answer), (order.map (·.1)).Nodup ∧
      (∀ e ∈ order, windows[e.1]? = some e.2.1 ∧
        (x.enteredBy e.1).reverse = s.indices e.2.1.keys) ∧
      (∀ (i : Nat) (c : Window) (r : Outcome Window.Answer), windows[i]? = some c →
        x.works[i]? = some (.finish r) → ∃ a, r = .done a ∧ (i, c, a) ∈ order) ∧
      let serial := Work.inTurn (order.map (·.2.1.work d)) b
      serial.1 = order.map (.ok ·.2.2) ∧
      ((∀ (i : Nat) (entries : List Entry) (wantsPrevious : Bool),
        windows[i]? = some (.put entries wantsPrevious) → ∃ r, x.works[i]? = some (.finish r)) →
        serial.2.engine.engine.newest d.column = x.stored d.column) := by
  intro b start x
  obtain ⟨w, hb, hrest⟩ := exists_isIn hstriping hreached hopen hcolumn snapshots
  have hstripes : b.stripes = .idle s := rfl
  have hstart : Windows d s start _ (w.now d.column) :=
    Hosts.start hb hrest.column hstripes (fun c _ => c.manners_blank _)
      fun c _ => c.minds_work hstriping _
  have htasks := Tenant.map_task_blank windows (w.now d.column) (·.work d)
  constructor
  · intro i keys sure r hi hr
    have hvalues := hstart.values_of_finish (by simp [Posture.blank]) (htasks.symm ▸ hi) hr
    rwa [htasks] at hvalues
  · obtain ⟨order₀, hcommits⟩ := Commits.start (b := b) hb hrest hstart
    obtain ⟨ks, m, order, m', hsame, h⟩ := hcommits.run schedule
    rw [htasks] at hsame
    obtain ⟨b', w', hturn, hb', hrest', rfl⟩ := h.serial
    refine ⟨order, h.nodup, fun e he => ?_, fun i c r hi hr => ?_, ?_, fun hended => ?_⟩
    · obtain ⟨k, hk, htask, hgathered, -⟩ := (h.mem_order e.1 e.2.1 e.2.2).mp he
      refine ⟨?_, by rw [h.windows.entered_eq e.1 k hk, hgathered]⟩
      rw [← hsame, List.getElem?_map, hk, ← htask]
      rfl
    · exact h.mem_of_finish (hsame.symm ▸ hi) hr
    · exact congrArg Prod.fst hturn
    · have hshows : b'.Shows d.column (w'.now d.column) := ⟨w', hb', hrest'.column, rfl⟩
      rw [h.windows.stored_eq, ← h.eq_of_ended ?_, hturn]
      · exact funext hshows.newest_eq
      · rintro i (_ | ⟨entries, wantsPrevious⟩) hi hhold
        · cases hhold
        · exact hended i entries wantsPrevious (hsame ▸ hi)

/-- One window reads a key before a window of two entries is let in, another one asks for both keys
between the two batches in which the entries are written, and waits. -/
theorem windows_serializable_contended :
    let scheme : Filter.Scheme :=
      ⟨fun key => (key.length.toUInt64, 0), fun _ => ⟨64, 1, by decide, by decide⟩⟩
    let e := ((Engine.new { scheme }).answer (.createColumn "pairs")).2
    let s : Striping := ⟨4, fun key => (key.headD 0).toUInt64, by decide⟩
    let d : Dictionary := ⟨"pairs", "db", "memory", 0, .allow, some s, false,
      { Config.testing with writeBatchCap := 1 }⟩
    let windows : List Window :=
      [.put [([1], [7]), ([2], [8])] true, .get [[2], [1]] true, .get [[1]] true]
    let outcomes := [.done (.previous [none, none]),
      .done (.values [([2], some [8]), ([1], some [7])]), .done (.values [([1], none)])]
    let b : Backend := ⟨.reliable e, .empty, .idle s⟩
    let start := start b (windows.map (·.work d))
    let schedule :=
      [2, 2, 0, 0, 1, 1, 2, 2, 0, 0, 0, 0, 0, 0, 1, 0, 0, 1, 0, 1, 1, 1, 1, 1, 1]
    let x := start.run schedule
    (start.run (schedule.take 15)).writtenBy 0 = [(0, .put [1] [7])] ∧ x.EndsWith outcomes ∧
      (∃ before after, schedule = before ++ after ∧
        (start.run before).NoneIsHalfway 0 windows [[2], [1]] ∧
        (start.run before).stored 0 [2] = some [8] ∧ (start.run before).stored 0 [1] = some [7]) ∧
      ∃ order : List (Nat × Window × Window.Answer), (order.map (·.1)).Nodup ∧
        (Work.inTurn (order.map (·.2.1.work d)) b).1 = order.map (.ok ·.2.2) := by
  intro scheme e s d windows outcomes b start schedule x
  have hreached : (Engine.new { scheme }).Evolves e := .answer .refl _
  obtain ⟨huntorn, order, hnodup, -, -, hserial, -⟩ := windows_serializable (d := d) (s := s) rfl
    hreached (by rfl) (by decide) .empty windows schedule
  have hdone : x.EndsWith outcomes := by decide +kernel
  obtain ⟨before, after, hschedule, hwhole, hanswer⟩ :=
    huntorn 1 [[2], [1]] true _ rfl (hdone.finish rfl)
  simp only [Outcome.done.injEq, Window.Answer.values.injEq, List.map_cons, List.map_nil,
    List.cons.injEq, Prod.mk.injEq, true_and, and_true] at hanswer
  exact ⟨by decide +kernel, hdone, ⟨before, after, hschedule, hwhole, hanswer.1.symm,
    hanswer.2.symm⟩, order, hnodup, hserial⟩

end Workshop

end SnapshotStore
