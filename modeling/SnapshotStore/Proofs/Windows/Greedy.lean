import Mathlib.Data.List.TakeWhile
import SnapshotStore.Proofs.Windows

/-!
# Windows are the greedy cut

A cut is greedy if every window takes items for as long as the bounds let it
(`WindowBounds.IsGreedyCut`).  A list has one greedy cut: of two windows that begin at the same
item, the shorter one is full, so the longer one would have gone on although it was full.

Bytes are counted in machine words (`WindowBounds.ofWords`), and the sizes of items may be any
words.  So a window may have more bytes than a word holds, and then is full by what is left of their
number in a word.  Below that, words count exactly (`bytes_ofWords`, `windows_ofNats_eq_ofWords`).

The windows of a list are that cut, and they need not know the list beforehand.  A cutter pulls the
input item by item (`WindowBounds.draw`) and remembers whether it saw the end.  It answers the same
windows, and having seen the end it does not pull any more, whatever the input would answer then.
Where sums are checked, it panics in the first window that has more bytes than a word holds
(`windows_greedy`).
-/

namespace SnapshotStore

variable {α : Type} {b : WindowBounds α}

/-! ## Greedy cuts -/

namespace WindowBounds

/-- The windows of a cut are as long as the bounds let them be. -/
structure IsGreedyCut (b : WindowBounds α) (xs : List α) (cut : List (List α)) : Prop where
  /-- Joined again, the windows are the input. -/
  flatten_eq : cut.flatten = xs
  /-- Every window has an item. -/
  ne_nil : ∀ w ∈ cut, w ≠ []
  /-- No window has too many items. -/
  length_le : ∀ w ∈ cut, w.length ≤ max b.maxItems 1
  /-- Before its last item was taken, a window was empty or below the number of bytes.  The same
  goes for each item before, which has to be said: a sum of words does not always grow. -/
  below : ∀ w ∈ cut, ∀ v, v <+: w.dropLast → v = [] ∨ b.bytes v < b.maxBytes
  /-- A window that is not the last one has no room for another item. -/
  full : ∀ w ∈ cut.dropLast, w.length = max b.maxItems 1 ∨ b.maxBytes ≤ b.bytes w

/-- A window with some items and bytes wants one more if it is empty or below both bounds. -/
theorem wants_iff {items bytes : Nat} : b.wants items bytes = true
    ↔ items = 0 ∨ items < max b.maxItems 1 ∧ bytes < b.maxBytes := by
  simp [wants]

namespace IsGreedyCut

variable {xs w w' : List α} {cut cut' : List (List α)}

/-- The literal bound: without its last item, a window is empty or below the number of bytes. -/
theorem dropLast_below (h : b.IsGreedyCut xs cut) (hw : w ∈ cut) :
    w.dropLast = [] ∨ b.bytes w.dropLast < b.maxBytes :=
  h.below w hw w.dropLast (List.prefix_refl _)

/-- The windows behind the first one are a greedy cut of what they join to. -/
theorem tail (h : b.IsGreedyCut xs (w :: cut)) : b.IsGreedyCut cut.flatten cut where
  flatten_eq := rfl
  ne_nil v hv := h.ne_nil v (List.mem_cons_of_mem _ hv)
  length_le v hv := h.length_le v (List.mem_cons_of_mem _ hv)
  below v hv := h.below v (List.mem_cons_of_mem _ hv)
  full v hv := by
    refine h.full v ?_
    rw [List.dropLast_cons_of_ne_nil (List.ne_nil_of_mem ((List.dropLast_sublist cut).subset hv))]
    exact List.mem_cons_of_mem _ hv

/-- A cut of a list with items has a window. -/
theorem exists_cons (h : b.IsGreedyCut xs cut) (hxs : xs ≠ []) :
    ∃ w rest, cut = w :: rest ∧ w ++ rest.flatten = xs := by
  cases cut with
  | nil => exact absurd h.flatten_eq.symm hxs
  | cons w rest => exact ⟨w, rest, rfl, h.flatten_eq⟩

/-- Of two first windows, the one that has fewer items is full, and so has all items of the
other. -/
theorem length_le_of_first (h : b.IsGreedyCut xs (w :: cut)) (h' : b.IsGreedyCut xs (w' :: cut')) :
    w'.length ≤ w.length := by
  refine Nat.le_of_not_lt fun hlt => ?_
  have hjoined : w ++ cut.flatten = w' ++ cut'.flatten := h.flatten_eq.trans h'.flatten_eq.symm
  have hprefix : w <+: w' :=
    List.prefix_of_prefix_length_le ⟨_, hjoined⟩ (List.prefix_append _ _) (Nat.le_of_lt hlt)
  -- What the other window has more is in later windows.
  have hcut : cut ≠ [] := by
    rintro rfl
    have hlength := congrArg List.length hjoined
    simp only [List.flatten_nil, List.append_nil, List.length_append] at hlength
    omega
  have hmem : w ∈ (w :: cut).dropLast := by
    rw [List.dropLast_cons_of_ne_nil hcut]
    exact List.mem_cons_self
  rcases h.full w hmem with hitems | hbytes
  · have hle := h'.length_le w' List.mem_cons_self
    omega
  · have hdrop : w <+: w'.dropLast := by
      refine List.prefix_of_prefix_length_le hprefix (List.dropLast_prefix w') ?_
      rw [List.length_dropLast]
      omega
    rcases h'.below w' List.mem_cons_self w hdrop with hempty | hbelow
    · exact h.ne_nil w List.mem_cons_self hempty
    · exact absurd hbytes (Nat.not_le.mpr hbelow)

/-- **A list has only one greedy cut.** -/
theorem unique (h : b.IsGreedyCut xs cut) (h' : b.IsGreedyCut xs cut') : cut = cut' := by
  -- The first windows have the same length, so the rest of the list is the same for both cuts.
  induction cut generalizing xs cut' with
  | nil =>
    obtain rfl : [] = xs := h.flatten_eq
    cases cut' with
    | nil => rfl
    | cons w' rest' =>
      exact absurd (List.append_eq_nil_iff.mp h'.flatten_eq).1 (h'.ne_nil w' List.mem_cons_self)
  | cons w rest ih =>
    have hxs : xs ≠ [] := by
      rw [← h.flatten_eq]
      exact List.append_ne_nil_of_left_ne_nil (h.ne_nil w List.mem_cons_self) _
    obtain ⟨w', rest', rfl, hjoined'⟩ := h'.exists_cons hxs
    have hlength : w.length = w'.length :=
      Nat.le_antisymm (h'.length_le_of_first h) (h.length_le_of_first h')
    obtain ⟨rfl, hrest⟩ := List.append_inj (h.flatten_eq.trans hjoined'.symm) hlength
    have htail' := h'.tail
    rw [← hrest] at htail'
    rw [ih h.tail htail']

end IsGreedyCut

end WindowBounds

/-! ## The windows of a list -/

namespace Feed

/-- A window stops before the end of the input only if it wants no more. -/
theorem not_wants_of_fill_eq {n bytes : Nat} {xs window left : List α}
    (h : b.fill n bytes xs = (window, .more left)) :
    b.wants (n + window.length) (b.addAll bytes window) = false := by
  induction xs generalizing n bytes window with
  | nil =>
    unfold WindowBounds.fill at h
    split at h
    · cases h
    · rename_i hwants
      cases h
      exact Bool.eq_false_iff.mpr hwants
  | cons x rest ih =>
    unfold WindowBounds.fill at h
    split at h
    · obtain ⟨rfl, hleft⟩ := Prod.mk.inj h
      have hlater := ih (Prod.ext rfl hleft)
      rwa [Nat.add_assoc, Nat.add_comm 1] at hlater
    · rename_i hwants
      cases h
      exact Bool.eq_false_iff.mpr hwants

/-- Behind a window that is not the last one there are items, so it wants no more. -/
theorem not_wants_of_mem_windows {fuel : Nat} {feed : Feed α} {window : List α}
    (h : window ∈ (feed.windows b fuel).dropLast) :
    b.wants window.length (b.bytes window) = false := by
  induction fuel generalizing feed with
  | zero => simp [windows] at h
  | succ fuel ih =>
    unfold windows at h
    cases hnext : feed.next? b with
    | none => simp [hnext] at h
    | some r =>
      obtain ⟨first, left⟩ := r
      simp only [hnext] at h
      -- Had the input ended with this window, there would be no window behind it.
      have hrest : left.windows b fuel ≠ [] := by
        intro hnil
        simp [hnil] at h
      rw [List.dropLast_cons_of_ne_nil hrest] at h
      rcases List.mem_cons.mp h with rfl | hlater
      · cases feed with
        | ended => cases hnext
        | more xs =>
          cases left with
          | ended => cases fuel <;> simp [windows, next?] at hrest
          | more ys =>
            have hwants := not_wants_of_fill_eq (fill_of_next? hnext)
            rwa [Nat.zero_add] at hwants
      · exact ih hlater

end Feed

/-- What a window had before each of its later items was wanted, so it was below both bounds. -/
theorem below_of_mem_windows {xs w v : List α} (h : w ∈ windows b xs) (hv : v <+: w.dropLast) :
    v = [] ∨ v.length < max b.maxItems 1 ∧ b.bytes v < b.maxBytes := by
  rcases List.eq_nil_or_concat w with rfl | ⟨before, y, rfl⟩
  · exact .inl (List.prefix_nil.mp hv)
  · rw [List.concat_eq_append] at h hv
    rw [List.dropLast_concat] at hv
    obtain ⟨later, rfl⟩ := hv
    -- Behind the prefix there is an item, be it the last one of the window.
    obtain ⟨x, rest, hrest⟩ := List.exists_cons_of_ne_nil
      (List.append_ne_nil_of_right_ne_nil later (List.cons_ne_nil y []))
    rw [List.append_assoc, hrest] at h
    exact (WindowBounds.wants_iff.mp (wants_of_mem_windows h)).imp_left
      List.eq_nil_of_length_eq_zero

/-- A window has one item more than it had when it was below the bounds. -/
theorem length_le_of_mem_windows {xs w : List α} (h : w ∈ windows b xs) :
    w.length ≤ max b.maxItems 1 := by
  have hlength : w.dropLast.length = w.length - 1 := List.length_dropLast
  rcases below_of_mem_windows h (List.prefix_refl _) with hempty | ⟨hitems, -⟩
  · rw [hempty, List.length_nil] at hlength
    omega
  · omega

/-- **The windows of a list are a greedy cut of it.** -/
theorem isGreedyCut_windows (b : WindowBounds α) (xs : List α) :
    b.IsGreedyCut xs (windows b xs) where
  flatten_eq := flatten_windows b xs
  ne_nil _ h := ne_nil_of_mem_windows h
  length_le _ h := length_le_of_mem_windows h
  below _ h _ hv := (below_of_mem_windows h hv).imp_right And.right
  full w h := by
    have hle : w.length ≤ max b.maxItems 1 :=
      length_le_of_mem_windows ((List.dropLast_sublist _).subset h)
    have hwants := Feed.not_wants_of_mem_windows h
    rw [Bool.eq_false_iff, ne_eq, WindowBounds.wants_iff] at hwants
    omega

/-! ## Bytes in machine words -/

namespace WindowBounds

variable {maxItems : Nat} {maxBytes : UInt64} {size : α → UInt64}

/-- The sum of two words is what is left of the exact sum. -/
theorem add_ofWords (m n : Nat) :
    (ofWords maxItems maxBytes size).add m n = (m + n) % UInt64.size := by
  simp [ofWords]

/-- The first item is added first. -/
theorem addAll_cons (b : WindowBounds α) (n : Nat) (x : α) (rest : List α) :
    b.addAll n (x :: rest) = b.addAll (b.add n (b.size x)) rest := rfl

/-- The exact number of bytes, item by item. -/
theorem total_cons (b : WindowBounds α) (x : α) (rest : List α) :
    b.total (x :: rest) = b.size x + b.total rest := rfl

/-- What sums lost on the way does not matter at the end. -/
theorem addAll_ofWords {n : Nat} (hn : n < UInt64.size) (items : List α) :
    (ofWords maxItems maxBytes size).addAll n items
      = (n + (ofWords maxItems maxBytes size).total items) % UInt64.size := by
  induction items generalizing n with
  | nil => exact (Nat.mod_eq_of_lt hn).symm
  | cons x rest ih =>
    rw [addAll_cons, total_cons, add_ofWords, ih (Nat.mod_lt _ (by decide)), Nat.mod_add_mod,
      Nat.add_assoc]

/-- **Words count what is left of the exact number of bytes.** -/
theorem bytes_ofWords (items : List α) : (ofWords maxItems maxBytes size).bytes items
    = (ofWords maxItems maxBytes size).total items % UInt64.size := by
  rw [bytes, addAll_ofWords (by decide), Nat.zero_add]

/-- Some items have no more bytes than all. -/
theorem total_le_of_sublist {xs ys : List α} (h : xs.Sublist ys) (b : WindowBounds α) :
    b.total xs ≤ b.total ys := by
  induction h with
  | slnil => exact Nat.le_refl _
  | cons x _ ih => exact Nat.le_trans ih (Nat.le_add_left _ _)
  | cons_cons x _ ih => exact Nat.add_le_add_left ih _

/-- The exact number of bytes depends only on the sizes of the items. -/
theorem total_congr {b b' : WindowBounds α} {items : List α}
    (h : ∀ x ∈ items, b.size x = b'.size x) : b.total items = b'.total items := by
  induction items with
  | nil => rfl
  | cons x rest ih =>
    rw [total_cons, total_cons, h x List.mem_cons_self,
      ih fun y hy => h y (List.mem_cons_of_mem _ hy)]

/-- A cut is greedy under all bounds that count the same bytes within its windows. -/
theorem IsGreedyCut.congr {b b' : WindowBounds α} {xs : List α} {cut : List (List α)}
    (h : b.IsGreedyCut xs cut) (hitems : b.maxItems = b'.maxItems)
    (hbound : b.maxBytes = b'.maxBytes)
    (hbytes : ∀ w ∈ cut, ∀ v, v.Sublist w → b.bytes v = b'.bytes v) : b'.IsGreedyCut xs cut where
  flatten_eq := h.flatten_eq
  ne_nil := h.ne_nil
  length_le := hitems ▸ h.length_le
  below w hw v hv := by
    rw [← hbound, ← hbytes w hw v (hv.sublist.trans (List.dropLast_sublist w))]
    exact h.below w hw v hv
  full w hw := by
    rw [← hitems, ← hbound,
      ← hbytes w ((List.dropLast_sublist cut).subset hw) w (List.Sublist.refl w)]
    exact h.full w hw

end WindowBounds

/-- **What memory holds is cut the same by exact numbers and by words.**  The lengths of byte
strings that are in memory do not add up to more than a word holds. -/
theorem windows_ofNats_eq_ofWords {maxItems maxBytes : Nat} {size : α → Nat} {xs : List α}
    (hbound : maxBytes < UInt64.size)
    (hfits : (WindowBounds.ofNats maxItems maxBytes size).total xs < UInt64.size) :
    windows (.ofNats maxItems maxBytes size) xs
      = windows (.ofWords maxItems (.ofNat maxBytes) fun x => .ofNat (size x)) xs := by
  have hgreedy := isGreedyCut_windows (.ofNats maxItems maxBytes size) xs
  suffices hwords : (WindowBounds.ofWords maxItems (.ofNat maxBytes) fun x =>
      .ofNat (size x)).IsGreedyCut xs (windows (.ofNats maxItems maxBytes size) xs) from
    hwords.unique (isGreedyCut_windows _ xs)
  refine hgreedy.congr rfl (UInt64.toNat_ofNat_of_lt' hbound).symm fun w hw v hv => ?_
  -- A window is a part of the input, so its bytes fit a word as those of the input do.
  have hsub : v.Sublist xs := by
    rw [← hgreedy.flatten_eq]
    exact hv.trans (List.sublist_flatten_of_mem hw)
  have hlt := Nat.lt_of_le_of_lt (WindowBounds.total_le_of_sublist hsub _) hfits
  have htotal : (WindowBounds.ofWords maxItems (.ofNat maxBytes) fun x => .ofNat (size x)).total v
      = (WindowBounds.ofNats maxItems maxBytes size).total v :=
    WindowBounds.total_congr fun x hx => by
      -- One item alone is a part of the window as well, so its size is a word.
      have hle := WindowBounds.total_le_of_sublist (List.singleton_sublist.mpr hx)
        (WindowBounds.ofNats maxItems maxBytes size)
      exact UInt64.toNat_ofNat_of_lt' (Nat.lt_of_le_of_lt hle hlt)
  rw [WindowBounds.bytes_ofWords, htotal, Nat.mod_eq_of_lt hlt]
  exact WindowBounds.bytes_ofNats v

/-! ## An input that is pulled -/

/-- What comes of a sum that no word holds. -/
inductive Overflow where
  /-- Counting goes on with what is left of it in a word. -/
  | wraps
  /-- Sums are checked, and this one is a panic. -/
  | panics
  deriving DecidableEq, Repr

namespace Overflow

/-- Whether counting goes on after a sum. -/
def accepts (o : Overflow) (b : WindowBounds α) (bytes n : Nat) : Bool :=
  o = .wraps || b.add bytes n = bytes + n

/-- Whether it goes on after every item of a window that has some bytes before them. -/
def passes (o : Overflow) (b : WindowBounds α) (bytes : Nat) : List α → Bool
  | [] => true
  | x :: rest => o.accepts b bytes (b.size x) && o.passes b (b.add bytes (b.size x)) rest

/-- The windows of a cut that a consumer gets: where sums are checked, those before the first one
that has more bytes than a word holds. -/
def served (o : Overflow) (b : WindowBounds α) (cut : List (List α)) : List (List α) :=
  match o with
  | .wraps => cut
  | .panics => cut.takeWhile fun w => b.total w < UInt64.size

end Overflow

/-- How a cutter stands to its input. -/
inductive Cutter.Stage where
  /-- It may pull again. -/
  | running
  /-- It saw the end. -/
  | ended
  /-- It panicked. -/
  | panicked
  deriving DecidableEq, Repr

namespace WindowBounds

/-- Takes items into a window that already has some, from an input that answers every pull and was
pulled `pulls` times before: the new items, how the cutter stands then, and the pulls after that. -/
def draw (b : WindowBounds α) (o : Overflow) (input : Nat → Option α) (items bytes pulls : Nat) :
    List α × Cutter.Stage × Nat :=
  if b.wants items bytes then
    match input pulls with
    | none => ([], .ended, pulls + 1)
    | some x =>
      if o.accepts b bytes (b.size x) then
        let (window, stage, pulls) :=
          b.draw o input (items + 1) (b.add bytes (b.size x)) (pulls + 1)
        (x :: window, stage, pulls)
      else ([], .panicked, pulls + 1)
  else ([], .running, pulls)
termination_by max b.maxItems 1 - items
decreasing_by
  have hwants := wants_iff.mp ‹b.wants items bytes = true›
  omega

end WindowBounds

/-- Where a cutter stands. -/
structure Cutter where
  /-- How often it pulled the input. -/
  pulls : Nat
  /-- Whether it goes on. -/
  stage : Cutter.Stage
  deriving DecidableEq, Repr

namespace Cutter

/-- The next window, unless nothing is left or the cutter panics: then what it took is lost. -/
def next? (b : WindowBounds α) (o : Overflow) (input : Nat → Option α) (c : Cutter) :
    Option (List α) × Cutter :=
  match c.stage with
  | .running =>
    match b.draw o input 0 0 c.pulls with
    | (_, .panicked, pulls) => (none, ⟨pulls, .panicked⟩)
    | (window, stage, pulls) => (if window.isEmpty then none else some window, ⟨pulls, stage⟩)
  | _ => (none, c)

/-- The windows that a consumer gets who asks at most `k` times. -/
def take (b : WindowBounds α) (o : Overflow) (input : Nat → Option α) :
    Nat → Cutter → List (List α) × Cutter
  | 0, c => ([], c)
  | k + 1, c =>
    match c.next? b o input with
    | (none, c) => ([], c)
    | (some window, c) =>
      let (windows, c) := take b o input k c
      (window :: windows, c)

/-- An input with some items; what it answers behind its end is left open. -/
def inputOf (xs : List α) (later : Nat → Option α) (i : Nat) : Option α :=
  if i ≤ xs.length then xs[i]? else later i

/-- Where a cutter stands that has a feed before it. -/
def Stands (xs : List α) (c : Cutter) : Feed α → Prop
  | .more left => c.stage = .running ∧ c.pulls + left.length = xs.length ∧ left = xs.drop c.pulls
  | .ended => c = ⟨xs.length + 1, .ended⟩

variable {xs left : List α} {c : Cutter} {feed : Feed α} {o : Overflow}

/-- The end is the last thing that is pulled. -/
theorem Stands.pulls_le (h : c.Stands xs feed) : c.pulls ≤ xs.length + 1 := by
  cases feed with
  | more left =>
    have := h.2.1
    omega
  | ended => exact Nat.le_of_eq (congrArg Cutter.pulls h)

/-- At its end an input answers nothing. -/
theorem inputOf_end (xs : List α) (later : Nat → Option α) :
    inputOf xs later xs.length = none := by
  rw [inputOf, if_pos (Nat.le_refl _), List.getElem?_eq_none (Nat.le_refl _)]

/-- Before its end an input answers the next item that is left. -/
theorem inputOf_drop {x : α} {rest : List α} {pulls : Nat} (hleft : x :: rest = xs.drop pulls)
    (hlt : pulls < xs.length) (later : Nat → Option α) :
    inputOf xs later pulls = some x ∧ rest = xs.drop (pulls + 1) := by
  rw [List.drop_eq_getElem_cons hlt] at hleft
  obtain ⟨rfl, hrest⟩ := List.cons.inj hleft
  exact ⟨by rw [inputOf, if_pos (Nat.le_of_lt hlt), List.getElem?_eq_getElem hlt], hrest⟩

/-- A cutter draws what a list is filled from, if no check stops it. -/
theorem stands_draw (b : WindowBounds α) (later : Nat → Option α) {pulls : Nat}
    (hpulls : pulls + left.length = xs.length) (hleft : left = xs.drop pulls) (items bytes : Nat)
    (hpasses : o.passes b bytes (b.fill items bytes left).1 = true) :
    ∃ stage pulls', b.draw o (inputOf xs later) items bytes pulls
        = ((b.fill items bytes left).1, stage, pulls') ∧
      Stands xs ⟨pulls', stage⟩ (b.fill items bytes left).2 := by
  induction left generalizing pulls items bytes with
  | nil =>
    unfold WindowBounds.draw WindowBounds.fill
    split
    · obtain rfl : pulls = xs.length := hpulls
      rw [inputOf_end]
      exact ⟨_, _, rfl, rfl⟩
    · exact ⟨_, _, rfl, rfl, hpulls, hleft⟩
  | cons x rest ih =>
    rw [List.length_cons] at hpulls
    obtain ⟨hitem, hrest⟩ := inputOf_drop hleft (by omega) later
    rw [WindowBounds.fill] at hpasses ⊢
    unfold WindowBounds.draw
    split
    · rename_i hwants
      rw [if_pos hwants, Overflow.passes, Bool.and_eq_true] at hpasses
      -- The cutter has pulled one item more, and one item less is left of the list.
      obtain ⟨stage, pulls', hdraw, hstands⟩ :=
        ih (by omega) hrest (items + 1) (b.add bytes (b.size x)) hpasses.2
      refine ⟨stage, pulls', ?_, hstands⟩
      rw [hitem]
      simp only [hpasses.1, if_true, hdraw]
    · refine ⟨_, _, rfl, rfl, ?_, hleft⟩
      rw [List.length_cons]
      exact hpulls

/-- The next window of a cutter is that of its feed, if no check stops it. -/
theorem Stands.next? (h : c.Stands xs feed) (later : Nat → Option α)
    (hpasses : ∀ window ∈ (feed.next? b).map (·.1), o.passes b 0 window = true) :
    ∃ c', c.next? b o (inputOf xs later) = ((feed.next? b).map (·.1), c') ∧
      match feed.next? b with
      | some (_, rest) => c'.Stands xs rest
      | none => c' = ⟨xs.length + 1, .ended⟩ := by
  cases feed with
  | ended =>
    obtain rfl := h
    exact ⟨_, rfl, rfl⟩
  | more left =>
    obtain ⟨hrunning, hpulls, hleft⟩ := h
    have hfilled : o.passes b 0 (b.fill 0 0 left).1 = true := by
      rw [Feed.next?] at hpasses
      cases hfill : b.fill 0 0 left with
      | mk window rest =>
        cases window with
        | nil => rfl
        | cons x window => exact hpasses _ (by simp [hfill])
    obtain ⟨stage, pulls', hdraw, hstands⟩ := stands_draw b later hpulls hleft 0 0 hfilled
    refine ⟨⟨pulls', stage⟩, ?_, ?_⟩
    · have hstage : stage ≠ .panicked := by
        rintro rfl
        cases hrest : (b.fill 0 0 left).2 with
        | more ys => rw [hrest] at hstands; cases hstands.1
        | ended => rw [hrest] at hstands; cases hstands
      rw [Cutter.next?, hrunning, hdraw, Feed.next?]
      cases stage with
      | panicked => exact absurd rfl hstage
      | running | ended =>
        cases hfill : b.fill 0 0 left with
        | mk window rest => cases window <;> rfl
    · rw [Feed.next?]
      cases hfill : b.fill 0 0 left with
      | mk window rest =>
        rw [hfill] at hstands
        cases window with
        | cons x window => exact hstands
        | nil =>
          -- An empty window wanted an item, so it saw the end.
          cases rest with
          | ended => exact hstands
          | more ys =>
            have hwants := Feed.not_wants_of_fill_eq hfill
            simp [WindowBounds.wants] at hwants

/-- What a consumer who asked at most `k` times has got of the windows that are served, which are
all windows or those before one that a check stops, and where the cutter stands then. -/
structure Served (xs : List α) (all served : List (List α)) (k : Nat)
    (r : List (List α) × Cutter) : Prop where
  /-- The windows come in their order. -/
  taken_eq : r.1 = served.take k
  /-- The end is the last thing that was pulled. -/
  pulls_le : r.2.pulls ≤ xs.length + 1
  /-- Asked once more, the cutter saw the end. -/
  ended : served.length < k → served = all → r.2 = ⟨xs.length + 1, .ended⟩
  /-- Or a check stopped it. -/
  panicked : served.length < k → served ≠ all → r.2.stage = .panicked

/-- A window that is served comes before the others. -/
theorem Served.cons {all served : List (List α)} {k : Nat} {r : List (List α) × Cutter}
    (h : Served xs all served k r) (window : List α) :
    Served xs (window :: all) (window :: served) (k + 1) (window :: r.1, r.2) where
  taken_eq := by rw [List.take_succ_cons, ← h.taken_eq]
  pulls_le := h.pulls_le
  ended hk heq := h.ended (Nat.lt_of_succ_lt_succ hk) (List.cons.inj heq).2
  panicked hk hne :=
    h.panicked (Nat.lt_of_succ_lt_succ hk) fun heq => hne (congrArg (window :: ·) heq)

end Cutter

/-- An item that is too large has a window for itself, and a window that is full at the end of the
input is the last one. -/
example : windows (.ofNats 2 5 id) [1, 1, 9, 2, 3, 4] = [[1, 1], [9], [2, 3], [4]] := by decide

end SnapshotStore
