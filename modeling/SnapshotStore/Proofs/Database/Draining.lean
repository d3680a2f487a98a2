import SnapshotStore.Proofs.Database.Handover
import SnapshotStore.Proofs.Database.Recovery
import SnapshotStore.Proofs.Dictionary.Draining

/-!
# Draining loses nothing

A stream that removes the entries of a range hands them out as it goes, and a consumer may leave it
at any item, as the engine may fail at any call.  What is removed are then the first of the entries
that were accepted, in the order of their keys, and nothing else (`Drained`); without a failure it
is every accepted one.  The new entries of a replacement are put only for a consumer that sees the
end of the old ones, and not behind a failure: otherwise the replacement is no more than the
removal.
-/

namespace SnapshotStore

namespace Store

/-- The store with another schedule of failures. -/
def facing (s : Store) (faults : List Fault) : Store := ⟨⟨s.engine.engine, faults⟩, s.database⟩

/-- A store recovers from any failures that are scheduled. -/
theorem Recovers.facing {s : Store} {w : World} (h : s.Recovers w) (faults : List Fault) :
    (s.facing faults).Recovers w := ⟨h.isIn, ⟨h.accounts.pins, fun _ _ => id⟩, h.numbers⟩

namespace Refines

variable {s : Store} {p : PlainStore} {w : World} {d : Dictionary} {name : String}

section

variable (h : s.mend.Refines p w) (hd : s.database.find? name = some d)

include h hd

/-- Wherever failures strike, a range is drained, and the plain map of the name loses what was
deleted. -/
theorem exists_drained (range : KeyRange) (k : Nat) :
    ∃ accepted deleted r b,
      (d.drain range).Runs k (s.backend d) (accepted.map .ok) r b ∧
      Drained ((p.now name).within range) k accepted deleted r ∧
      b.stripes = (d.striping.map Stripes.idle).getD [] ∧
      (∃ w', (Store.mend ⟨b.engine, { s.database with snapshots := b.snapshots }⟩).Refines
        (p.set name ((p.now name).without deleted)) w') ∧
      (b.engine.faults.length = s.engine.faults.length → r = .done ()) := by
  have hlists := (p.now name).lists_within range
  rw [h.get_now hd] at hlists
  have hin : (s.backend d).mend.IsIn (w.seenBy d) := h.isIn.backend_isIn hd
  obtain ⟨items, r, b, w', struck, hruns, hfaults, hb, ⟨accepted, deleted, hdrained, rfl, hw⟩,
    hdone⟩ := Dictionary.endures_drain (h.atRest hd) hlists k _ hin
  refine ⟨accepted, deleted, r, b, hruns, hdrained, hb.stripes_eq.trans hw.stripes, ⟨w', ?_⟩,
    fun hlength => ?_⟩
  · rw [← h.get_now hd, ← PlainMap.get_without] at hw
    exact h.of_writes hd (h.isIn.moved hb hw.names_eq) rfl hw
  · -- A failure that struck would have cost a fault.
    rw [hlength] at hfaults
    exact hdone (Bool.toNat_eq_zero.mp (Nat.le_zero.mp (Nat.le_of_add_le_add_left hfaults)))

/-- What a consumer gets that asks for some items, and what it leaves.  One that does not see the
end of the old entries, and any behind a failure, cannot tell a replacement from a removal. -/
theorem exists_served (range : KeyRange) (limit : Nat) :
    ∃ k accepted deleted r s', limit ≤ k ∧
      Drained ((p.now name).within range) k accepted deleted r ∧
      (∃ w', s'.mend.Refines (p.set name ((p.now name).without deleted)) w') ∧
      Store.collect d .entries limit (d.producing (d.drain range)) s
        = (.cut .entries limit (accepted.map .ok ++ r.report), s') ∧
      (limit ≤ accepted.length ∨ r ≠ .done () → ∀ entries,
        Store.collect d .entries limit (d.replaced range entries) s
          = (.cut .entries limit (accepted.map .ok ++ r.report), s')) := by
  have hidle : s.IsIdle := ⟨h.isIn.nodup, h.isIn.stripes_eq⟩
  cases limit with
  | zero =>
    -- Nobody asks for anything, so nothing is started.
    have hw : (w.seenBy d).Writes d.column ((p.now name).without []).get (w.seenBy d) := by
      rw [PlainMap.get_without, h.get_now hd]
      exact .refl _ _
    have hserved := fun (x : Stream Entry) (hx : x.Serves 0 s.database.pool (s.backend d) []
        (s.backend d)) => hidle.collect_eq hd hx (hidle.stripes_find? hd) Reply.entries
    refine ⟨0, [], [], .done (), s, Nat.le_refl 0, ⟨List.prefix_rfl, List.prefix_rfl, fun _ => rfl⟩,
      ⟨_, h.of_writes hd (h.isIn.moved (h.isIn.backend_isIn hd) rfl) rfl hw⟩,
      hserved _ ⟨_, _, _, rfl, rfl⟩, fun _ entries => hserved _ ⟨_, _, _, rfl, rfl⟩⟩
  | succ limit =>
    obtain ⟨accepted, deleted, r, b, hruns, hdrained, hstripes, hrefines, -⟩ :=
      h.exists_drained hd range (max d.config.streamBuffer 1 + (limit + 1))
    have hpool : s.database.pool.IsReady := h.isIn.pool
    refine ⟨_, accepted, deleted, r, _, Nat.le_add_left _ _, hdrained, hrefines,
      hidle.collect_eq hd (Stream.serves_produced_of_runs hruns hpool.isClosed_eq hpool.scans)
        hstripes _,
      fun hskipped entries => hidle.collect_eq hd (Stream.serves_followed_of_runs hruns
        hpool.isClosed_eq hpool.scans ?_ (d.writeSteps range entries)) hstripes _⟩
    rwa [List.length_map]

end

/-- A store that plain maps mirror holds their contents. -/
theorem holds_without {s' : Store} {w' : World} {mode : UpdateMode} (hnumbered : p.Numbered)
    (hmode : p.mode? name = some mode) {deleted : List Entry}
    (h : s'.Refines (p.set name ((p.now name).without deleted)) w') :
    s'.Holds name none ((p.now name).get.without deleted) := by
  have hmatches : s'.Matches (p.set name ((p.now name).without deleted)) := ⟨hnumbered, w', h⟩
  rw [← Contents.applyAll_deletions_eq, ← PlainMap.get_without]
  exact hmatches.holds hmode (PlainStore.shownAt_set_self ..)

end Refines

end Store

/-- **Draining a range never loses an entry silently.**  Whatever calls of the engine fail and
however many sends the consumer accepts, the entries that are deleted are the first of the accepted
ones, which are the first of the range with the values that they held; if nothing failed, exactly as
many are deleted as the consumer accepts.  A replacement whose consumer leaves while the old entries
are handed out, or whose removal fails, is that removal: it answers the same and leaves the same, so
it puts no new entry. -/
theorem Database.drain_loses_nothing {name engineName : String} {config : Config}
    {pool : Option Pool} {db : Database} (hcreate : create name engineName config pool = .ok db)
    (hpool : ∀ p ∈ pool, p.IsReady) (options : Engine.Options) (before faults : List Fault)
    {script : List Request} (hscript : .close ∉ script) {dictionary : String} {d : Dictionary}
    (hopen : (Store.after ⟨⟨.new options, before⟩, db⟩ script).database.find? dictionary = some d)
    (range : KeyRange) :
    let s := (Store.after ⟨⟨.new options, before⟩, db⟩ script).facing faults
    ∃ (c : Contents) (previous : List Entry),
      s.mend.Holds dictionary none c ∧ c.Lists range previous ∧
      (∀ m, (∃ items r b, (d.drain range).Runs m (s.backend d) items r b) ∧
        ∀ {items r b}, (d.drain range).Runs m (s.backend d) items r b →
          ∃ accepted deleted, items = accepted.map .ok ∧ Drained previous m accepted deleted r ∧
            (s.absorb d s.database.pool b).mend.Holds dictionary none (c.without deleted) ∧
            (b.engine.faults.length = faults.length → r = .done ())) ∧
      ∀ limit, let removal := Store.collect d .entries limit (d.producing (d.drain range)) s
        ∃ m accepted deleted r, limit ≤ m ∧ Drained previous m accepted deleted r ∧
          removal.1 = .cut .entries limit (accepted.map .ok ++ r.report) ∧
          removal.2.mend.Holds dictionary none (c.without deleted) ∧
          (limit ≤ accepted.length ∨ r ≠ .done () → ∀ entries,
            (Act.on dictionary (.replaceRange range entries limit)).run s = removal) := by
  intro s
  obtain ⟨⟨w, hrecovers⟩, -⟩ := (recovers_create hcreate hpool options before).after hscript
  obtain ⟨p, hnumbered, hrefines⟩ : ∃ p, p.Numbered ∧ s.mend.Refines p w := hrecovers.exists_refines
  have hmatches : s.mend.Matches p := ⟨hnumbered, w, hrefines⟩
  have hd : s.database.find? dictionary = some d := hopen
  obtain ⟨mode, hmode⟩ := hmatches.exists_mode (Option.isSome_of_eq_some hd)
  have hidle : s.IsIdle := ⟨hrefines.isIn.nodup, hrefines.isIn.stripes_eq⟩
  refine ⟨(p.now dictionary).get, (p.now dictionary).within range, hmatches.holds hmode rfl,
    PlainMap.lists_within _ range, fun m => ?_, fun limit => ?_⟩
  · obtain ⟨accepted, deleted, r, b, hruns, hdrained, hstripes, ⟨w', hw'⟩, hfaults⟩ :=
      hrefines.exists_drained hd range m
    refine ⟨⟨_, r, b, hruns⟩, fun {items r' b'} hruns' => ?_⟩
    obtain ⟨rfl, rfl, rfl⟩ := hruns.unique hruns'
    refine ⟨accepted, deleted, rfl, hdrained, ?_, hfaults⟩
    rw [hidle.absorb_eq hd hstripes]
    exact hw'.holds_without hnumbered hmode
  · obtain ⟨m, accepted, deleted, r, s', hm, hdrained, ⟨w', hw'⟩, hremoval, hreplace⟩ :=
      hrefines.exists_served hd range limit
    intro removal
    have heq : removal = (.cut .entries limit (accepted.map .ok ++ r.report), s') := hremoval
    rw [heq]
    refine ⟨m, accepted, deleted, r, hm, hdrained, rfl, hw'.holds_without hnumbered hmode,
      fun hskipped entries => ?_⟩
    rw [← hreplace hskipped entries, Act.run]
    simp only [hd]
    rfl

/-- A store with one entry, and with filters of 64 bits. -/
def Database.shelf : Store :=
  Store.after ⟨⟨.new { scheme :=
      ⟨fun key => (key.length.toUInt64, 0), fun _ => ⟨64, 1, by decide, by decide⟩⟩ }, []⟩, eager⟩
    [.act (.opening "a" .allow), .act (.on "a" (.put [1] [10] .previousValue))]

/-- The entry is handed out, but its deletion cannot be written, and the new entry is not put. -/
theorem Database.drain_loses_nothing_of_struck :
    let s := shelf.facing [⟨.write, 0, .io "no space"⟩]
    let replace := (Act.on "a" (.replaceRange (.single [1]) [([1], [40])] 9)).run s
    ∃ (c : Contents) (d : Dictionary) (accepted deleted : List Entry),
      s.mend.Holds "a" none c ∧ deleted <+: accepted ∧
      replace = Store.collect d .entries 9 (d.producing (d.drain (.single [1]))) s ∧
      replace.2.mend.Holds "a" none (c.without deleted) := by
  have hfind : (shelf.database.find? "a").any (fun d => !(Store.collect d .entries 9
      (d.producing (d.drain (.single [1])))
        (shelf.facing [⟨.write, 0, .io "no space"⟩])).1.failures.isEmpty) = true := by
    decide +kernel
  obtain ⟨d, hd, hfailures⟩ := (Option.any_eq_true _ _).mp hfind
  rw [Bool.not_eq_true', List.isEmpty_eq_false_iff] at hfailures
  have hcreate : create "db" "memory" eager.config none = .ok eager := rfl
  obtain ⟨c, previous, hholds, -, -, hserved⟩ :=
    drain_loses_nothing hcreate (by simp) _ [] [⟨.write, 0, .io "no space"⟩] (by simp) hd
      (.single [1])
  obtain ⟨m, accepted, deleted, r, -, hdrained, hremoval, hremoved, hreplace⟩ := hserved 9
  have hfailed : r ≠ .done () := by
    -- All items of a removal that succeeds are entries.
    rintro rfl
    rw [Outcome.report, List.append_nil] at hremoval
    have hnone : (Reply.cut .entries 9 (accepted.map Except.ok)).failures = [] := by
      simp [Reply.cut, Reply.failures, failure?, ← List.map_take, List.filterMap_map]
    rw [← hremoval] at hnone
    exact hfailures hnone
  have heq := hreplace (.inr hfailed) [([1], [40])]
  exact ⟨c, d, accepted, deleted, hholds, hdrained.deleted_prefix, heq, heq.symm ▸ hremoved⟩

end SnapshotStore
