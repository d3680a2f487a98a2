import SnapshotStore.Dictionary.Updaters
import SnapshotStore.Proofs.Concurrency.Progress

/-!
# No update is lost

Calls that run at the same time on a dictionary that admits updates end as if they had run one after
the other (`Workshop.no_lost_updates`): a get, a put and a removal have their effect while they hold
the stripe of their key, and an update has it when it writes, or gives the stripe back because there
is nothing to write.  An update that could not write because others read the same stripe starts
over, so what it writes never stems from a value that was overwritten meanwhile.
-/

namespace SnapshotStore

namespace Workshop

/-- The calls of a workshop come to an end. -/
theorem Follows.exists_run_endsWith {d : Dictionary} {s : Striping} {b : Backend}
    {x : Workshop Call.Answer} {callers : List Caller} {m : Contents}
    {order : List (Call × Outcome Call.Answer)} (hmode : d.mode = .allow)
    (hstriping : d.striping = some s) (h : Follows d s b x callers m order) :
    ∃ schedule outcomes, (x.run schedule).EndsWith outcomes := by
  refine Workshop.exists_run_endsWith (P := fun y => ∃ callers m order, Follows d s b y callers m order)
    ?_ ?_ ⟨callers, m, order, h⟩
  · rintro y i ⟨callers₁, m₁, order₁, h₁⟩
    obtain ⟨callers₂, m₂, order₂, -, h₂⟩ := h₁.turn hmode hstriping i
    exact ⟨callers₂, m₂, order₂, h₂⟩
  · rintro y ⟨callers₁, m₁, order₁, h₁⟩
    exact h₁.canTurn

/-- A dictionary of an engine that works, with idle stripes, is at rest. -/
theorem exists_isIn {d : Dictionary} {s : Striping} (hstriping : d.striping = some s)
    {options : Engine.Options} {e : Engine} (hreached : (Engine.new options).Evolves e)
    (hopen : e.isClosed = false) (hcolumn : d.column < e.columns.length) (snapshots : Snapshots) :
    ∃ w, Backend.IsIn ⟨.reliable e, snapshots, .idle s⟩ w ∧ d.AtRest w := by
  obtain ⟨l, -, hagrees⟩ := hreached.agrees (Engine.agrees_new options)
  refine ⟨⟨l, e.pins, snapshots, .idle s⟩, ?_, ?_, ?_⟩
  · exact
      { reliable := rfl
        agrees := hagrees
        covers := hreached.covers (Engine.covers_new options)
        counts := hreached.counts (Engine.counts_new options)
        isOpen := by simpa [hopen] using hagrees.isClosed_eq
        pins_eq := rfl
        snapshots_eq := rfl
        stripes_eq := rfl }
  · show d.column < l.names.length
    rwa [hagrees.length_names]
  · rw [hstriping]
    rfl

/-- **No update is lost.**  Calls run at the same time on a dictionary that admits updates, with any
stripes, under any schedule, on an engine that works.

* Once all of them have ended, they ended as they do if they run one after the other in some order,
  and the dictionary holds what it holds then.
* An update that writes gives its key what its updater makes of the value that is stored just then,
  and that value was the last to be shown to its updater.
* No updater runs more than twice.
* Whatever happened so far, there is a schedule under which all of them end. -/
theorem no_lost_updates {d : Dictionary} {s : Striping} (hmode : d.mode = .allow)
    (hstriping : d.striping = some s) {options : Engine.Options} {e : Engine}
    (hreached : (Engine.new options).Evolves e) (hopen : e.isClosed = false)
    (hcolumn : d.column < e.columns.length) (snapshots : Snapshots) (calls : List Call)
    (schedule : List Nat) :
    let b : Backend := ⟨.reliable e, snapshots, .idle s⟩
    let x := (Workshop.start b (calls.map (·.work d))).run schedule
    let stored := x.backend.engine.engine.newest d.column
    (∀ outcomes, x.EndsWith outcomes →
      ∃ order : List (Call × Outcome Call.Answer), order.Perm (calls.zip outcomes) ∧
        let serial := Work.inTurn (order.map (·.1.work d)) b
        serial.1 = order.map (·.2.toExcept) ∧ serial.2.engine.engine.newest d.column = stored) ∧
    (∀ (i : Nat) (key : Bytes) (f : Updater) (sure : Bool), calls[i]? = some (.update key f sure) →
      ∀ (c : EngineCall) (next : Except EngineError c.Answer → Work Empty Call.Answer),
        x.works[i]? = some (.perform (.ask c) next) →
        c = .mayContain d.column key ∨ c = .get d.column .latest key ∨
          ∃ current, c = .assign d.column key current ∧ f (stored key) = some current ∧
            (x.shownBy i).head? = some (stored key)) ∧
    (∀ i < calls.length, (x.shownBy i).length ≤ 2) ∧
    ∃ more outcomes, (x.run more).EndsWith outcomes := by
  intro b x stored
  obtain ⟨w, hb, hrest⟩ := exists_isIn hstriping hreached hopen hcolumn snapshots
  obtain ⟨callers, m, order, hcalls, h⟩ :=
    (Follows.start hmode hstriping hb hrest calls).run hmode hstriping schedule
  replace hcalls : callers.map (·.call) = calls := by
    rw [hcalls, List.map_map]
    exact List.map_id _
  have hstored : stored = m := funext h.shows.newest_eq
  refine ⟨fun outcomes hdone => ?_, fun i key f sure hcall c next hwork => ?_, fun i hi => ?_, ?_⟩
  · -- Run one by one in the order in which they settled, the calls answer the same and leave the
    -- same contents.
    obtain ⟨b', w', hturn, hb', hrest', rfl⟩ := h.serial
    refine ⟨order, hcalls ▸ h.perm_zip hdone, congrArg Prod.fst hturn, ?_⟩
    rw [hturn, hstored]
    have hshows : b'.Shows d.column (w'.now d.column) := ⟨w', hb', hrest'.column, rfl⟩
    exact funext hshows.newest_eq
  · rw [hstored]
    exact h.consulted (hcalls.symm ▸ hcall) hwork
  · rw [← hcalls, List.length_map] at hi
    rw [← h.shown_eq i _ (List.getElem?_eq_getElem hi)]
    exact h.twice _ (List.getElem_mem hi)
  · exact h.exists_run_endsWith hmode hstriping

/-- Two updates increment the value of one key.  Both read it, so the first cannot write what it
made of it and waits to write; the second, then the only reader, writes nevertheless.  The first
comes back, is shown the new value, and increments that. -/
theorem no_lost_updates_contended :
    let scheme : Filter.Scheme :=
      ⟨fun key => (key.length.toUInt64, 0), fun _ => ⟨64, 1, by decide, by decide⟩⟩
    let e := ((Engine.new { scheme }).answer (.createColumn "counters")).2
    let d : Dictionary := ⟨"counters", "db", "memory", 0, .allow, some ⟨4, fun _ => 6, by decide⟩, false,
      .testing⟩
    let calls : List Call := [.update [1] .increment true, .update [1] .increment false]
    let outcomes := [.done (.delta ⟨some [1], some [2]⟩), .done (.delta ⟨none, some [1]⟩)]
    let b : Backend := ⟨.reliable e, .empty, .idle ⟨4, fun _ => 6, by decide⟩⟩
    let x := (start b (calls.map (·.work d))).run [0, 1, 0, 0, 0, 0, 0, 1, 1, 1, 1, 1, 0, 0, 0, 0, 0]
    x.shownBy 0 = [some [1], none] ∧ x.backend.engine.engine.newest 0 [1] = some [2] ∧
      ∃ order : List (Call × Outcome Call.Answer), order.Perm (calls.zip outcomes) ∧
        (Work.inTurn (order.map (·.1.work d)) b).1 = order.map (·.2.toExcept) := by
  intro scheme e d calls outcomes b x
  have hreached : (Engine.new { scheme }).Evolves e := .answer .refl _
  have h := no_lost_updates (d := d) rfl rfl hreached (by rfl) (by decide) .empty calls
    [0, 1, 0, 0, 0, 0, 0, 1, 1, 1, 1, 1, 0, 0, 0, 0, 0]
  have hdone : x.EndsWith outcomes := by decide +kernel
  obtain ⟨order, hperm, hserial, -⟩ := h.1 outcomes hdone
  exact ⟨by decide +kernel, by decide +kernel, order, hperm, hserial⟩

end Workshop

end SnapshotStore
