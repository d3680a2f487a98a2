import SnapshotStore.Proofs.Pins.Traffic

/-!
# Reads that race with releases

A read at a snapshot looks the snapshot up, may ask the filter, and then reads.  Others can do
anything between these steps, also release the snapshot.  The engine refuses to read a sequence that
is not pinned, but the filter does not know about snapshots: once the snapshot is gone, it may have
forgotten a key that the snapshot has, and the read answers that there is none
(`Traffic.raced_read`).
-/

namespace SnapshotStore

/-! ## Interrupted work -/

/-- A call never has to wait. -/
theorem Backend.answer?_call (b : Backend) (c : EngineCall) :
    b.answer? (.ask c) = some ((b.engine.answer c).1, { b with engine := (b.engine.answer c).2 }) := rfl

/-- One effect of a dictionary's work on the store; nothing happens if it has to wait. -/
def Store.perform? (d : Dictionary) (q : Effect) : StateM Store (Option q.Answer) := fun s =>
  match (s.backend d).answer? q with
  | some (a, b) => (some a, s.absorb d s.database.pool b)
  | none => (none, s)

namespace Traffic

/-- One effect of work on a database, if the database is there and the effect does not have to
wait. -/
def perform? (x : Traffic) (i : Nat) (d : Dictionary) (q : Effect) : Option (q.Answer × Traffic) :=
  match Host.on i (Store.perform? d q) x.host with
  | (some (some a), host) => some (a, { x with host })
  | _ => none

/-- Work on a database that others interrupt, by some commands before each of its effects: how it
ends, unless it has to wait, and the states that its effects met. -/
def interrupted {α : Type} (i : Nat) (d : Dictionary) :
    Work Empty α → List (List Command) → Traffic → Option (Outcome α) × List Traffic
  | .finish r, _, _ => (some r, [])
  | .send _ next, interludes, x => interrupted i d (next false) interludes x
  | .perform q next, interludes, x =>
    let y := x.run (interludes.headD [])
    match y.perform? i d q with
    | some (a, y') =>
      let (r, met) := interrupted i d (next a) interludes.tail y'
      (r, y :: met)
    | none => (none, [y])

variable {x x' : Traffic} {i n q : Nat} {d : Dictionary} {t : Token} {origin : Engine} {α : Type}

/-- An effect that does not wait is performed on the database and its engine. -/
theorem perform?_eq_some {db : Database} {e : FaultyEngine} (effect : Effect)
    (hdb : x.host.databases[i]? = some (n, db)) (he : x.host.engines[n]? = some e)
    {a : effect.Answer} {b : Backend}
    (ha : (Store.backend ⟨e, db⟩ d).answer? effect = some (a, b)) :
    ∃ host, Host.on i (Store.perform? d effect) x.host = (some (some a), host) ∧
      x.perform? i d effect = some (a, { x with host }) := by
  have hon : Host.on i (Store.perform? d effect) x.host
      = (some (some a), ⟨x.host.engines.set n b.engine,
        x.host.databases.set i (n, (Store.absorb ⟨e, db⟩ d db.pool b).database)⟩) := by
    simp only [Host.on, hdb, he, StateT.run, Store.perform?, ha]
    rfl
  exact ⟨_, hon, by rw [perform?, hon]⟩

/-! ## A snapshot among the others -/

/-- A database has taken a snapshot of a sequence that its engine has gone past since. -/
structure Follows (i n : Nat) (t : Token) (q : Nat) (origin : Engine) (x : Traffic) : Prop where
  /-- Every pin is accounted for. -/
  accounts : x.Accounts fun _ => False
  /-- The engine has evolved. -/
  engine : ∃ e : FaultyEngine, x.host.engines[n]? = some e ∧ origin.Evolves e.engine
  /-- The snapshot shows the sequence, or is gone. -/
  database : ∃ db : Database, x.host.databases[i]? = some (n, db) ∧ t < db.snapshots.nextId ∧
    (db.snapshots.sequence? t = some q ∨ db.snapshots.sequence? t = none)

namespace Follows

/-- What others do leaves a snapshot as it is, but for its release. -/
theorem keeps (h : x.Follows i n t q origin) (hkeeps : x.Keeps (fun _ => False) x') :
    x'.Follows i n t q origin := by
  obtain ⟨e, he, hevolves⟩ := h.engine
  obtain ⟨db, hdb, ht, hshows⟩ := h.database
  obtain ⟨e', he', hevolves'⟩ := hkeeps.leads.engines n e he
  obtain ⟨db', hdb', hleads⟩ := hkeeps.leads.databases i n db hdb
  refine ⟨hkeeps.accounts, ⟨e', he', hevolves.trans hevolves'⟩,
    db', hdb', Nat.lt_of_lt_of_le ht hleads.nextId_le, ?_⟩
  rcases hleads.sequence? t ht with heq | hgone
  · rw [heq]
    exact hshows
  · exact .inr hgone

/-- Whatever others do in the meantime. -/
theorem run (h : x.Follows i n t q origin) (commands : List Command) :
    (x.run commands).Follows i n t q origin :=
  h.keeps (h.accounts.run (fun _ => False.elim) fun _ _ _ => id)

/-- An effect of work that starts without pins and leaves none. -/
theorem perform (h : x.Follows i n t q origin) (effect : Effect) (hfits : effect.Fits [] [])
    (hheld : ∀ a, effect.heldAfter a [] = []) (hwaits : ∀ hold j, effect ≠ .enter hold j) :
    ∃ db e a b x', x.host.databases[i]? = some (n, db) ∧ x.host.engines[n]? = some e ∧
      origin.Evolves e.engine ∧
      (db.snapshots.sequence? t = some q ∨ db.snapshots.sequence? t = none) ∧
      (Store.backend ⟨e, db⟩ d).answer? effect = some (a, b) ∧
      x.perform? i d effect = some (a, x') ∧ x'.Follows i n t q origin := by
  obtain ⟨e, he, hevolves⟩ := h.engine
  obtain ⟨db, hdb, -, hshows⟩ := h.database
  -- Only an effect that waits for a stripe has no answer.
  cases ha : (Store.backend ⟨e, db⟩ d).answer? effect with
  | none =>
    obtain ⟨hold, j, heq⟩ := Backend.enter_of_waits ha
    exact absurd heq (hwaits hold j)
  | some answer =>
    obtain ⟨a, b⟩ := answer
    obtain ⟨host, hon, hperform⟩ := perform?_eq_some effect hdb he ha
    refine ⟨db, e, a, b, _, hdb, he, hevolves, hshows, ha, hperform, h.keeps ?_⟩
    refine h.accounts.on (fun e db others hs => ?_) hon
    unfold Store.perform?
    cases ha : (Store.backend ⟨e, db⟩ d).answer? effect with
    | none => exact hs.after
    | some answer =>
      obtain ⟨-, haccounts, hsnapshots, -⟩ := (hs.backend _).answer (fun _ => False.elim)
        (Backend.grants_nil _) hfits ha
      rw [hheld] at haccounts
      exact Store.after_absorb haccounts hsnapshots _

end Follows

/-! ## Reads -/

/-- What a key of a dictionary has in the newest state. -/
def newest (x : Traffic) (i : Nat) (d : Dictionary) (key : Bytes) : Option Bytes :=
  (x.host.engine? i).elim none fun e => e.engine.newest d.column key

/-- A snapshot of a database is gone. -/
def HasNo (x : Traffic) (i : Nat) (t : Token) : Prop :=
  ∃ n db, x.host.databases[i]? = some (n, db) ∧
    db.snapshots.resolve (some t) = .error (.snapshotNotFound t)

/-- How a race may end: with a value, or with a failure, or with nothing because the snapshot was
gone when the filter was asked. -/
def IsFair (i : Nat) (t : Token) (sure : Bool) (value : Option Bytes)
    (r : Option (Outcome (Option Bytes)) × List Traffic) : Prop :=
  r.1 = some (.done value) ∨ (∃ failure, r.1 = some (.failed failure)) ∨
    r.1 = some (.done none) ∧ sure = false ∧ ∃ y ∈ r.2, y.HasNo i t

/-- Others act, then an effect is performed, and so on with the work behind it. -/
theorem interrupted_perform {effect : Effect} {next : effect.Answer → Work Empty α}
    {interludes : List (List Command)} {a : effect.Answer}
    (hperform : (x.run (interludes.headD [])).perform? i d effect = some (a, x')) :
    interrupted i d (.perform effect next) interludes x
      = ((interrupted i d (next a) interludes.tail x').1, x.run (interludes.headD []) ::
        (interrupted i d (next a) interludes.tail x').2) := by
  simp only [interrupted, hperform]

/-- What happens before the rest of the work makes no difference to how that ends. -/
theorem IsFair.cons {sure : Bool} {value : Option Bytes} {y : Traffic}
    {r : Option (Outcome (Option Bytes)) × List Traffic} (h : IsFair i t sure value r) :
    IsFair i t sure value (r.1, y :: r.2) := by
  rcases h with hdone | hfailed | ⟨hnone, hsure, z, hz, hgone⟩
  · exact .inl hdone
  · exact .inr (.inl hfailed)
  · exact .inr (.inr ⟨hnone, hsure, z, List.mem_cons_of_mem _ hz, hgone⟩)

variable {l : Ledger} (hagrees : origin.Agrees l) (hopen : origin.isClosed = false)
include hagrees hopen

/-- The last step asks the engine, which knows what is pinned. -/
theorem Follows.isFair_get (h : x.Follows i n t origin.sequence origin) (key : Bytes) (sure : Bool)
    (interludes : List (List Command)) :
    IsFair i t sure (origin.newest d.column key) (interrupted i d
      (Work.call "read" key.label (.get d.column (.at origin.sequence) key)) interludes x) := by
  obtain ⟨e, he, hevolves⟩ := (h.run (interludes.headD [])).engine
  obtain ⟨db, hdb, -⟩ := (h.run (interludes.headD [])).database
  obtain ⟨host, -, hperform⟩ := perform?_eq_some (d := d)
    (.ask (.get d.column (.at origin.sequence) key)) hdb he (Backend.answer?_call ..)
  have hcall : (Work.call "read" key.label (.get d.column (.at origin.sequence) key) :
      Work Empty (Option Bytes)) = .perform (.ask (.get d.column (.at origin.sequence) key))
        (Work.orFail "read" key.label) := rfl
  rw [hcall, interrupted_perform hperform]
  refine IsFair.cons ?_
  show IsFair i t sure _ (interrupted i d (Work.orFail "read" key.label
    (e.answer (.get d.column (.at origin.sequence) key)).1) _ _)
  -- The read is struck or answered, and an answer is what the engine had at the sequence of the
  -- snapshot.
  cases hr : (e.answer (.get d.column (.at origin.sequence) key)).1 with
  | error failure => exact .inr (.inl ⟨_, rfl⟩)
  | ok value =>
    obtain ⟨faults, -, ⟨failure, -, hanswer⟩ | hanswer⟩ :=
      e.answer_cases (.get d.column (.at origin.sequence) key)
    · rw [hanswer] at hr
      cases hr
    · rw [hanswer] at hr
      rw [← hevolves.get_at hagrees hopen d.column key hr]
      exact .inl rfl

/-- A filter that is asked while the snapshot is there hides nothing that the snapshot has. -/
theorem newest_eq_none {e : Engine} (hcovers : origin.Covers) (hevolves : origin.Evolves e)
    (hpinned : origin.sequence ∈ e.pins) {key : Bytes} (hno : e.mayContain n key = .ok false) :
    origin.newest n key = none := by
  have hread : e.CanRead (.at origin.sequence) := hpinned
  exact (hevolves.get_at hagrees hopen n key ((hevolves.covers hcovers).get_eq_none hno hread)).symm

/-- The filter is asked first, or not. -/
theorem Follows.isFair_read (h : x.Follows i n t origin.sequence origin) (hcovers : origin.Covers)
    (key : Bytes) (sure : Bool) (interludes : List (List Command)) :
    IsFair i t sure (origin.newest d.column key)
      (interrupted i d (d.read (.at origin.sequence) key sure) interludes x) := by
  cases sure with
  | true => exact h.isFair_get hagrees hopen key true interludes
  | false =>
    have hread : (d.read (.at origin.sequence) key false : Work Empty (Option Bytes))
        = .perform (.ask (.mayContain d.column key)) fun r =>
          (Work.orFail "read" key.label r).bind fun possible =>
            if possible then Work.call "read" key.label (.get d.column (.at origin.sequence) key)
            else pure none := rfl
    obtain ⟨db, e, a, b, x', hdb, he, hevolves, hshows, ha, hperform, hx'⟩ :=
      (h.run (interludes.headD [])).perform (d := d) (.ask (.mayContain d.column key)) trivial
        (fun _ => rfl) nofun
    rw [hread, interrupted_perform hperform]
    have hr : (e.answer (.mayContain d.column key)).1 = a := (Prod.mk.inj (Option.some.inj ha)).1
    cases a with
    | error failure => exact .inr (.inl ⟨_, rfl⟩)
    | ok possible =>
      cases possible with
      | true => exact (hx'.isFair_get hagrees hopen key false interludes.tail).cons
      | false =>
        rcases hshows with hshows | hgone
        · -- The snapshot is there, so what it shows is pinned, and the filter is right.
          have hresolve : db.snapshots.resolve (some t) = .ok (.at origin.sequence) := by
            simp [Snapshots.resolve, hshows]
          have hpinned := (h.run (interludes.headD [])).accounts.isAccounted.isPinned i n db e t
            origin.sequence hdb he hresolve
          have hno : e.engine.mayContain d.column key = .ok false := by
            obtain ⟨_, -, ⟨_, -, hanswer⟩ | hanswer⟩ := e.answer_cases (.mayContain d.column key)
            · rw [hanswer] at hr
              cases hr
            · rw [hanswer] at hr
              exact hr
          rw [newest_eq_none hagrees hopen hcovers hevolves (List.count_pos_iff.mp hpinned) hno]
          exact .inl rfl
        · -- The snapshot was released in the meantime, so the no of the filter may be about a later
          -- state.
          refine .inr (.inr ⟨rfl, rfl, _, List.mem_cons_self, n, db, hdb, ?_⟩)
          simp [Snapshots.resolve, hgone]

/-- The read as a whole. -/
theorem Follows.isFair_get_snapshot (h : x.Follows i n t origin.sequence origin)
    (hcovers : origin.Covers)
    (key : Bytes) (sure : Bool) (interludes : List (List Command)) :
    IsFair i t sure (origin.newest d.column key)
      (interrupted i d (d.get (some t) key sure) interludes x) := by
  have hget : (d.get (some t) key sure : Work Empty (Option Bytes)) = .perform (.resolve (some t))
      fun r => (Work.ofExcept r).bind fun view =>
        Work.holding .shared (d.readStripes view [key]) (d.read view key sure) := rfl
  obtain ⟨db, e, a, b, x', hdb, he, hevolves, hshows, ha, hperform, hx'⟩ :=
    (h.run (interludes.headD [])).perform (d := d) (.resolve (some t)) trivial (fun _ => rfl)
      nofun
  rw [hget, interrupted_perform hperform]
  have hr : db.snapshots.resolve (some t) = a := (Prod.mk.inj (Option.some.inj ha)).1
  -- The token is resolved first: live, it shows its sequence; released, the read fails with it.
  rcases hshows with hshows | hgone
  · obtain rfl : .ok (.at origin.sequence) = a := by simpa [Snapshots.resolve, hshows] using hr
    exact (hx'.isFair_read hagrees hopen hcovers key sure interludes.tail).cons
  · obtain rfl : .error (.snapshotNotFound t) = a := by simpa [Snapshots.resolve, hgone] using hr
    exact .inr (.inl ⟨_, rfl⟩)

end Traffic

/-! ## Snapshots that are taken -/

/-- An engine that pins its newest state is open, and it is its sequence that it pins. -/
theorem FaultyEngine.sequence_of_snapshot {f : FaultyEngine} {q : Nat}
    (h : (f.answer .snapshot).1 = .ok q) : f.engine.isClosed = false ∧ q = f.engine.sequence := by
  obtain ⟨_, -, ⟨_, -, hanswer⟩ | hanswer⟩ := f.answer_cases .snapshot
  · rw [hanswer] at h
    cases h
  · rw [hanswer] at h
    have hsnapshot : (f.engine.both f.engine.snapshot).1 = .ok q := h
    cases hclosed : f.engine.isClosed with
    | true =>
      rw [Engine.snapshot_of_closed hclosed] at hsnapshot
      cases hsnapshot
    | false =>
      rw [Engine.snapshot_of_open hclosed] at hsnapshot
      exact ⟨rfl, (Except.ok.inj hsnapshot).symm⟩

namespace Traffic

variable {x : Traffic} {i n : Nat} {t : Token} {e : FaultyEngine}

/-- A snapshot that was just taken is of the newest state. -/
theorem Accounts.follows (h : x.Accounts fun _ => False)
    (htaken : (Host.on i (Request.act .takeSnapshot).run x.host).1 = some (.token t)) :
    ∃ n e, x.host.engines[n]? = some e ∧ x.host.engine? i = some e ∧ e.engine.isClosed = false ∧
      (x.step (.ask i (.act .takeSnapshot))).Follows i n t e.engine.sequence e.engine := by
  have hkeeps : x.Keeps (fun _ => False) (x.step (.ask i (.act .takeSnapshot))) :=
    h.ask (fun _ => False.elim) i _
  obtain ⟨flights, -, -, hhost⟩ := h.flights
  rcases hon : Host.on i (Request.act .takeSnapshot).run x.host with ⟨reply, host⟩
  obtain rfl : reply = some (.token t) := by
    rw [hon] at htaken
    exact htaken
  obtain ⟨n, db, e, hdb, he, htoken, rfl⟩ := Host.on_eq_some hon
  have hnumbers := h.sound.numbers i n db hdb
  simp only [Traffic.step, hon] at hkeeps ⊢
  have hrun : (Request.act .takeSnapshot).run ⟨e, db⟩ = (.of .token (Store.takeSnapshot.run ⟨e, db⟩).1,
    (Store.takeSnapshot.run ⟨e, db⟩).2) := rfl
  rcases Store.takeSnapshot_cases (fun _ => False.elim) (hhost.store hdb he) with
    ⟨failure, s', heq, -, -⟩ | ⟨q, s', heq, hanswer, -, hlive, hevolves⟩
  · rw [hrun, heq] at htoken
    cases htoken
  · rw [hrun, heq] at htoken hkeeps ⊢
    -- The snapshot that was taken got the next token, and shows the sequence of the engine then.
    obtain rfl : t = db.snapshots.nextId := Reply.token.inj htoken
    obtain ⟨hopen, rfl⟩ := FaultyEngine.sequence_of_snapshot hanswer
    refine ⟨n, e, he, by simp [Host.engine?, hdb, he], hopen, hkeeps.accounts,
      ⟨s'.engine, List.getElem?_set_self (List.getElem?_eq_some_iff.mp he).1, hevolves⟩,
      s'.database, List.getElem?_set_self (List.getElem?_eq_some_iff.mp hdb).1, ?_, .inl ?_⟩
    · rw [hlive]
      exact Nat.lt_succ_self _
    · rw [hlive]
      exact hnumbers.sequence?_register e.engine.sequence

/-- Every engine has evolved from a new one. -/
theorem exists_evolves (options : List Engine.Options) (commands : List Command)
    (he : ((start options).run commands).host.engines[n]? = some e) :
    ∃ o, (Engine.new o).Evolves e.engine := by
  have hkeeps : (start options).Keeps (fun _ => False) ((start options).run commands) :=
    (accounts_start options).run (fun _ => False.elim) fun _ _ _ => id
  have hn := (List.getElem?_eq_some_iff.mp he).1
  rw [hkeeps.leads.length_eq] at hn
  obtain ⟨e', he', hevolves⟩ := hkeeps.leads.engines n _ (List.getElem?_eq_getElem hn)
  obtain rfl := Option.some.inj (he.symm.trans he')
  obtain ⟨o, -, ho⟩ := List.mem_map.mp (List.getElem_mem hn)
  rw [← ho] at hevolves
  exact ⟨o, hevolves⟩

/-- **A read that races with others answers what its snapshot shows, or fails** — or, if the filter
is asked, it may answer that there is nothing, once the snapshot was released. -/
theorem raced_read (options : List Engine.Options) (before later : List Command)
    (interludes : List (List Command)) (d : Dictionary) (key : Bytes) (sure : Bool)
    (htaken : (Host.on i (Request.act .takeSnapshot).run ((start options).run before).host).1
      = some (.token t)) :
    IsFair i t sure (((start options).run before).newest i d key)
      (interrupted i d (d.get (some t) key sure) interludes
        ((((start options).run before).step (.ask i (.act .takeSnapshot))).run later)) := by
  have hkeeps : (start options).Keeps (fun _ => False) ((start options).run before) :=
    (accounts_start options).run (fun _ => False.elim) fun _ _ _ => id
  obtain ⟨n, e, he, hengine, hopen, hfollows⟩ := hkeeps.accounts.follows htaken
  -- The engine has come from a new one, so its filters cover what it stores.
  obtain ⟨o, hevolves⟩ := exists_evolves options before he
  obtain ⟨l, -, hagrees⟩ := hevolves.agrees (Engine.agrees_new o)
  have hcovers := hevolves.covers (Engine.covers_new o)
  rw [newest, hengine]
  exact (hfollows.run later).isFair_get_snapshot hagrees hopen hcovers key sure interludes

end Traffic

set_option maxRecDepth 4000 in
/-- A snapshot that has a value for the key 1 is released, and the dictionary is cleared, after a
read has looked the snapshot up.  The read that does not ask the filter fails. -/
theorem Traffic.raced_read_of_release :
    let before : List Command := [.create 0 "a" "memory" .testing none,
      .ask 0 (.act (.opening "d" .allow)), .ask 0 (.act (.on "d" (.put [1] [10] .void)))]
    let x := (start [Database.engineOptions .testing]).run before
    let y := x.step (.ask 0 (.act .takeSnapshot))
    let d := ((x.host.databases.head?).bind fun db => db.2.find? "d").get (by decide +kernel)
    let r := (y.run []).interrupted 0 d (d.get (some 1) [1] true)
      [[], [.ask 0 (.act (.releaseSnapshot 1)), .ask 0 (.act (.on "d" .clear))]]
    IsFair 0 1 true (x.newest 0 d [1]) r ∧ x.newest 0 d [1] = some [10] ∧
      r.1.map Outcome.toExcept = some (.error (.io "read" "01" (.snapshotReleased 1))) := by
  intro before x y d r
  have htaken : (Host.on 0 (Request.act .takeSnapshot).run x.host).1 = some (.token 1) := by
    rfl
  exact ⟨raced_read _ before [] _ d [1] true htaken, by decide +kernel, by decide +kernel⟩

/-- With the filter asked first, the same race ends with nothing: it has forgotten the key that the
released snapshot has.  The filters here have 64 bits. -/
theorem Traffic.raced_read_forgets :
    let scheme : Filter.Scheme :=
      ⟨fun key => (key.length.toUInt64, 0), fun _ => ⟨64, 1, by decide, by decide⟩⟩
    let before : List Command := [.create 0 "a" "memory" .testing none,
      .ask 0 (.act (.opening "d" .allow)), .ask 0 (.act (.on "d" (.put [1] [10] .void)))]
    let x := (start [{ scheme }]).run before
    let y := x.step (.ask 0 (.act .takeSnapshot))
    let answer := (x.host.databases.head?.bind fun db => db.2.find? "d").bind fun d =>
      (y.interrupted 0 d (d.get (some 1) [1] false)
        [[], [.ask 0 (.act (.releaseSnapshot 1)), .ask 0 (.act (.on "d" .clear))]]).1
    x.host.engines.map (fun e => e.engine.newest 0 [1]) = [some [10]] ∧
      answer.map Outcome.toExcept = some (.ok none) := by
  decide +kernel

end SnapshotStore
