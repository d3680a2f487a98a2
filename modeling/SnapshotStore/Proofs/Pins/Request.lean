import SnapshotStore.Proofs.Database.Request
import SnapshotStore.Proofs.Pins.Store

/-!
# Requests account for their pins

Every request keeps the accounts of its database.  All but three leave its live snapshots as they
are; a snapshot that is taken gets the next number, one that is released was live, and closing
releases all (`Snapshots.Moves`).
-/

namespace SnapshotStore

variable {bad : EngineError → Prop} {others : Nat → Nat} {α ε : Type}

namespace Store

/-- The operation keeps the accounts and the live snapshots, and shows no bad failure. -/
def Answers (bad : EngineError → Prop) (others : Nat → Nat) (op : StateM Store Reply) (s : Store) :
    Prop := s.After bad others (op s).2 ∧ ∀ e ∈ (op s).1.failures, e.Spares bad

variable {s : Store} {d : Dictionary}

/-- The failures among items are failures of items. -/
theorem spares_of_items {items : List (Except StoreError ε)}
    (h : ∀ item ∈ items, Except.Spares bad item) : ∀ e ∈ items.filterMap failure?, e.Spares bad := by
  intro e he
  obtain ⟨item, hitem, hfailure⟩ := List.mem_filterMap.mp he
  cases item with
  | ok a => cases hfailure
  | error e' =>
    obtain rfl := Option.some.inj hfailure
    exact h _ hitem _ rfl

/-- An operation of which the failure is told keeps the accounts and tells a failure that may be
told. -/
theorem answers_answer {op : Op α} {f : α → Reply} (hf : ∀ a, (f a).failures = [])
    (h : op.Keeps bad others s) : Answers bad others (answer f op) s := by
  have hreply : (answer f op s).1.failures = (failure? (op.run s).1).toList := by
    show (Reply.of f (op.run s).1).failures = _
    cases (op.run s).1 with
    | ok a => exact hf a
    | error e => rfl
  refine ⟨h.1, fun e he => ?_⟩
  rw [hreply] at he
  exact spares_of_items (List.forall_mem_singleton.mpr h.2) e (by simpa using he)

/-- Both sides of an update, or its refusal. -/
theorem answers_updated {op : Op (Delta Bytes)} (h : op.Keeps bad others s) :
    Answers bad others (fun s =>
      let (r, s') := op.run s
      (.updated r (s'.engine.engine.sequence - s.engine.engine.sequence), s')) s := by
  refine ⟨h.1, fun e he => ?_⟩
  have hfailures : e ∈ (failure? (op.run s).1).toList := he
  exact spares_of_items (List.forall_mem_singleton.mpr h.2) e (by simpa using hfailures)

variable (hbad : ∀ failure, bad failure → failure.IsReleased)
include hbad

/-- So does a stream of which some items are taken, and which is dropped then. -/
theorem answers_collect (h : s.Accounts bad others) {x : Stream ε} (hx : x.Holds bad [])
    {f : List (Except StoreError ε) → Bool → Reply}
    (hf : ∀ items isEnd, (f items isEnd).failures = items.filterMap failure?) (limit : Nat) :
    Answers bad others (collect d f limit x) s := by
  obtain ⟨held, hx₁, hafter, hitems⟩ := accounts_pollMany (d := d) hbad limit hx
    (accounts_lent_nil.mpr h)
  have hdrop := after_drop (d := d) hbad hx₁ hafter.accounts
  refine ⟨hafter.trans hdrop, fun e he => ?_⟩
  have hfailures : e ∈ (f _ _).failures := he
  rw [hf] at hfailures
  exact spares_of_items hitems e hfailures

end Store

/-! ## Dictionaries -/

/-- A stream that a dictionary was just asked for holds nothing. -/
theorem DictionaryOp.holds_stream {d : Dictionary} {op : DictionaryOp} {x : OpenStream}
    (h : op.stream? d = some x) : x.stream.Holds bad [] := by
  cases op with
  | getMany token keys sure limit =>
    obtain rfl := Option.some.inj h
    exact d.holds_getMany keys sure
  | getEntries token range limit =>
    obtain rfl := Option.some.inj h
    exact d.holds_producing (d.settles_streamEntries id token range)
  | getKeys token range limit =>
    obtain rfl := Option.some.inj h
    exact d.holds_producing (d.settles_streamEntries Prod.fst token range)
  | getGroups stemLen token range limit =>
    obtain rfl := Option.some.inj h
    exact d.holds_producing (d.settles_streamGroups id stemLen token range)
  | getKeyGroups stemLen token range limit =>
    obtain rfl := Option.some.inj h
    exact d.holds_producing (d.settles_streamGroups Prod.fst stemLen token range)
  | getStems stemLen token range limit =>
    obtain rfl := Option.some.inj h
    exact d.holds_producing (d.settles_streamStems stemLen token range)
  | putMany entries wantsPrevious limit =>
    obtain rfl := Option.some.inj h
    exact d.holds_putMany entries wantsPrevious
  | replaceRange range entries limit =>
    obtain rfl := Option.some.inj h
    exact d.holds_replaced range entries
  | _ => cases h

variable {s : Store} (hbad : ∀ failure, bad failure → failure.IsReleased)
include hbad

/-- Every operation of a dictionary keeps the accounts. -/
theorem DictionaryOp.answers (h : s.Accounts bad others) (d : Dictionary) (op : DictionaryOp) :
    s.Answers bad others (op.run d) := by
  -- An operation that opens a stream holds nothing before the stream is asked.
  have hstream : ∀ x, op.stream? d = some x → x.stream.Holds bad [] :=
    fun _ => DictionaryOp.holds_stream
  cases op with
  | getMany _ _ _ limit
  | getEntries _ _ limit
  | getKeys _ _ limit
  | getGroups _ _ _ limit
  | getKeyGroups _ _ _ limit
  | getStems _ _ _ limit
  | putMany _ _ limit
  | replaceRange _ _ limit =>
    exact Store.answers_collect hbad h (hstream _ rfl) (fun _ _ => rfl) limit
  | get token key sure =>
    exact Store.answers_answer (fun _ => rfl)
      (Store.keeps_submit hbad h (d.settles_get token key sure) (Backend.grants_nil _))
  | getFirst token range =>
    exact Store.answers_answer (fun _ => rfl)
      (Store.keeps_submit hbad h (d.settles_getFirst token) (Backend.grants_nil _))
  | isEmpty token range =>
    exact Store.answers_answer (fun _ => rfl) (Store.keeps_isEmpty hbad h token range)
  | size token range fast =>
    exact Store.answers_answer (fun _ => rfl) (Store.keeps_size hbad h token range fast)
  | put key value result =>
    exact Store.answers_answer (fun _ => rfl)
      (Store.keeps_submit hbad h (d.settles_put key value result) (Backend.grants_nil _))
  | remove key result =>
    exact Store.answers_answer (fun _ => rfl)
      (Store.keeps_submit hbad h (d.settles_remove key result) (Backend.grants_nil _))
  | update key f sure =>
    exact Store.answers_updated (Store.keeps_submitStep hbad h (d.settles_update key f sure))
  | setRange range entries =>
    exact Store.answers_answer (fun _ => rfl) (Store.keeps_setRange hbad h range entries)
  | removeFirst range =>
    exact Store.answers_answer (fun _ => rfl)
      (Store.keeps_submit hbad h (d.settles_removeFirst range 1) (Backend.grants_nil _))
  | clear =>
    exact Store.answers_answer (fun _ => rfl)
      (Store.keeps_submit hbad h d.settles_clear (Backend.grants_nil _))

/-! ## Nested maps -/

namespace SubMap

variable {m : SubMap}

omit hbad in
/-- A key that does not fit the layout is no failure of the engine. -/
theorem spares_refuse (r : Except KeyLayout.Mismatch α) : Except.Spares bad (refuse r) := by
  cases r with
  | ok a => exact nofun
  | error e => exact Except.spares_error rfl

omit hbad in
/-- Nor is a nested map that cannot be made. -/
theorem spares_new {d : Dictionary} {stem : Bytes} {layout : KeyLayout} :
    Except.Spares bad (SubMap.new d stem layout) := by
  unfold SubMap.new
  split
  · cases layout.firstKey stem with
    | ok key => exact nofun
    | error e => exact Except.spares_error rfl
  · cases layout.range stem with
    | ok range => exact nofun
    | error e => exact Except.spares_error rfl

omit hbad in
/-- Nor is a tail of the wrong width. -/
theorem spares_fullKey (tail : Bytes) : Except.Spares bad (m.fullKey tail) := by
  intro e he
  have hrefused : Except.Spares bad (refuse (m.layout.checkTail tail)) := spares_refuse _
  unfold fullKey at he
  cases hr : refuse (m.layout.checkTail tail) with
  | ok u =>
    rw [hr] at he
    cases he
  | error e' =>
    rw [hr] at he
    obtain rfl : e' = e := Except.error.inj he
    exact hrefused e' hr

omit hbad in
/-- Nor is a tail of the wrong width among the entries of a replacement. -/
theorem spares_fullEntries (entries : List Entry) :
    ∀ e ∈ (m.fullEntries entries).2, e.Spares bad := by
  induction entries with
  | nil => exact nofun
  | cons entry rest ih =>
    unfold fullEntries
    cases hkey : m.fullKey entry.1 with
    | ok key => simpa [hkey] using ih
    | error e =>
      intro e' he'
      obtain rfl : e = e' := by simpa [hkey] using he'
      exact spares_fullKey entry.1 e hkey

/-- An operation on the key of a tail keeps the accounts if the work on the key does. -/
theorem keeps_onKey (h : s.Accounts bad others) {w : Bytes → Work Empty α}
    (hw : ∀ key, (w key).Settles bad [] (fun _ _ => True) [] []) (tail : Bytes) :
    (m.onKey tail w).Keeps bad others s :=
  Store.Op.keeps_given_bind h (spares_fullKey tail) fun key _ =>
    Store.keeps_submit hbad h (hw key) (Backend.grants_nil _)

/-- An update of a tail keeps the accounts. -/
theorem keeps_update (h : s.Accounts bad others) (tail : Bytes) (f : Updater) :
    (m.update tail f).Keeps bad others s :=
  Store.Op.keeps_given_bind h (spares_fullKey tail) fun key _ =>
    Store.keeps_submitStep hbad h (Dictionary.settles_update key f false)

/-- To clear a nested map keeps the accounts. -/
theorem keeps_clear (h : s.Accounts bad others) : m.clear.Keeps bad others s := by
  unfold clear
  split
  · exact Store.keeps_submit hbad h Dictionary.settles_clear (Backend.grants_nil _)
  · exact Store.keeps_setRange hbad h m.range []

/-- To replace a nested map keeps the accounts. -/
theorem keeps_setAll (h : s.Accounts bad others) (entries : List Entry) :
    (m.setAll entries).Keeps bad others s := by
  have hrefused : ∀ e ∈ (m.fullEntries entries).2, e.Spares bad := spares_fullEntries entries
  unfold setAll
  revert hrefused
  obtain ⟨entries, refused⟩ := m.fullEntries entries
  intro hrefused
  refine (Store.keeps_setRange hbad h m.range entries).bind fun _ _ hafter => ?_
  cases refused with
  | none => exact Store.Op.keeps_pure hafter.accounts ()
  | some e => exact Store.Op.keeps_throw hafter.accounts (hrefused e rfl)

end SubMap

omit hbad in
/-- A stream that a nested map was just asked for holds nothing. -/
theorem SubMapOp.holds_stream {m : SubMap} {op : SubMapOp} {x : OpenStream}
    (h : op.stream? m = some x) : x.stream.Holds bad [] := by
  cases op with
  | getEntries token limit =>
    obtain rfl := Option.some.inj h
    exact (Dictionary.holds_producing
      (Dictionary.settles_streamEntries id token m.range)).map _
  | getKeys token limit =>
    obtain rfl := Option.some.inj h
    exact (Dictionary.holds_producing
      (Dictionary.settles_streamEntries Prod.fst token m.range)).map _
  | getChildKeys token limit =>
    obtain rfl := Option.some.inj h
    exact (Dictionary.holds_producing (Dictionary.settles_streamStems _ token m.range)).map _
  | _ => cases h

/-- Every operation of a nested map keeps the accounts. -/
theorem SubMapOp.answers (h : s.Accounts bad others) (m : SubMap) (op : SubMapOp) :
    s.Answers bad others (op.run m) := by
  -- The streams of a nested map are those of its dictionary, with the tails cut out.
  have hstream : ∀ x, op.stream? m = some x → x.stream.Holds bad [] :=
    fun _ => SubMapOp.holds_stream
  cases op with
  | getEntries _ limit
  | getKeys _ limit
  | getChildKeys _ limit =>
    exact Store.answers_collect hbad h (hstream _ rfl) (fun _ _ => rfl) limit
  | get token tail =>
    exact Store.answers_answer (fun _ => rfl)
      (SubMap.keeps_onKey hbad h (fun key => Dictionary.settles_get token key false) tail)
  | put tail value result =>
    exact Store.answers_answer (fun _ => rfl)
      (SubMap.keeps_onKey hbad h (fun key => Dictionary.settles_put key value result) tail)
  | remove tail result =>
    exact Store.answers_answer (fun _ => rfl)
      (SubMap.keeps_onKey hbad h (fun key => Dictionary.settles_remove key result) tail)
  | update tail f => exact Store.answers_updated (SubMap.keeps_update hbad h tail f)
  | size token fast =>
    exact Store.answers_answer (fun _ => rfl) (Store.keeps_size hbad h token m.range fast)
  | isEmpty token =>
    exact Store.answers_answer (fun _ => rfl) (Store.keeps_isEmpty hbad h token m.range)
  | clear => exact Store.answers_answer (fun _ => rfl) (SubMap.keeps_clear hbad h)
  | setAll entries => exact Store.answers_answer (fun _ => rfl) (SubMap.keeps_setAll hbad h entries)

/-! ## Streams -/

omit hbad in
/-- A stream that was just asked for holds nothing. -/
theorem Request.holds_stream {db : Database} {r : Request} {x : OpenStream}
    (h : r.stream? db = some x) : x.stream.Holds bad [] := by
  cases r with
  | close => cases h
  | act a =>
    cases a with
    | on name op =>
      obtain ⟨d, -, hop⟩ := Option.bind_eq_some_iff.mp h
      exact DictionaryOp.holds_stream hop
    | _ => cases h
  | nested name stem layout op =>
    simp only [stream?] at h
    split at h
    · exact SubMapOp.holds_stream h
    · cases h

/-! ## Requests -/

/-- What becomes of a register, with the snapshots that are taken and released. -/
inductive Snapshots.Moves (r : Snapshots) : Option Token → Option Token → Snapshots → Prop where
  /-- Nothing changes. -/
  | kept : Moves r none none r
  /-- A snapshot is taken. -/
  | taken (q : Nat) : Moves r (some r.nextId) none (r.register q).2
  /-- A live snapshot is released. -/
  | released {t : Token} {q : Nat} (ht : r.sequence? t = some q) : Moves r none (some t) (r.forget t)
  /-- All snapshots are released. -/
  | closed : Moves r none none ⟨r.nextId, []⟩

/-- What a request is to keep. -/
structure Request.Keeps (bad : EngineError → Prop) (others : Nat → Nat) (r : Request) (s : Store) :
    Prop where
  /-- The accounts are kept. -/
  accounts : (r.run s).2.Accounts bad others
  /-- No bad failure is shown. -/
  spares : ∀ e ∈ (r.run s).1.failures, e.Spares bad
  /-- The register changes as the reply says. -/
  moves : s.database.snapshots.Moves (r.issued? (r.run s).1) (r.released? (r.run s).1)
    (r.run s).2.database.snapshots
  /-- The engine has evolved. -/
  evolves : s.engine.engine.Evolves (r.run s).2.engine.engine

omit hbad in
/-- A request that is not about snapshots leaves them as they are. -/
private theorem Request.keeps_of_answers {r : Request} (h : s.Answers bad others r.run)
    (hissued : ∀ reply, r.issued? reply = none) (hreleased : ∀ reply, r.released? reply = none) :
    r.Keeps bad others s := by
  refine ⟨h.1.accounts, h.2, ?_, h.1.evolves⟩
  rw [hissued, hreleased, h.1.snapshots_eq]
  exact .kept

/-- A snapshot that is taken is one pin more, which the register accounts for. -/
private theorem Request.keeps_takeSnapshot (h : s.Accounts bad others) :
    (act .takeSnapshot).Keeps bad others s := by
  have hrun : (act .takeSnapshot).run s
      = (.of .token (Store.takeSnapshot.run s).1, (Store.takeSnapshot.run s).2) := rfl
  rcases Store.takeSnapshot_cases hbad h with
    ⟨e, s', heq, he, hafter⟩ | ⟨q, s', heq, -, h', hlive, hevolves⟩
  · rw [heq] at hrun
    refine ⟨hrun ▸ hafter.accounts, hrun ▸ List.forall_mem_singleton.mpr he, ?_, hrun ▸ hafter.evolves⟩
    rw [hrun, hafter.snapshots_eq]
    exact .kept
  · rw [heq] at hrun
    refine ⟨hrun ▸ h', ?_, ?_, hrun ▸ hevolves⟩
    · rw [hrun]
      exact nofun
    · rw [hrun, hlive]
      exact .taken q

omit hbad in
/-- A snapshot that is released takes its pin with it. -/
private theorem Request.keeps_releaseSnapshot (h : s.Accounts bad others)
    (hnodup : (s.database.snapshots.live.map (·.1)).Nodup) (t : Token) :
    (act (.releaseSnapshot t)).Keeps bad others s := by
  have hrun : (act (.releaseSnapshot t)).run s
      = (.of (fun _ => .done) ((Store.releaseSnapshot t).run s).1,
        ((Store.releaseSnapshot t).run s).2) := rfl
  rcases Store.releaseSnapshot_cases h hnodup t with
    ⟨e, s', heq, he, hafter⟩ | ⟨q, s', heq, hq, h', hlive, hevolves⟩
  · rw [heq] at hrun
    refine ⟨hrun ▸ hafter.accounts, hrun ▸ List.forall_mem_singleton.mpr he, ?_, hrun ▸ hafter.evolves⟩
    rw [hrun, hafter.snapshots_eq]
    exact .kept
  · rw [heq] at hrun
    refine ⟨hrun ▸ h', ?_, ?_, hrun ▸ hevolves⟩
    · rw [hrun]
      exact nofun
    · rw [hrun, hlive]
      exact .released hq

/-- A database that closes releases every snapshot with its pin. -/
private theorem Request.keeps_close (h : s.Accounts bad others) : close.Keeps bad others s := by
  obtain ⟨h', hspares, hevolves, hlive⟩ := Store.close_cases hbad h
  refine ⟨h', fun e he => ?_, ?_, hevolves⟩
  · -- The only failure that closing tells is that of the last flush.
    have hreply : e ∈ (Reply.of (fun _ => .done) (Store.close.run s).1).failures := he
    cases hr : (Store.close.run s).1 with
    | ok u => simp [hr, Reply.of, Reply.failures] at hreply
    | error e' =>
      obtain rfl : e = e' := by simpa [hr, Reply.of, Reply.failures] using hreply
      exact hspares e hr
  · show s.database.snapshots.Moves none none (Store.close.run s).2.database.snapshots
    rcases hlive with hlive | hlive
    · rw [hlive]
      exact .kept
    · rw [hlive]
      exact .closed

/-- **Every request keeps the accounts**, and shows no bad failure. -/
theorem Request.keeps (h : s.Accounts bad others)
    (hnodup : (s.database.snapshots.live.map (·.1)).Nodup) (r : Request) :
    r.Keeps bad others s := by
  cases r with
  | close => exact keeps_close hbad h
  | act a =>
    cases a with
    | takeSnapshot => exact keeps_takeSnapshot hbad h
    | releaseSnapshot t => exact keeps_releaseSnapshot h hnodup t
    | opening name mode =>
      exact keeps_of_answers (Store.answers_answer (fun _ => rfl) (Store.keeps_dictionary hbad h name
        mode)) (fun _ => rfl) fun _ => rfl
    | flush =>
      exact keeps_of_answers (Store.answers_answer (fun _ => rfl) (Store.keeps_flush hbad h))
        (fun _ => rfl) fun _ => rfl
    | on name op =>
      refine keeps_of_answers ?_ (fun _ => rfl) fun _ => rfl
      unfold Store.Answers
      simp only [Request.run, Act.run]
      cases s.database.find? name with
      | some d => exact op.answers hbad h d
      | none => exact ⟨h.after, nofun⟩
  | nested name stem layout op =>
    -- A nested map that cannot be made refuses its request; one that can be made answers it.
    refine keeps_of_answers ?_ (fun _ => rfl) fun _ => rfl
    unfold Store.Answers
    simp only [Request.run]
    cases hm : s.database.nested? name stem layout with
    | none => exact ⟨h.after, nofun⟩
    | some r =>
      cases r with
      | ok m => exact op.answers hbad h m
      | error e =>
        obtain ⟨d, -, hnew⟩ := Option.map_eq_some_iff.mp hm
        exact ⟨h.after, List.forall_mem_singleton.mpr (SubMap.spares_new e hnew)⟩

end SnapshotStore
