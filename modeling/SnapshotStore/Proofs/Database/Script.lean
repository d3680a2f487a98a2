import SnapshotStore.Proofs.Database.Plain

/-!
# Scripts

A script is a list of operations of a database that are carried out one after the other.  Every
operation has two meanings: what it does to a store with an engine (`Act.run`) and what it does to
plain maps (`Act.plain`).  Both answer with the same type, which keeps all that a caller sees, and
for an update also how many batches the engine committed.
-/

namespace SnapshotStore

/-- What an operation answers. -/
inductive Reply where
  | done
  | value (v : Option Bytes)
  | entry (e : Option Entry)
  | truth (b : Bool)
  | count (n : Nat)
  | token (t : Token)
  /-- Items of a stream of values, and whether its end was seen. -/
  | values (items : List (Except StoreError (Bytes × Option Bytes))) (isEnd : Bool)
  /-- Items of a stream of previous values, and whether its end was seen. -/
  | previous (items : List (Except StoreError (Option Bytes))) (isEnd : Bool)
  /-- Items of a stream of entries, and whether its end was seen. -/
  | entries (items : List (Except StoreError Entry)) (isEnd : Bool)
  /-- Items of a stream of keys or of stems, and whether its end was seen. -/
  | keys (items : List (Except StoreError Bytes)) (isEnd : Bool)
  /-- Items of a stream of groups of entries, and whether its end was seen. -/
  | groups (items : List (Except StoreError (List Entry))) (isEnd : Bool)
  /-- Items of a stream of groups of keys, and whether its end was seen. -/
  | keyGroups (items : List (Except StoreError (List Bytes))) (isEnd : Bool)
  /-- Both sides of an update, or its refusal, and the number of batches that it committed. -/
  | updated (r : Except StoreError (Delta Bytes)) (commits : Nat)
  | refused (e : StoreError)
  /-- Nobody opened the dictionary. -/
  | notOpen

namespace Reply

variable {α ε : Type}

/-- A value or a refusal. -/
def of (f : α → Reply) : Except StoreError α → Reply
  | .ok a => f a
  | .error e => refused e

/-- The items that a consumer gets who asks for at most `limit` of them. -/
def cut (f : List (Except StoreError ε) → Bool → Reply) (limit : Nat)
    (items : List (Except StoreError ε)) : Reply :=
  f (items.take limit) (decide (items.length < limit))

/-- Items that nobody asks for make no difference. -/
theorem cut_take (f : List (Except StoreError ε) → Bool → Reply) {limit k : Nat} (hk : limit ≤ k)
    (items : List (Except StoreError ε)) : cut f limit (items.take k) = cut f limit items := by
  rw [cut, cut, List.take_take, Nat.min_eq_left hk, decide_length_take_lt hk]

/-- A consumer who sees the end has all items. -/
theorem eq_of_cut_eq {f : List (Except StoreError ε) → Bool → Reply}
    (hf : ∀ {xs ys b b'}, f xs b = f ys b' → xs = ys ∧ b = b') {limit : Nat}
    {items xs : List (Except StoreError ε)} (h : cut f limit items = f xs true) : items = xs := by
  obtain ⟨htake, hend⟩ := hf h
  rw [decide_eq_true_iff] at hend
  rwa [List.take_of_length_le hend.le] at htake

end Reply

/-- An operation of a dictionary.  The consumer of a stream asks for at most `limit` items and then
goes away. -/
inductive DictionaryOp where
  | get (token : Option Token) (key : Bytes) (sure : Bool)
  | getMany (token : Option Token) (keys : List Bytes) (sure : Bool) (limit : Nat)
  | getFirst (token : Option Token) (range : KeyRange)
  | isEmpty (token : Option Token) (range : KeyRange)
  | size (token : Option Token) (range : KeyRange) (fast : Bool)
  | getEntries (token : Option Token) (range : KeyRange) (limit : Nat)
  | getKeys (token : Option Token) (range : KeyRange) (limit : Nat)
  | getGroups (stemLen : Nat) (token : Option Token) (range : KeyRange) (limit : Nat)
  | getKeyGroups (stemLen : Nat) (token : Option Token) (range : KeyRange) (limit : Nat)
  | getStems (stemLen : Nat) (token : Option Token) (range : KeyRange) (limit : Nat)
  | put (key value : Bytes) (result : ResultType)
  | remove (key : Bytes) (result : ResultType)
  | update (key : Bytes) (f : Updater) (sure : Bool)
  | putMany (entries : List Entry) (wantsPrevious : Bool) (limit : Nat)
  | setRange (range : KeyRange) (entries : List Entry)
  /-- Replaces the entries of a range and hands out the old ones. -/
  | replaceRange (range : KeyRange) (entries : List Entry) (limit : Nat)
  | removeFirst (range : KeyRange)
  | clear

/-- An operation of a database. -/
inductive Act where
  /-- Opens a dictionary. -/
  | opening (name : String) (mode : UpdateMode)
  /-- An operation of the open dictionary with a name. -/
  | on (name : String) (op : DictionaryOp)
  | takeSnapshot
  | releaseSnapshot (token : Token)
  | flush

/-! ## On a store -/

namespace Store

variable {α ε : Type}

/-- Answers an operation. -/
def answer (f : α → Reply) (op : Op α) : StateM Store Reply := fun s =>
  let (r, s) := op.run s
  (.of f r, s)

/-- Answers items of a stream, which is dropped afterwards. -/
def collect (d : Dictionary) (f : List (Except StoreError ε) → Bool → Reply) (limit : Nat)
    (x : Stream ε) : StateM Store Reply := fun s =>
  let ((items, isEnd, x), s) := pollMany d limit x s
  let ((), s) := drop d x s
  (f items isEnd, s)

end Store

/-- The operation on a store. -/
def DictionaryOp.run (d : Dictionary) : DictionaryOp → StateM Store Reply
  | get token key sure => Store.answer .value (Store.submit d (d.get token key sure))
  | getMany token keys sure limit => Store.collect d .values limit (d.getMany token keys sure)
  | getFirst token range => Store.answer .entry (Store.submit d (d.getFirst token range))
  | isEmpty token range => Store.answer .truth (Store.isEmpty d token range)
  | size token range fast => Store.answer .count (Store.size d token range fast)
  | getEntries token range limit => Store.collect d .entries limit (d.entries token range)
  | getKeys token range limit => Store.collect d .keys limit (d.keys token range)
  | getGroups stemLen token range limit => Store.collect d .groups limit (d.groups stemLen token range)
  | getKeyGroups stemLen token range limit =>
    Store.collect d .keyGroups limit (d.keyGroups stemLen token range)
  | getStems stemLen token range limit => Store.collect d .keys limit (d.stems stemLen token range)
  | put key value result => Store.answer .value (Store.submit d (d.put key value result))
  | remove key result => Store.answer .value (Store.submit d (d.remove key result))
  | update key f sure => fun s =>
    let (r, s') := (Store.submitStep d (d.update key f sure)).run s
    (.updated r (s'.engine.engine.sequence - s.engine.engine.sequence), s')
  | putMany entries wantsPrevious limit =>
    Store.collect d .previous limit (d.putMany entries wantsPrevious)
  | setRange range entries => Store.answer (fun _ => .done) (Store.setRange d range entries)
  | replaceRange range entries limit =>
    Store.collect d .entries limit (d.replaced range entries)
  | removeFirst range => Store.answer .entry (Store.removeFirst d range)
  | clear => Store.answer (fun _ => .done) (Store.submit d d.clear)

/-- The operation on a store. -/
def Act.run : Act → StateM Store Reply
  | opening name mode => Store.answer (fun _ => .done) (Store.dictionary name mode)
  | on name op => fun s =>
    match s.database.find? name with
    | some d => op.run d s
    | none => (.notOpen, s)
  | takeSnapshot => Store.answer .token Store.takeSnapshot
  | releaseSnapshot token => Store.answer (fun _ => .done) (Store.releaseSnapshot token)
  | flush => Store.answer (fun _ => .done) Store.flush

/-! ## On plain maps -/

namespace PlainMap

/-- The map after windows of entries were put that have to lie in a range, up to the first window
that does not. -/
def fill (range : KeyRange) (m : PlainMap) : List (List Entry) → Except StoreError Unit × PlainMap
  | [] => (.ok (), m)
  | window :: rest =>
    match window.find? fun e => !range.contains e.1 with
    | some (key, _) =>
      (.error (.invalidArgument s!"key {key.label} is outside range {range.display}"), m)
    | none => (m.puts window).fill range rest

end PlainMap

namespace PlainStore

/-- The windows of some keys. -/
def keyWindows (p : PlainStore) (keys : List Bytes) : List (List Bytes) :=
  windows (.ofNats p.config.multiGetWindow p.config.windowMaxBytes List.length) keys

/-- The windows of some entries. -/
def entryWindows (p : PlainStore) (entries : List Entry) : List (List Entry) :=
  windows (.ofNats p.config.multiGetWindow p.config.windowMaxBytes fun e => e.1.length + e.2.length)
    entries

/-- What a stream over the map of a name hands out. -/
def stream {ε : Type} (p : PlainStore) (f : List (Except StoreError ε) → Bool → Reply) (limit : Nat)
    (token : Option Token) (name : String) (items : PlainMap → List ε) : Reply :=
  match p.shown token with
  | .ok maps => .cut f limit ((items (maps name)).map .ok)
  | .error e => .cut f limit [.error e]

/-- How many entries are removed for a consumer that asks for a number of them: none if it asks for
none, and else some that are on their way when it goes. -/
def removed (p : PlainStore) (limit : Nat) : Nat :=
  if limit = 0 then 0 else max p.config.streamBuffer 1 + limit

/-- The answer of an update to the value of a key, and the map after it. -/
def update (m : PlainMap) (key : Bytes) (f : Updater) : Reply × PlainMap :=
  match f (m.get key) with
  | some current =>
    (.updated (.ok ⟨m.get key, current⟩) (if m.get key = current then 0 else 1),
      m.apply (Dictionary.assign key current))
  | none => (.updated (.error (.internal "storage task failed:")) 0, m)

end PlainStore

/-- The operation on plain maps. -/
def DictionaryOp.plain (name : String) (mode : UpdateMode) (p : PlainStore) :
    DictionaryOp → Reply × PlainStore
  | get token key _ => (.of (fun maps => .value ((maps name).get key)) (p.shown token), p)
  | getMany token keys _ limit =>
    match p.shown token with
    | .ok maps =>
      (.cut .values limit (keys.map fun key => .ok (key, (maps name).get key)), p)
    | .error e => (.cut .values limit ((p.keyWindows keys).map fun _ => .error e), p)
  | getFirst token range =>
    (.of (fun maps => .entry ((maps name).within range).head?) (p.shown token), p)
  | isEmpty token range =>
    (.of (fun maps => .truth ((maps name).within range).isEmpty) (p.shown token), p)
  | size token range fast =>
    (.of (fun maps => .count ((maps name).size p.config.fastSizeScanCap token range fast))
      (p.shown token), p)
  | getEntries token range limit => (p.stream .entries limit token name (·.within range), p)
  | getKeys token range limit => (p.stream .keys limit token name (·.keysWithin range), p)
  | getGroups stemLen token range limit =>
    (p.stream .groups limit token name (·.groupsWithin range stemLen), p)
  | getKeyGroups stemLen token range limit =>
    (p.stream .keyGroups limit token name
      fun m => (m.groupsWithin range stemLen).map (·.map Prod.fst), p)
  | getStems stemLen token range limit =>
    (p.stream .keys limit token name (·.stemsWithin range stemLen), p)
  | put key value result =>
    (.value (result.project ((p.now name).get key)), p.set name ((p.now name).apply (.put key value)))
  | remove key result =>
    (.value (result.project ((p.now name).get key)), p.set name ((p.now name).apply (.delete key)))
  | update key f _ =>
    match mode with
    | .allow =>
      let (reply, m) := PlainStore.update (p.now name) key f
      (reply, p.set name m)
    | .disallow =>
      (.updated (.error
        (.unsupported s!"update on dictionary {name} with update mode {mode.name}")) 0, p)
  | putMany entries wantsPrevious limit =>
    (.cut .previous limit (((p.now name).get.answers wantsPrevious entries).map .ok),
      p.set name ((p.now name).puts (demanded limit (p.entryWindows entries)).flatten))
  | setRange range entries =>
    let (r, m) := ((p.now name).apply (.deleteRange range)).fill range (p.entryWindows entries)
    (.of (fun _ => .done) r, p.set name m)
  | replaceRange range entries limit =>
    let previous := (p.now name).within range
    if previous.length < limit then
      let (r, m) := ((p.now name).apply (.deleteRange range)).fill range (p.entryWindows entries)
      (.cut .entries limit (previous.map .ok ++ Stream.failureItem r), p.set name m)
    else
      (.cut .entries limit (previous.map .ok),
        p.set name ((p.now name).without (previous.take (p.removed limit))))
  | removeFirst range =>
    match ((p.now name).within range).head? with
    | some (key, value) =>
      (.entry (some (key, value)), p.set name ((p.now name).apply (.delete key)))
    | none => (.entry none, p)
  | clear => (.done, p.set name .empty)

/-- The operation on plain maps. -/
def Act.plain : Act → PlainStore → Reply × PlainStore
  | opening name mode, p =>
    match p.mode? name with
    | some given =>
      if given = mode then (.done, p)
      else (.refused (.invalidArgument
        s!"dictionary {name} is already open with update mode {given.name}"), p)
    | none => (.done, { p with modes := p.modes ++ [(name, mode)] })
  | on name op, p =>
    match p.mode? name with
    | some mode => op.plain name mode p
    | none => (.notOpen, p)
  | takeSnapshot, p =>
    (.token p.nextId, { p with frozen := p.frozen ++ [(p.nextId, p.now)], nextId := p.nextId + 1 })
  | releaseSnapshot token, p =>
    match p.frozen.lookup token with
    | some _ => (.done, { p with frozen := p.frozen.filter (·.1 ≠ token) })
    | none => (.refused (.snapshotNotFound token), p)
  | flush, p => (.done, p)

/-! ## One after the other -/

/-- The answers of a script, and the state after it. -/
def replies {σ : Type} (step : Act → σ → Reply × σ) : List Act → σ → List Reply × σ
  | [], s => ([], s)
  | act :: rest, s =>
    let (reply, s) := step act s
    let (more, s) := replies step rest s
    (reply :: more, s)

/-- Two systems whose states correspond give the same answers, and their states correspond again. -/
theorem replies_eq_of_step {σ τ : Type} {step : Act → σ → Reply × σ} {step' : Act → τ → Reply × τ}
    {R : σ → τ → Prop}
    (hstep : ∀ s t act, R s t → (step act s).1 = (step' act t).1 ∧ R (step act s).2 (step' act t).2)
    (script : List Act) {s : σ} {t : τ} (h : R s t) :
    (replies step script s).1 = (replies step' script t).1 ∧
      R (replies step script s).2 (replies step' script t).2 := by
  induction script generalizing s t with
  | nil => exact ⟨rfl, h⟩
  | cons act rest ih =>
    obtain ⟨hreply, hR⟩ := hstep s t act h
    obtain ⟨hmore, hR'⟩ := ih hR
    exact ⟨congrArg₂ List.cons hreply hmore, hR'⟩

end SnapshotStore
