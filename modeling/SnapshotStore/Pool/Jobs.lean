import SnapshotStore.Pool.Basic
import SnapshotStore.Work.Backend

/-!
# Jobs of a pool

A job is submitted with the outcome that its work will have.  It runs as soon as it gets a permit,
jobs that wait get permits in the order of their submission, and a job that waits when the pool is
closed ends with `StoreError.closed`.  A held job keeps its permit until it is told to finish; any
other job finishes as soon as it runs.

* `Jobs.submit`, `Jobs.finish`, `Jobs.close` — the transitions.
* `Jobs.result?` — the answer of a job that has ended.
-/

namespace SnapshotStore

/-- A job. -/
structure Job where
  /-- The name of the job. -/
  id : String
  /-- How its work ends. -/
  outcome : Outcome Int
  /-- Whether it keeps its permit until it is told to finish. -/
  isHeld : Bool

/-- A pool with the jobs that were submitted to it. -/
structure Jobs where
  /-- The pool. -/
  pool : Pool
  /-- The jobs that have a permit. -/
  running : List Job
  /-- The jobs that wait for a permit, in the order of their submission. -/
  waiting : List Job
  /-- The answers of the jobs that have ended, newest first. -/
  ended : List (String × Except StoreError Int)

namespace Jobs

/-- A pool without jobs. -/
def start (pool : Pool) : Jobs := ⟨pool, [], [], []⟩

/-- Records the answer of a job. -/
def record (j : Jobs) (id : String) (r : Except StoreError Int) : Jobs :=
  { j with ended := (id, r) :: j.ended }

/-- Gives a permit to a job, which ends at once unless it is held. -/
def begin (j : Jobs) (job : Job) (ops : Budget) : Jobs :=
  let taken := { j with pool := { j.pool with ops } }
  if job.isHeld then { taken with running := job :: j.running }
  else { taken with pool := { taken.pool with ops := ops.giveBack } }.record job.id
    job.outcome.toExcept

/-- Hands free permits to waiting jobs. -/
def serve (j : Jobs) : Jobs :=
  let rec go : List Job → Jobs → Jobs
    | [], j => { j with waiting := [] }
    | job :: rest, j =>
      match j.pool.ops.take? with
      | some ops => go rest (j.begin job ops)
      | none => { j with waiting := job :: rest }
  go j.waiting j

/-- Submits a job: refused by a closed pool, started if a permit is free, else queued. -/
def submit (j : Jobs) (job : Job) : Jobs :=
  if j.pool.isClosed then j.record job.id (.error .closed)
  else { j with waiting := j.waiting ++ [job] }.serve

/-- Tells a held job to finish. -/
def finish (j : Jobs) (id : String) : Jobs :=
  match j.running.find? (·.id == id) with
  | none => j
  | some job =>
    { j with
      running := j.running.filter (·.id != id)
      pool := { j.pool with ops := j.pool.ops.giveBack } }.record id job.outcome.toExcept |>.serve

/-- Closes the pool, which ends every waiting job. -/
def close (j : Jobs) : Jobs :=
  let closed := { j with pool := j.pool.close, waiting := [] }
  j.waiting.foldl (fun j job => j.record job.id (.error .closed)) closed

/-- The answer of a job that has ended. -/
def result? (j : Jobs) (id : String) : Option (Except StoreError Int) := j.ended.lookup id

end Jobs

end SnapshotStore
