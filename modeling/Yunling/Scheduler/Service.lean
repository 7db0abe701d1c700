/-
The scheduler (`internal/scheduler/queue.go`, `service.go`).

`scheduleOne` tries to place one run: it expires it, holds it back in the
queue with a reason, or reserves resources in Redis and assigns the run
in the database. `scan` retries what failed, brings Redis in line with
the lease rows, puts every waiting run in the queue, and then pops as
many runs as the queue holds and schedules each.

# State and environment

`World` is what the scheduler reads and writes: the database, Redis and
its own queue. What it is given from outside is the environment: the
readings of its clock and of the database's clock, new ids, and whether
an alert is accepted. The environment is indexed by a counter of the
world, so two readings need not agree. `attempted` logs the runs
`scheduleOne` is called for; nothing reads it.

An error stops the scheduler where it is. What was written before it
stays written.
-/
import Yunling.Redis.Lease
import Yunling.Scheduler.Postgres
import Yunling.Task.Reconcile

namespace Yunling

open Relational Scheduler

-- ======== queue

/-- `Queue`: runs by id. `Push` refuses an empty id, so none is ever
in. -/
structure Queue where
  items : Table Run String (·.id)
  named : ∀ run ∈ items.rows, run.id ≠ ""

namespace Queue

/-- `NewQueue`. -/
def empty : Queue where
  items := .empty
  named := by simp

/-- `Queue.Push`. -/
def push (q : Queue) (run : Run) : Queue :=
  if h : run.id = "" then q
  else
    { items := q.items.upsert run
      named := by
        intro other hother
        rcases Table.mem_upsert.mp hother with rfl | ⟨hmem, -⟩
        · exact h
        · exact q.named other hmem }

/-- `Queue.Remove`. -/
def remove (q : Queue) (runID : String) : Queue where
  items := q.items.delete fun run => run.id = runID
  named := fun run hrun => q.named run (Table.mem_delete.mp hrun).1

/-- `Queue.Pop`. -/
def pop (q : Queue) : Option (Run × Queue) :=
  match (q.items.rows.insertionSort Run.before).head? with
  | none => none
  | some selected => some (selected, q.remove selected.id)

/-- `Queue.Len`. -/
def len (q : Queue) : Nat := q.items.rows.length

end Queue

-- ======== world

/-- The scheduler and the stores it works on. -/
structure World where
  db : Database
  redis : Redis
  queue : Queue
  /-- readings of the environment so far -/
  ticks : Nat
  /-- the runs `scheduleOne` was called for -/
  attempted : List String

/-- What the scheduler is given from outside. -/
structure Env where
  /-- the scheduler's clock -/
  now : Nat → Int
  /-- the database's clock -/
  dbNow : Nat → Int
  /-- `uuid.NewString` and `gen_random_uuid` -/
  uuid : Nat → String
  fold : Char → Char
  /-- whether an alert about the run is accepted -/
  raise : String → Bool

/-- What the scheduler can fail with. -/
inductive ScheduleError where
  | tx (e : TxError)
  | lease (e : LeaseError)
  | alert
  deriving DecidableEq

/-- The environment is read once more. -/
def World.tick (w : World) : World := { w with ticks := w.ticks + 1 }

-- ======== ScheduleOne

section Service

variable (env : Env)

/-- Push the run back and set its queue reason. -/
def hold (run : Run) (reason : String) (w : World) : Except ScheduleError Outcome × World :=
  let w := { w with queue := w.queue.push run }
  match setQueueReason run.id reason (env.dbNow w.ticks) w.db with
  | .error e => (.error (.tx e), w.tick)
  | .ok (_, db) => (.ok .queued, { w.tick with db })

/-- A reservation was granted: assign the run, or give the reservation
back. A failure to give it back is ignored. -/
def commit (run : Run) (lease : Lease) (now : Int) (w : World) :
    Except ScheduleError Outcome × World :=
  match assign (run.assignment lease (env.uuid w.ticks) now) w.db with
  | .error e =>
    (.error (.tx e), { w.tick with redis := (release lease w.redis).2 })
  | .ok (false, db) =>
    (.ok .queued,
      { w.tick with db, redis := (release lease w.redis).2 })
  | .ok (true, db) =>
    (.ok .assigned, { w.tick with db, queue := w.queue.remove run.id })

/-- The loop over the ranked candidates, and what follows it. -/
def tryCandidates (run : Run) (now : Int) (reason : String) :
    List Candidate → World → Except ScheduleError Outcome × World
  | [], w => hold env run reason w
  | candidate :: rest, w =>
    match tryReserve (run.leaseRequest candidate now) (env.uuid w.ticks) w.redis with
    | (.error e, redis) => (.error (.lease e), { w.tick with redis })
    | (.ok none, redis) =>
      tryCandidates run now reason rest { w.tick with redis }
    | (.ok (some lease), redis) =>
      commit env run lease now { w.tick with redis }

/-- The reason of a run no candidate took. -/
def waitReason (run : Run) (snapshots : List Snapshot) (candidates : List Candidate) : String :=
  if run.requiresArtifacts && candidates.isEmpty
      && !(filter env.fold { run with requiresArtifacts := false } snapshots).isEmpty then
    "等待支持产物采集的执行代理，请将兼容节点升级至具备 run_artifacts_v1 能力的版本"
  else "等待满足运行环境、标签、资源和并发要求的在线服务器"

/-- The definition's quota is used up. -/
def quotaReached (run : Run) (db : Database) : Bool :=
  0 < run.maxConcurrency && run.maxConcurrency ≤ db.countActive run.definitionID

/-- The servers that may take the run, by the snapshots of now. -/
def candidates (run : Run) (w : World) : List Candidate :=
  filter env.fold run (w.db.listSnapshots (env.dbNow w.ticks) run)

/-- `ScheduleOne` from the count of active runs on. -/
def place (run : Run) (now : Int) (w : World) : Except ScheduleError Outcome × World :=
  if quotaReached run w.db then
    hold env run "等待任务并发名额释放" w
  else
    let snapshots := w.db.listSnapshots (env.dbNow w.ticks) run
    tryCandidates env run now (waitReason env run snapshots (candidates env run w))
      (rankCandidates (candidates env run w)) w.tick

/-- The run has waited as long as it may. -/
def Scheduler.Run.overdue (run : Run) (now : Int) : Bool :=
  0 < run.maxWaitSeconds && run.queuedAt + run.maxWaitSeconds * second ≤ now

/-- `ScheduleOne`. -/
def scheduleOne (runID : String) (w : World) : Except ScheduleError Outcome × World :=
  match w.db.getRun runID with
  | none => (.error (.tx .runNotFound), w)
  | some run =>
    if run.state ≠ .queued then
      (.ok (if run.state = .expired then .expired else .queued), w)
    else
      let now := env.now w.ticks
      let w := w.tick
      if now < run.queuedAt then (.ok .queued, w)
      else if run.overdue now then
        match expireRun run.id now w.db with
        | .error e => (.error (.tx e), w)
        | .ok (false, db) => place env run now { w with db }
        | .ok (true, db) =>
          let w := { w with db, queue := w.queue.remove run.id }
          if env.raise run.id then (.ok .expired, w) else (.error .alert, w)
      else place env run now w

-- ======== Scan

/-- `RetryFailed`, over the runs its query returned. -/
def retryFailed (at_ : Int) : List String → World → Except ScheduleError Unit × World
  | [], w => (.ok (), w)
  | runID :: rest, w =>
    match retryRun runID (env.uuid w.ticks) at_ true w.db with
    | .error e =>
      if e = .runNotRetryable ∨ e = .runNotFound then
        retryFailed at_ rest w.tick
      else (.error (.tx e), w.tick)
    | .ok (_, db) => retryFailed at_ rest { w.tick with db }

/-- Call the lease store for each lease, until a call fails. -/
def eachLease (call : Lease → Redis → Except LeaseError Unit × Redis) :
    List Lease → Redis → Except LeaseError Unit × Redis
  | [], redis => (.ok (), redis)
  | lease :: rest, redis =>
    match call lease redis with
    | (.error e, redis) => (.error e, redis)
    | (.ok _, redis) => eachLease call rest redis

/-- The release phase of `Scan`. -/
def releasePhase (db : Database) (now : Int) (redis : Redis) : Except LeaseError Unit × Redis :=
  eachLease release (db.listReleasedLeases now) redis

/-- `restoreActiveLeases`. -/
def restoreActiveLeases (db : Database) (now : Int) (redis : Redis) :
    Except LeaseError Unit × Redis :=
  eachLease (fun lease => restore lease now) (db.listActiveLeases now) redis

/-- The two phases that bring Redis in line with the database; each
reads the clock for itself. -/
def reconcileLeases (db : Database) (releaseNow restoreNow : Int)
    (redis : Redis) : Except LeaseError Unit × Redis :=
  match releasePhase db releaseNow redis with
  | (.error e, redis) => (.error e, redis)
  | (.ok _, redis) => restoreActiveLeases db restoreNow redis

/-- `Scan` up to the loop: retries, leases, and the waiting runs pushed
on the queue. -/
def prepareScan (w : World) : Except ScheduleError Unit × World :=
  match retryFailed env (env.now w.ticks) w.db.retryCandidates w.tick with
  | (.error e, w) => (.error e, w)
  | (.ok _, w) =>
    let releaseNow := env.now w.ticks
    let restoreNow := env.now w.tick.ticks
    match reconcileLeases w.db releaseNow restoreNow w.redis with
    | (.error e, redis) => (.error (.lease e), { w.tick.tick with redis })
    | (.ok _, redis) =>
      (.ok (), { w.tick.tick with
        redis
        queue := w.db.listQueued.foldl Queue.push w.queue })

/-- The call `scheduleOne` for a run that was just popped. -/
def attempt (run : Run) (queue : Queue) (w : World) : Except ScheduleError Outcome × World :=
  scheduleOne env run.id
    { w with queue, attempted := w.attempted ++ [run.id] }

/-- The loop of `Scan`. -/
def drain : Nat → World → Except ScheduleError Unit × World
  | 0, w => (.ok (), w)
  | count + 1, w =>
    match w.queue.pop with
    | none => (.ok (), w)
    | some (run, queue) =>
      match attempt env run queue w with
      | (.error e, w) => (.error e, w)
      | (.ok _, w) => drain count w

/-- `Scan`. -/
def scan (w : World) : Except ScheduleError Unit × World :=
  match prepareScan env w with
  | (.error e, w) => (.error e, w)
  | (.ok _, w) => drain env w.queue.len w

end Service

end Yunling
